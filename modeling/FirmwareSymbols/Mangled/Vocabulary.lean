import FirmwareSymbols.Mangled.Node

/-!
# The fixed codes of mangled names

Builtin types, operators and some classes of the standard library have
codes of one or two letters.

## Main definitions

* `Mangled.builtins`: the builtin types.
* `Mangled.operators`: the operators, as they are written behind the word
  `operator`.
* `Mangled.abbreviations`: the abbreviated names.
-/

namespace FirmwareSymbols

namespace Mangled

/-- The codes of the builtin types. -/
def builtins : List (String × String) :=
  [("v", "void"), ("w", "wchar_t"), ("b", "bool"), ("c", "char"), ("a", "signed char"),
   ("h", "unsigned char"), ("s", "short"), ("t", "unsigned short"), ("i", "int"),
   ("j", "unsigned int"), ("l", "long"), ("m", "unsigned long"), ("x", "long long"),
   ("y", "unsigned long long"), ("n", "__int128"), ("o", "unsigned __int128"), ("f", "float"),
   ("d", "double"), ("e", "long double"), ("g", "__float128"), ("z", "..."),
   ("Dd", "decimal64"), ("De", "decimal128"), ("Df", "decimal32"), ("Dh", "half"),
   ("Di", "char32_t"), ("Ds", "char16_t"), ("Du", "char8_t"), ("Da", "auto"),
   ("Dc", "decltype(auto)"), ("Dn", "std::nullptr_t")]

/-- The codes of the operators. Those that are words stand apart from the word `operator`. -/
def operators : List (String × String) :=
  [("nw", " new"), ("na", " new[]"), ("dl", " delete"), ("da", " delete[]"), ("aw", " co_await"),
   ("ps", "+"), ("ng", "-"), ("ad", "&"), ("de", "*"), ("co", "~"), ("pl", "+"), ("mi", "-"),
   ("ml", "*"), ("dv", "/"), ("rm", "%"), ("an", "&"), ("or", "|"), ("eo", "^"), ("aS", "="),
   ("pL", "+="), ("mI", "-="), ("mL", "*="), ("dV", "/="), ("rM", "%="), ("aN", "&="),
   ("oR", "|="), ("eO", "^="), ("ls", "<<"), ("rs", ">>"), ("lS", "<<="), ("rS", ">>="),
   ("eq", "=="), ("ne", "!="), ("lt", "<"), ("gt", ">"), ("le", "<="), ("ge", ">="), ("nt", "!"),
   ("aa", "&&"), ("oo", "||"), ("pp", "++"), ("mm", "--"), ("cm", ","), ("pm", "->*"),
   ("pt", "->"), ("cl", "()"), ("ix", "[]"), ("qu", "?:"), ("ss", "<=>")]

/-- The codes of the abbreviated names. The class templates stand for their usual instances. -/
def abbreviations : List (String × Node) :=
  [("St", .identifier "std"),
   ("Sa", .standard "std::allocator" "allocator"),
   ("Sb", .standard "std::basic_string" "basic_string"),
   ("Ss", .standard "std::string" "string"),
   ("Si", .standard "std::basic_istream<char, std::char_traits<char> >" "basic_istream"),
   ("So", .standard "std::ostream" "ostream"),
   ("Sd", .standard "std::basic_iostream<char, std::char_traits<char> >" "basic_iostream")]

/-- The ways to name a class together with its kind. -/
def elaborations : List (String × String) := [("Ts", "struct"), ("Tu", "union"), ("Te", "enum")]

/-- What a compiler adds for a type, with the texts before and behind the type. -/
def typeTables : List (String × String × String) :=
  [("TV", "\x7bvtable(", ")\x7d"), ("TT", "\x7bvtt(", ")\x7d"), ("TI", "typeinfo for ", ""),
   ("TS", "typeinfo name for ", "")]

end Mangled

end FirmwareSymbols
