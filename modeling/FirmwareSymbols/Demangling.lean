import FirmwareSymbols.Signature

/-!
# Demangling names

Compilers for C++ write a function with its scopes and its parameters into
one mangled name, which begins with a mark. What a mangled name stands for
is known to a library, and nothing is assumed of it here: a library is any
function that answers for marked names.

A library may read a name and yet have no text for it, as where a template
parameter stands for nothing. It does not come back with an answer then, so
that is an outcome of its own.

Some images hold mangled names without the mark, so names that look as if
they lacked it are handed to the library as if they had it.

## Main definitions

* `Demangled`: what comes of demangling a name.
* `Signature.demangle`: the signature of a name, with the mark or without.
-/

namespace FirmwareSymbols

/-- What comes of demangling a name. -/
inductive Demangled (α : Type) where
  /-- The name is not mangled. -/
  | plain
  /-- The name is mangled, but it stands for no text. Nobody who asks gets an answer. -/
  | unwritable
  /-- What the name stands for. -/
  | written (value : α)
deriving DecidableEq, Repr

namespace Demangled

variable {α β : Type}

/-- The same outcome for something made of what the name stands for. -/
def map (f : α → β) : Demangled α → Demangled β
  | plain => plain
  | unwritable => unwritable
  | written value => written (f value)

/-- What the name stands for, if there is anything to show. -/
def value? : Demangled α → Option α
  | plain | unwritable => none
  | written value => some value

end Demangled

namespace Mangled

/-- The characters in front that mark a mangled name. -/
def mark : String := "_Z"

/-- Whether a name has the mark. -/
def isMarked (name : String) : Bool := mark.toList.isPrefixOf name.toList

/-- Whether a name looks like a mangled one without its mark: it starts with the length of a name, or
with the bracket of a nested name and a length. -/
def looksUnmarked (name : String) : Bool :=
  match name.toList with
  | 'N' :: c :: _ => c.isDigit
  | c :: _ => c.isDigit
  | [] => false

end Mangled

/-- The signature of a name, by a library that answers for marked names. It is asked once, or not at all
if the name neither has the mark nor looks as if it lacked it. -/
def Signature.demangle (library : String → Demangled String) (name : String) :
    Demangled Signature :=
  let answer :=
    if Mangled.isMarked name then library name
    else if Mangled.looksUnmarked name then library (Mangled.mark ++ name)
    else .plain
  answer.map Signature.parse

end FirmwareSymbols
