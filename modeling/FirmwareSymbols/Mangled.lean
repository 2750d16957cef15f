import FirmwareSymbols.Demangling
import FirmwareSymbols.Mangled.Grammar
import FirmwareSymbols.Mangled.Text

/-!
# A library of mangled names

One of the libraries that names can be demangled with. It knows the part of
the grammar that `Mangled.Grammar` reads, and takes any other name for one
that is not mangled.

## Main definitions

* `Mangled.demangle`: what the library answers.
* `Signature.demangle?`: the signature of a name by this library, if there
  is one to show.
-/

namespace FirmwareSymbols

/-- The text of a mangled name. A name that has been read may have template parameters that stand for
nothing, and then it has no text. -/
def Mangled.demangle (name : String) : Demangled String :=
  match parse? name with
  | none => .plain
  | some node =>
    match node.text? with
    | none => .unwritable
    | some text => .written text

/-- The signature to show for a name, with or without the mark in front. There is one only if the library
has written a text; which of the other names are mangled is told by `Signature.demangle` alone. -/
def Signature.demangle? (name : String) : Option Signature :=
  (Signature.demangle Mangled.demangle name).value?

end FirmwareSymbols
