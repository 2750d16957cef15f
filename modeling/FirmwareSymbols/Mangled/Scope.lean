import FirmwareSymbols.Mangled.Node

/-!
# Template parameters

A mangled name says of a template parameter only at which position it
stands. What it stands for is found among the template arguments of the
functions around it, those of the innermost first.

## Main definitions

* `Mangled.Scope`: the template arguments around a part of a name.
* `Mangled.Scope.lookup?`: what a template parameter stands for.
-/

namespace FirmwareSymbols

namespace Mangled

/-- The lists of template arguments around a part of a name, innermost first. -/
abbrev Scope := List (List Node)

namespace Scope

/-- The scope within something that has template arguments, or has none. -/
def within (scope : Scope) (arguments? : Option (List Node)) : Scope :=
  arguments?.elim scope (· :: scope)

/-- What a template parameter stands for. The innermost list decides, and the others are asked only about
positions that it does not have. -/
def lookup? (scope : Scope) (index : Nat) : Option Node := scope.findSome? (·[index]?)

end Scope

end Mangled

end FirmwareSymbols
