/-!
# JSON values

A `Json` is what a JSON text says before anybody asks for a type. Numbers
stay literals, since a literal that nobody reads need not fit any number
type. A string may have no text at all: an escape can name one half of a
surrogate pair and leave the other half out, which is well formed but
stands for no character.
-/

namespace FirmwareSymbols

/-- A JSON value. -/
inductive Json where
  /-- The literal `null`. -/
  | null
  /-- One of the literals `true` and `false`. -/
  | bool (value : Bool)
  /-- A number, as it is written. -/
  | number (literal : List Char)
  /-- A string, or no text where the string holds half of a surrogate pair. -/
  | string (text : Option String)
  /-- A list of values. -/
  | list (items : List Json)
  /-- An object, as a list of its members. -/
  | object (members : List (Option String × Json))
deriving Inhabited

namespace Json

/-- The number with a value. -/
def ofNat (n : Nat) : Json := number (Nat.toDigits 10 n)

/-- The string with a text. -/
def ofString (text : String) : Json := string (some text)

/-- An optional value, where nothing is `null`. -/
def ofOption {α : Type} (write : α → Json) (value : Option α) : Json := value.elim null write

/-- The list of some values. -/
def ofList {α : Type} (write : α → Json) (values : List α) : Json := list (values.map write)

/-- The object with the given members. -/
def ofMembers (members : List (String × Json)) : Json :=
  object (members.map fun member => (some member.1, member.2))

end Json

end FirmwareSymbols
