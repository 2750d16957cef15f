import FirmwareSymbols.Json

/-!
# Writing JSON values

A value is written in one of two layouts: on one line without blanks, or
with one item or member per line, indented by its depth. A layout chooses
only the blanks; everything else is the same in both.

## Main definitions

* `Json.Layout`: the blanks of a layout.
* `Json.compactText`, `Json.prettyText`: the text of a value.
-/

namespace FirmwareSymbols

namespace Json

/-- The blanks of a written value. -/
structure Layout where
  /-- What stands before an item or a closing bracket at a depth. -/
  line : Nat → List Char
  /-- What stands between the colon of a member and its value. -/
  gap : List Char

namespace Layout

/-- Everything on one line, without blanks. -/
def compact : Layout := ⟨fun _ => [], []⟩

/-- One item or member per line, indented by two spaces for each open container. -/
def pretty : Layout := ⟨fun depth => '\n' :: List.replicate (2 * depth) ' ', [' ']⟩

end Layout

/-- The escape of a character that may not stand for itself. Control characters without an escape of
their own are written as four hexadecimal digits. -/
def escape (c : Char) : List Char :=
  match c with
  | '"' => ['\\', '"']
  | '\\' => ['\\', '\\']
  | '\x08' => ['\\', 'b']
  | '\t' => ['\\', 't']
  | '\n' => ['\\', 'n']
  | '\x0c' => ['\\', 'f']
  | '\r' => ['\\', 'r']
  | c =>
    if c.toNat < 0x20 then
      ['\\', 'u', '0', '0', Nat.digitChar (c.toNat / 16), Nat.digitChar (c.toNat % 16)]
    else
      [c]

/-- A string between quotes. Half of a surrogate pair, which has no text, is written as an escape that
reads as one. -/
def quote (text : Option String) : List Char :=
  match text with
  | some text => '"' :: (text.toList.flatMap escape ++ ['"'])
  | none => '"' :: ("\\ud800".toList ++ ['"'])

mutual

/-- The text of a value that stands at a depth. -/
def write (layout : Layout) (depth : Nat) : Json → List Char
  | null => "null".toList
  | bool true => "true".toList
  | bool false => "false".toList
  | number literal => literal
  | string text => quote text
  | list [] => ['[', ']']
  | list (item :: items) =>
    '[' :: (layout.line (depth + 1) ++ write layout (depth + 1) item
      ++ writeItems layout (depth + 1) items ++ layout.line depth ++ [']'])
  | object [] => ['\x7b', '\x7d']
  | object (member :: members) =>
    '\x7b' :: (layout.line (depth + 1) ++ writeMember layout (depth + 1) member
      ++ writeMembers layout (depth + 1) members ++ layout.line depth ++ ['\x7d'])

/-- The text of the items behind the first one. -/
def writeItems (layout : Layout) (depth : Nat) : List Json → List Char
  | [] => []
  | item :: items =>
    ',' :: (layout.line depth ++ write layout depth item ++ writeItems layout depth items)

/-- The text of a key and its value. -/
def writeMember (layout : Layout) (depth : Nat) : Option String × Json → List Char
  | (key, value) => quote key ++ ':' :: (layout.gap ++ write layout depth value)

/-- The text of the members behind the first one. -/
def writeMembers (layout : Layout) (depth : Nat) : List (Option String × Json) → List Char
  | [] => []
  | member :: members =>
    ',' :: (layout.line depth ++ writeMember layout depth member
      ++ writeMembers layout depth members)

end

/-- The text of a value on one line. -/
def compactText (value : Json) : String := String.ofList (value.write .compact 0)

/-- The text of a value with one item or member per line. -/
def prettyText (value : Json) : String := String.ofList (value.write .pretty 0)

end Json

end FirmwareSymbols
