import FirmwareSymbols.Mangled.Node
import FirmwareSymbols.Text.Numeral

/-!
# Reading a mangled name

A mangled name is read from left to right. What has been read before can
be referred to by its position among the parts that were remembered.

A reader is refused a name for one of two causes. Where something else
stands than what it reads, the next alternative is tried at the same place;
what has been remembered by then stays remembered. Where a name nests too
deeply, nothing else is tried.

## Main definitions

* `Mangled.Cursor`: what is left to read, and what may be referred to.
* `Mangled.Refusal`: why something is not read.
* `Mangled.Reader`: a reader, which may be refused.
* `Mangled.Reader.zeroOrMore`, `Mangled.Reader.oneOrMore`: repeated reading.
* `Mangled.Reader.remember`, `Mangled.Reader.referTo`: referring back.
-/

namespace FirmwareSymbols

namespace Mangled

/-- A part of a mangled name that has been read. -/
structure Part where
  /-- What the part says. -/
  node : Node
  /-- Whether a name in brackets may end with the part. -/
  mayEndName : Bool := false
deriving Repr

/-- What is left of a mangled name, and what has been read of it. -/
structure Cursor where
  /-- The characters that are left. -/
  rest : List Char
  /-- The parts that may be referred to, in the order in which they were read. -/
  remembered : Array Part := #[]
  /-- Whether the type of a conversion operator is being read. -/
  inConversion : Bool := false

/-- Why something is not read. -/
inductive Refusal where
  /-- Something else stands there. -/
  | mismatch
  /-- It nests too deeply. -/
  | tooDeep
deriving DecidableEq, Repr

/-- Reads something from the front, or is refused. -/
def Reader (α : Type) : Type := Cursor → Except Refusal α × Cursor

namespace Reader

variable {α β : Type}

/-! ## Sequence and choice -/

instance : Monad Reader where
  pure a := fun cursor => (.ok a, cursor)
  bind read next := fun cursor =>
    match read cursor with
    | (.ok a, cursor) => next a cursor
    | (.error cause, cursor) => (.error cause, cursor)

instance : MonadStateOf Cursor Reader where
  get := fun cursor => (.ok cursor, cursor)
  set cursor := fun _ => (.ok (), cursor)
  modifyGet change := fun cursor => (.ok (change cursor).1, (change cursor).2)

/-- Reads one thing, or else another at the same place. What the first has remembered stays. -/
def orElse (read : Reader α) (other : Unit → Reader α) : Reader α := fun cursor =>
  match read cursor with
  | (.error .mismatch, tried) => other () { cursor with remembered := tried.remembered }
  | result => result

/-- Something else stands there. -/
def mismatch : Reader α := fun cursor => (.error .mismatch, cursor)

/-- The name nests too deeply. -/
def tooDeep : Reader α := fun cursor => (.error .tooDeep, cursor)

instance : Alternative Reader where
  failure := mismatch
  orElse := orElse

/-- Reads something that takes more levels of nesting than are counted for it elsewhere, of the room that
is left. -/
def within (room levels : Nat) (read : Reader α) : Reader α := if room < levels then tooDeep else read

/-! ## Characters -/

/-- The next character, which stays unread. -/
def peek? : Reader (Option Char) := return (← get).rest.head?

/-- Reads one character. -/
def next : Reader Char := do
  match (← get).rest with
  | [] => mismatch
  | c :: rest =>
    modify ({ · with rest })
    return c

/-- Reads a text. -/
def word (text : String) : Reader Unit := do
  match text.toList.isPrefixOf? (← get).rest with
  | none => mismatch
  | some rest => modify ({ · with rest })

/-- Reads a text if it comes next. -/
def found (text : String) : Reader Bool := (do word text; return true) <|> return false

/-- Reads the characters up to the first that is not of a kind. -/
def takeWhile (kind : Char → Bool) : Reader (List Char) := do
  let (read, rest) := (← get).rest.span kind
  modify ({ · with rest })
  return read

/-- Reads a given number of characters. -/
def take (count : Nat) : Reader (List Char) := do
  let rest := (← get).rest
  guard (count ≤ rest.length)
  modify ({ · with rest := rest.drop count })
  return rest.take count

/-- Reads a code of a table. -/
def code (table : List (String × α)) : Reader α :=
  table.foldr (fun (text, meaning) other => (do word text; return meaning) <|> other) failure

/-- Reads something and gives the characters back. -/
def ahead (read : Reader α) : Reader α := do
  let rest := (← get).rest
  let a ← read
  modify ({ · with rest })
  return a

/-! ## Repetition -/

/-- Reads something as often as it can be read, but not more often than is said. -/
def upTo (read : Reader α) : Nat → Reader (List α)
  | 0 => return []
  | bound + 1 => do
    match ← optional read with
    | none => return []
    | some first => return first :: (← upTo read bound)

/-- Reads something as often as it can be read. It takes at least one character each time, so it is
refused before the bound is reached. -/
def zeroOrMore (read : Reader α) : Reader (List α) := do upTo read ((← get).rest.length + 1)

/-- Reads something as often as it can be read, at least once. -/
def oneOrMore (read : Reader α) : Reader (List α) := do
  let first ← read
  return first :: (← zeroOrMore read)

/-- Goes on from one value to the next until the letter that ends a group comes next. -/
def untilEnd (step : α → Reader α) : Nat → α → Reader α
  | 0, current => return current
  | bound + 1, current => do
    if (← peek?) = some 'E' then return current
    untilEnd step bound (← step current)

/-! ## Numbers -/

/-- Numbers in a mangled name are below `2 ^ 63`. -/
def numberBound : Nat := 0x8000000000000000

/-- The value of some digits, if they are written as a number is: without zeros in front. -/
def number? (base : Nat) (digits : List Char) : Option Nat :=
  if digits.isEmpty || (digits.head? = some '0' && 1 < digits.length) then none
  else
    let value := digits.foldl (fun value c =>
      value * base + if c.isDigit then c.toNat - '0'.toNat else c.toNat - 'A'.toNat + 10) 0
    Numeral.below? numberBound value

/-- Reads a number in a base, of digits of some kind. -/
def digits (base : Nat) (kind : Char → Bool) : Reader Nat := do
  match number? base (← takeWhile kind) with
  | none => mismatch
  | some number => return number

/-- Reads a number in decimal. -/
def natural : Reader Nat := digits 10 Char.isDigit

/-- Reads a number in decimal that may be negative. -/
def integer : Reader Int := do
  if ← found "n" then return -(← natural) else return ← natural

/-- Reads a number in base 36. -/
def position : Reader Nat := digits 36 fun c => c.isDigit || c.isUpper

/-! ## References -/

/-- Remembers a part, so that it may be referred to. -/
def rememberPart (part : Part) : Reader Part := do
  modify fun cursor => { cursor with remembered := cursor.remembered.push part }
  return part

/-- Remembers a type or a template, so that it may be referred to. -/
def remember (node : Node) : Reader Node := return (← rememberPart { node }).node

/-- The part that was remembered at a position. -/
def referTo (index : Nat) : Reader Part := do
  match (← get).remembered[index]? with
  | none => mismatch
  | some part => return part

end Reader

end Mangled

end FirmwareSymbols
