import FirmwareSymbols.Text.Blank

/-!
# Signatures

A demangled name is one text: perhaps a return type, then a qualified
name, then perhaps parameters in parentheses and qualifiers behind them.
A `Signature` is that text cut into its parts. Brackets are matched by
depth, so neither parameters that hold function types nor names that hold
template arguments are cut in the middle.

The text is read from its end, because only there it is plain where the
parameters are.

## Main definitions

* `Signature.parameters?`: the parameters of a text and what stands before
  them.
* `Signature.splitName`: the name at the end of a text and what stands
  before it.
* `Signature.parse`: the parts of a text.
-/

namespace FirmwareSymbols

/-- A demangled name, cut into its parts. -/
structure Signature where
  /-- What stands before the name, if anything does. -/
  returnType : Option String
  /-- The qualified name. -/
  name : String
  /-- The parameters without the parentheses around them; data has none. -/
  parameters : Option String
  /-- The whole text. -/
  full : String
deriving DecidableEq, Repr

namespace Signature

/-- The words that may stand behind the parameters. -/
def qualifiers : List (List Char) :=
  ["const".toList, "volatile".toList, "&".toList, "&&".toList]

/-- Reads a text backward from a closing parenthesis to the opening one that matches it. The answer is
the text between them and, in reverse, the text before them. -/
def toOpening (depth : Nat) (inside : List Char) : List Char → Option (List Char × List Char)
  | [] => none
  | c :: before =>
    if c = ')' then toOpening (depth + 1) (c :: inside) before
    else if c = '(' then
      match depth with
      | 0 => some (inside, before)
      | depth + 1 => toOpening depth (c :: inside) before
    else toOpening depth (c :: inside) before

/-- The parameters of a text given in reverse, and the reverse of what stands before them. They end
with the last closing parenthesis, behind which only qualifiers may stand. -/
def parameters? (reversed : List Char) : Option (List Char × List Char) :=
  let tail := (reversed.takeWhile (· != ')')).reverse
  match reversed.dropWhile (· != ')') with
  | [] => none
  | _ :: before =>
    if (Text.words tail).all qualifiers.contains then toOpening 0 [] before else none

/-- The word that begins the name of an operator, in reverse. -/
def operatorReversed : List Char := "operator".toList.reverse

/-- Cuts a text given in reverse before its last word. A space inside brackets belongs to the word, and
so does one behind `operator`. The answer is the word and, in reverse, the text before it. -/
def splitName (depth : Nat) (name : List Char) : List Char → List Char × List Char
  | [] => (name, [])
  | c :: before =>
    if c = '>' ∨ c = ')' then splitName (depth + 1) (c :: name) before
    else if c = '<' ∨ c = '(' then splitName (depth - 1) (c :: name) before
    else if c = ' ' ∧ depth = 0 ∧ ¬ operatorReversed <+: before then (name, c :: before)
    else splitName depth (c :: name) before

/-- The parts of a demangled text. -/
def parse (text : String) : Signature :=
  let reversed := text.toList.reverse
  let (parameters, head) :=
    match parameters? reversed with
    | some (inside, before) => (some inside, before)
    | none => (none, reversed)
  let (name, before) := splitName 0 [] (Text.trimLeft head)
  let returnType := Text.trim before.reverse
  { returnType := if returnType.isEmpty then none else some (String.ofList returnType)
    name := String.ofList name
    parameters := parameters.map String.ofList
    full := text }

end Signature

end FirmwareSymbols
