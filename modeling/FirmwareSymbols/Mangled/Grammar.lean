import FirmwareSymbols.Mangled.Reader
import FirmwareSymbols.Mangled.Vocabulary

/-!
# The grammar of mangled names

One reader for each production of the grammar. The productions are
mutually recursive, so each is given the room that is left for nesting:
entering a production takes one unit of room, and with no room left
nothing can be read. Lists, such as those of parameters, scopes and
template arguments, take room once and not for each item.

A name may refer back to parts that it has written out before. Scopes,
templates and all types but the builtin ones are remembered for that, each
behind the parts it consists of.

## Main definitions

* `Mangled.Grammar.encoding`, `Mangled.Grammar.name`,
  `Mangled.Grammar.type`: the main productions.
* `Mangled.parse?`: reads a whole mangled name.
-/

namespace FirmwareSymbols

namespace Mangled

namespace Grammar

open Reader

/-! ## Names without parts -/

/-- A character that may occur in a name. -/
def isNameCharacter (c : Char) : Bool := c.isAlphanum || c = '_' || c = '$' || c = '.'

/-- What is shown for a name: compilers give namespaces without a name a name of their own, of one of
three forms. -/
def shownName (text : List Char) : String :=
  if ["_GLOBAL__N", "_GLOBAL_.N", "_GLOBAL_$N"].any fun own => own.toList.isPrefixOf text then
    "(anonymous namespace)"
  else String.ofList text

/-- A name, which has its length in front. -/
def sourceName : Reader String := do
  let length ← natural
  guard (length ≠ 0)
  let text ← take length
  guard (text.all isNameCharacter)
  return shownName text

/-- The number that tells apart entities of one name within a function, which is not shown. It has one
digit, or stands between underscores. -/
def discriminator : Reader Unit := do
  word "_"
  if ← found "_" then
    guard (10 ≤ (← natural))
    word "_"
  else
    guard (← next).isDigit

/-- The qualifiers of a type or an object, in the order in which they are coded. -/
def qualifiers : Reader Qualifiers :=
  return { restrict := ← found "r", volatile := ← found "V", const := ← found "K" }

/-- The kind of reference that an object must be, if any is asked for. -/
def objectReference : Reader (Option Reference) := do
  if ← found "R" then return some .lvalue
  if ← found "O" then return some .rvalue
  return none

/-- A part that has been remembered, or an abbreviated name. -/
def backReference : Reader Part :=
  (do return { node := ← code abbreviations }) <|> do
    word "S"
    if ← found "_" then referTo 0 else
      let index ← position
      word "_"
      referTo (index + 1)

/-- A template parameter. -/
def templateParameter : Reader Node := do
  word "T"
  if ← found "_" then return .parameter 0
  let index ← natural
  word "_"
  return .parameter (index + 1)

/-- A constructor or destructor of the class in which it stands. Which of the variants of one it is, is
not shown. -/
def specialMember (scope : Option Node) : Reader Node := do
  match scope.bind (·.owner?) with
  | none => mismatch
  | some owner =>
    code [("C1", .constructor owner), ("C2", .constructor owner), ("C3", .constructor owner),
      ("C4", .constructor owner), ("D0", .destructor owner), ("D1", .destructor owner),
      ("D2", .destructor owner), ("D4", .destructor owner)]

/-- A type without a name. The first of a scope has no number. -/
def unnamedType : Reader Node := do
  word "Ut"
  let number ← optional natural
  word "_"
  return .unnamed (number.elim 1 (· + 1))

/-- How a pointer is moved before a virtual function is called. -/
def callOffset : Reader String :=
  (do
    word "h"
    let offset ← integer
    word "_"
    return "\x7boffset(" ++ toString offset ++ ")\x7d") <|> do
  word "v"
  let offset ← integer
  word "_"
  let position ← integer
  word "_"
  return "\x7bvirtual offset(" ++ toString offset ++ ", " ++ toString position ++ ")\x7d"

/-- A name with the tags behind it. -/
def withTags (name : Node) : Reader Node := do
  let tags ← zeroOrMore (do
    word "B"
    sourceName)
  return tags.foldl .tagged name

/-- A suffix that tells what a compiler has made of a function, with numbers behind it. -/
def cloneSuffix : Reader String := do
  word "."
  let text ← takeWhile fun c => c.isAlphanum || c = '_' || c = '$'
  guard !text.isEmpty
  let numbers ← zeroOrMore (do
    word "."
    return "." ++ toString (← natural))
  return "." ++ String.ofList text ++ String.join numbers

/-- A part of a nested name. A part that is not the last may be referred to. -/
def rememberScope (part : Part) : Reader Part := do
  if (← peek?) = some 'E' then return part else rememberPart part

/-! ## The productions -/

mutual

/-- A mangled name with its mark and its suffixes. -/
def marked : Nat → Reader Node
  | 0 => tooDeep
  | room + 1 => do
    word "_Z"
    let function ← encoding room
    let suffixes ← zeroOrMore cloneSuffix
    return if suffixes.isEmpty then function else .cloned function suffixes

/-- A function with its types, data, or what a compiler adds. -/
def encoding : Nat → Reader Node
  | 0 => tooDeep
  | room + 1 =>
    (do
      let name ← name room
      let types ← optional (types room)
      return .encoding name (types.getD [])) <|> do
    return .encoding (← special room) []

/-- One or more types. -/
def types : Nat → Reader (List Node)
  | 0 => tooDeep
  | room + 1 => oneOrMore (type room)

/-- What a compiler adds for a type, for a variable or for a virtual function. -/
def special : Nat → Reader Node
  | 0 => tooDeep
  | room + 1 =>
    (do
      let (opening, closing) ← code typeTables
      return .special opening (← type room) closing) <|>
    (do
      word "GV"
      return .special "guard variable for " (← name room) "") <|>
    (do
      word "Tc"
      let this ← callOffset
      let result ← callOffset
      let offsets := this ++ ", " ++ result ++ ", "
      return .special ("\x7bvirtual override thunk(" ++ offsets) (← encoding room) ")\x7d") <|> do
    word "T"
    let offset ← callOffset
    return .special ("\x7bvirtual override thunk(" ++ offset ++ ", ") (← encoding room) ")\x7d"

/-- A name of a function, of data or of a class. Once a template has been read, its arguments have to
follow. -/
def name : Nat → Reader Node
  | 0 => tooDeep
  | room + 1 =>
    nestedName room <|> do
    if let some name ← optional (unscopedName room) then
      if (← peek?) = some 'I' then
        let template ← remember name
        return .unscoped template (← arguments room)
      return name
    if let some template ← optional (template room) then
      return .unscoped template (← arguments room)
    localName room

/-- A name in no scope, or in the namespace of the standard library. -/
def unscopedName : Nat → Reader Node
  | 0 => tooDeep
  | room + 1 =>
    (do
      word "St"
      return .member (.identifier "std") (← unqualifiedName room none)) <|>
    unqualifiedName room none

/-- A template, without its arguments. -/
def template : Nat → Reader Node
  | 0 => tooDeep
  | room + 1 =>
    (do remember (← unscopedName room)) <|> do
    return (← backReference).node

/-- A name in brackets, with what it asks of its object in front. -/
def nestedName : Nat → Reader Node
  | 0 => tooDeep
  | room + 1 => do
    word "N"
    let qualifiers ← qualifiers
    let reference ← objectReference
    let whole ← scopes room
    word "E"
    guard whole.mayEndName
    return .nested whole.node { qualifiers, reference }

/-- The parts of a nested name, from the outermost scope to the name itself. -/
def scopes : Nat → Reader Part
  | 0 => tooDeep
  | room + 1 => do
    let some whole ← untilEnd (fun scope => some <$> scopePart room scope) (← get).rest.length none
      | mismatch
    return whole

/-- A part of a nested name, within the scope that stands in front of it. A letter behind the name of a
data member says that what follows stands in its initializer. -/
def scopePart : Nat → Option Part → Reader Part
  | 0, _ => tooDeep
  | room + 1, scope => do
    match ← peek?, scope with
    | some 'S', _ => within room 2 backReference
    | some 'T', _ => rememberScope { node := ← templateParameter }
    | some 'I', some template =>
      let node := .specialization template.node (← arguments room)
      rememberScope { node, mayEndName := true }
    | _, none => rememberScope { node := ← unqualifiedName room none, mayEndName := true }
    | some c, some outer =>
      if c.isDigit then
        let name ← .identifier <$> within room 2 sourceName
        if ← found "M" then rememberScope { node := .member outer.node name }
        else rememberScope { node := .member outer.node (← withTags name), mayEndName := true }
      else
        let name ← unqualifiedName room outer.node
        rememberScope { node := .member outer.node name, mayEndName := true }
    | none, some _ => mismatch

/-- A name within a scope, and the tags behind it. -/
def unqualifiedName : Nat → Option Node → Reader Node
  | 0, _ => tooDeep
  | room + 1, scope => do
    let name ←
      operatorName room <|> specialMember scope <|>
      (do
        word "L"
        let text ← sourceName
        discard (optional discriminator)
        return .identifier text) <|>
      (.identifier <$> sourceName) <|> closure room <|> unnamedType
    withTags name

/-- The name of an operator. While the target of a conversion is read, template arguments may belong to
the operator and not to the target. -/
def operatorName : Nat → Reader Node
  | 0 => tooDeep
  | room + 1 =>
    within room 1 (.operator <$> code operators) <|>
    (do
      word "cv"
      let outside := (← get).inConversion
      modify ({ · with inConversion := true })
      let target ← type room
      modify ({ · with inConversion := outside })
      return .conversion target) <|> do
    word "li"
    return .operator ("\"\" " ++ (← sourceName))

/-- A closure. The first with its parameters has no number. -/
def closure : Nat → Reader Node
  | 0 => tooDeep
  | room + 1 => do
    word "Ul"
    let parameters ← if ← found "v" then pure [] else types room
    word "E"
    let number ← optional natural
    word "_"
    return .closure parameters (number.elim 1 (· + 2))

/-- A name within a function: an entity, a string literal, or an entity in the default argument of a
parameter. -/
def localName : Nat → Reader Node
  | 0 => tooDeep
  | room + 1 => do
    word "Z"
    let function ← encoding room
    word "E"
    if ← found "s" then
      discard (optional discriminator)
      return .inFunction function (.identifier "string literal")
    if ← found "d" then
      discard (optional integer)
      word "_"
      return .inFunction function (← name room)
    let entity ← name room
    discard (optional discriminator)
    return .inFunction function entity

/-- Template arguments, in brackets. -/
def arguments : Nat → Reader (List Node)
  | 0 => tooDeep
  | room + 1 => do
    word "I"
    let arguments ← oneOrMore (argument room)
    word "E"
    return arguments

/-- A template argument: a value, a type, or any number of arguments. -/
def argument : Nat → Reader Node
  | 0 => tooDeep
  | room + 1 =>
    literal room <|> type room <|> do
    word "J" <|> word "I"
    let items ← zeroOrMore (argument room)
    word "E"
    return .pack items

/-- A value of a type, or a function or variable. -/
def literal : Nat → Reader Node
  | 0 => tooDeep
  | room + 1 => do
    word "L"
    (do
      let type ← type room
      let value ← takeWhile (· != 'E')
      word "E"
      return .literal type (String.ofList value)) <|> do
    let value ← marked room
    word "E"
    return value

/-- A type. Qualifiers in front of a function type belong to that type: if it could not be read with them,
it cannot be read behind them either, unless there is more to refer to by then. -/
def type : Nat → Reader Node
  | 0 => tooDeep
  | room + 1 => do
    let known := (← get).remembered.size
    within room 2 (.builtin <$> code builtins) <|>
    (do remember (← classType room)) <|>
    (do
      let type ← backReference
      guard ((← peek?) ≠ some 'I')
      return type.node) <|>
    (do remember (← compoundType room)) <|>
    (do
      let parameter ← templateParameter
      if (← peek?) = some 'I' then
        guard (← get).inConversion
        let behind ← ahead (do
          discard (arguments room)
          peek?)
        guard (behind ≠ some 'I')
      remember parameter) <|>
    (do
      let template ← remember (← templateParameter)
      remember (.specialization template (← arguments room))) <|>
    (do
      let qualifiers ← qualifiers
      guard (qualifiers ≠ {})
      guard ((← peek?) ≠ some 'F' || known < (← get).remembered.size)
      remember (.qualified (← type room) qualifiers)) <|>
    (do
      word "P"
      remember (.pointer (← type room))) <|>
    (do
      word "R"
      remember (.reference (← type room) .lvalue)) <|>
    (do
      word "O"
      remember (.reference (← type room) .rvalue)) <|> do
    word "Dp"
    remember (.expansion (← type room))

/-- A class, perhaps with the kind of class it is. -/
def classType : Nat → Reader Node
  | 0 => tooDeep
  | room + 1 =>
    name room <|> do
    let kind ← code elaborations
    return .elaborated kind (← name room)

/-- A type of functions, of arrays or of pointers to members. -/
def compoundType : Nat → Reader Node
  | 0 => tooDeep
  | room + 1 =>
    (do
      let qualifiers ← qualifiers
      word "F"
      discard (found "Y")
      match ← types room with
      | [] => mismatch
      | result :: parameters =>
        let reference ← objectReference
        word "E"
        return .function result parameters { qualifiers, reference }) <|>
    (do
      word "A"
      let length ← optional natural
      word "_"
      return .array (← type room) length) <|> do
    word "M"
    let owner ← type room
    return .memberPointer owner (← type room)

end

/-! ## Whole names -/

/-- The room that a name has for nesting. -/
def roomForNesting : Nat := 95

/-- A whole mangled name. -/
def wholeName : Reader Node := do
  let node ← marked roomForNesting
  guard (← get).rest.isEmpty
  return node

end Grammar

/-- Reads a whole mangled name. -/
def parse? (text : String) : Option Node := (Grammar.wholeName { rest := text.toList }).1.toOption

end Mangled

end FirmwareSymbols
