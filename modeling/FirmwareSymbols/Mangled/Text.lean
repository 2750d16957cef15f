import FirmwareSymbols.Mangled.Draft

/-!
# Writing out a mangled name

A node is written as it would be declared in C++, with qualifiers behind
what they qualify, and template parameters replaced by what they stand for.
Only among the parameters of a closure, which may be called with anything,
they remain.

A name in brackets takes the nearest layer that is laid aside around it, so
that the parameters of a function stand between its name and what it asks
of its object.

A template parameter may stand for arguments that have parameters of their
own, so writing is given the room that is left for nesting, too.

## Main definitions

* `Mangled.Node.write`: writes a node.
* `Mangled.Node.writeLayer`: writes a layer around what has been written.
* `Mangled.Node.text?`: the text of a node.
-/

namespace FirmwareSymbols

namespace Mangled

namespace Node

open Writing

/-- Whether values of a type are written without it: integers are. -/
def isPlain : Node → Bool
  | builtin "int" => true
  | _ => false

/-- Whether values of a type are written bit by bit: the usual numbers with a point are. -/
def isBinary : Node → Bool
  | builtin "float" | builtin "double" => true
  | _ => false

/-- What is written for a value of a type instead of its number. -/
def name? (type : Node) (value : String) : Option String :=
  match type, value with
  | builtin "bool", "0" => some "false"
  | builtin "bool", "1" => some "true"
  | builtin "std::nullptr_t", _ => some "nullptr"
  | _, _ => none

/-- The sign of a number and what is left of it. -/
def signed (value : String) : String × String :=
  if value.startsWith "n" then ("-", (value.drop 1).toString) else ("", value)

mutual

/-- Writes a node. -/
def write : Nat → Scope → Node → Writing Unit
  | 0, _, _ => failure
  | room + 1, scope, node => do
    match node with
    | identifier text | builtin text | standard text _ => put text
    | operator symbol => put ("operator" ++ symbol)
    | conversion target =>
      put "operator "
      write room (scope.within target.targetArguments?) target
    | constructor owner => write room scope owner
    | destructor owner =>
      put "~"
      write room scope owner
    | closure parameters number =>
      put "\x7blambda("
      modify ({ · with inClosure := true })
      commaSeparated (write room scope) parameters
      modify ({ · with inClosure := false })
      put (")#" ++ toString number ++ "\x7d")
    | unnamed number => put ("\x7bunnamed type#" ++ toString number ++ "\x7d")
    | tagged name tag =>
      write room scope name
      put ("[abi:" ++ tag ++ "]")
    | member outer name =>
      write room scope outer
      put "::"
      write room scope name
    | specialization template arguments =>
      write room scope template
      writeArguments room scope arguments
    | unscoped template arguments =>
      write room (scope.within (some arguments)) template
      writeArguments room scope arguments
    | nested name asked =>
      write room scope name
      if let some nearest ← takeNearest? then
        writeLayer room nearest
      receiver asked
    | inFunction enclosing entity =>
      write room scope enclosing
      put "::"
      write room scope entity
    | elaborated kind name =>
      put (kind ++ " ")
      write room scope name
    | qualified type qualifiers =>
      around (writeLayer room) (.qualified type qualifiers) scope (write room scope type)
    | pointer target => around (writeLayer room) .pointer scope (write room scope target)
    | reference target kind =>
      around (writeLayer room) (.reference kind) scope (write room scope target)
    | array element length =>
      around (writeLayer room) (.array length) scope (write room scope element)
    | memberPointer owner target =>
      around (writeLayer room) (.memberOf owner) scope (write room scope target)
    | function result types asked =>
      let behind (parameters : Pending) : Writing Unit := do
        space
        writeLayer room parameters
      around (writeLayer room) (.receiver asked) scope
        (around behind (.parameters types) scope (write room scope result))
    | parameter index =>
      if (← get).inClosure then put ("auto:" ++ toString (index + 1))
      else write room scope (← scope.lookup? index)
    | literal type value => writeValue room scope type value
    | pack items =>
      modify ({ · with inPack := true })
      commaSeparated (write room scope) items
    | expansion pattern =>
      write room scope pattern
      unless (← get).inPack do put "..."
    | encoding subject [] => apart (write room scope subject)
    | encoding name (result :: parameters) =>
      let inside := scope.within name.arguments?
      apart do
        if name.arguments?.isSome then
          unless name.namesResult do
            write room inside result
            put " "
          around (writeLayer room) (.parameters parameters) inside (write room inside name)
        else
          around (writeLayer room) (.parameters (result :: parameters)) scope (write room scope name)
    | cloned named suffixes =>
      write room scope named
      suffixes.forM fun suffix => put (" [clone " ++ suffix ++ "]")
    | special opening subject closing =>
      put opening
      write room scope subject
      put closing

/-- Writes template arguments. Neither their brackets nor those of an operator run together with another
bracket. -/
def writeArguments : Nat → Scope → List Node → Writing Unit
  | 0, _, _ => failure
  | room + 1, scope, arguments => apart do
    if ← endsIn '<' then put " "
    put "<"
    commaSeparated (write room scope) arguments
    if ← endsIn '>' then put " "
    put ">"

/-- Writes a value of a type, with the type in front unless the value tells it. -/
def writeValue : Nat → Scope → Node → String → Writing Unit
  | 0, _, _, _ => failure
  | room + 1, scope, type, value => do
    if let some name := type.name? value then put name
    else
      unless type.isPlain do
        put "("
        write room scope type
        put ")"
      let (sign, number) := signed value
      put (sign ++ if type.isBinary then "[" ++ number ++ "]" else number)

/-- Writes a layer around what has been written. -/
def writeLayer : Nat → Pending → Writing Unit
  | 0, _ => failure
  | room + 1, { layer, scope, .. } => do
    match layer with
    | .pointer => put "*"
    | .reference .lvalue =>
      dropWhile (· matches .reference _)
      put "&"
    | .reference .rvalue =>
      dropWhile (· matches .reference .rvalue)
      unless (← get).pending.head?.any (·.layer matches .reference .lvalue) do put "&&"
    | .qualified _ qualifiers => Writing.qualifiers qualifiers
    | .memberOf owner =>
      unless ← endsIn '(' do space
      write room scope owner
      put "::*"
    | .array length => writeLength room length
    | .receiver asked => receiver asked
    | .parameters types => writeParameters room scope types

/-- Writes all layers that are laid aside. -/
def writePending : Nat → Writing Unit
  | 0 => failure
  | room + 1 => foldPending (fun _ nearest => writeLayer room nearest) ()

/-- Writes the parameters of a function. What stands around the function is written first, in parentheses
if it has to, all but what belongs behind the parameters. -/
def writeParameters : Nat → Scope → List Node → Writing Unit
  | 0, _, _ => failure
  | room + 1, scope, types => do
    let parentheses? := (← get).pending.findSome? (·.layer.parentheses?)
    if let some stands := parentheses? then
      if stands || !((← endsIn '(') || (← endsIn '*')) then space
      put "("
    let behind ← foldPending (fun behind nearest => do
      if nearest.layer.isBehind then return behind ++ [nearest]
      writeLayer room nearest
      return behind) []
    modify ({ · with pending := behind })
    if parentheses?.isSome then put ")"
    put "("
    match types with
    | [builtin "void"] => put ")"
    | types =>
      commaSeparated (write room scope) types
      put ")"
      writePending room

/-- Writes the length of an array. What stands around the array is written first, in parentheses, unless it
is an array again: the qualifiers of an array are those of its elements, and the lengths of an array of
arrays stand together. -/
def writeLength : Nat → Option Nat → Writing Unit
  | 0, _ => failure
  | room + 1, length => do
    let alone ← foldPending (fun alone nearest => do
      match nearest.layer with
      | .array _ =>
        writeLayer room nearest
        return false
      | .qualified type _ =>
        unless type.isArray do space
        writeLayer room nearest
        unless type.isArray do
          space
          put "("
          writePending room
          put ")"
        return alone
      | _ =>
        space
        put "("
        writeLayer room nearest
        writePending room
        put ")"
        return alone) true
    if alone then space
    put ("[" ++ length.elim "" toString ++ "]")

end

/-- The room that a text has for nesting. -/
def roomForText : Nat := 4096

/-- The text of a node, unless it has template parameters that stand for nothing. -/
def text? (node : Node) : Option String := ((write roomForText [] node).run {}).map (·.2.text)

end Node

end Mangled

end FirmwareSymbols
