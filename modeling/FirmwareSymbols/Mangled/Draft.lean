import FirmwareSymbols.Mangled.Scope

/-!
# Drafts of declarations

In C++ the parts of a type stand on both sides of what it is made of: in
`int (*) [5]` the pointer stands inside, the length behind. A type is
therefore written from its innermost part. On the way to that part a draft
lays aside what stands around it, layer by layer; the layer that was laid
aside last is the nearest, and the first to be written.

## Main definitions

* `Mangled.Layer`: what can stand around a part of a type.
* `Mangled.Draft`: what has been written so far, and the layers that have
  been laid aside.
* `Mangled.Writing`: writing to a draft.
* `Mangled.Writing.around`: writing with a layer laid aside.
* `Mangled.Writing.apart`: writing out of reach of the layers.
-/

namespace FirmwareSymbols

namespace Mangled

/-! ## Layers -/

/-- What can stand around a part of a type or around the name of a function. -/
inductive Layer where
  /-- A pointer. -/
  | pointer
  /-- A reference. -/
  | reference (kind : Reference)
  /-- The qualifiers of a type. -/
  | qualified (type : Node) (qualifiers : Qualifiers)
  /-- A pointer to a member of a class. -/
  | memberOf (owner : Node)
  /-- The length of an array, which may be left open. -/
  | array (length : Option Nat)
  /-- What a function type asks of the object. -/
  | receiver (receiver : Receiver)
  /-- The parameters of a function. -/
  | parameters (types : List Node)
deriving Repr

namespace Layer

/-- Whether a layer has to stand in parentheses in front of parameters, and then, whether it stands apart
from what is in front. -/
def parentheses? : Layer → Option Bool
  | memberOf _ | qualified .. => some true
  | pointer | reference _ => some false
  | array _ | receiver _ | parameters _ => none

/-- Whether a layer stands behind all parameters, and not around the parameters of its own function. -/
def isBehind : Layer → Bool
  | .receiver asked => asked.qualifiers ≠ {}
  | _ => false

end Layer

/-- A layer that is laid aside. -/
structure Pending where
  layer : Layer
  /-- The scope that the layer is written in. -/
  scope : Scope
  /-- A number by which the layer is known among those that are laid aside. -/
  level : Nat
deriving Repr

/-! ## Drafts -/

/-- A text that is being written. -/
structure Draft where
  /-- What has been written so far. -/
  text : String := ""
  /-- The layers that are laid aside, the nearest first. -/
  pending : List Pending := []
  /-- Whether the parameters of a closure are being written. -/
  inClosure : Bool := false
  /-- Whether a pack has been written. -/
  inPack : Bool := false

namespace Draft

/-- The level of the nearest layer. -/
def level (draft : Draft) : Nat := draft.pending.head?.elim 0 (·.level)

/-- Lays a layer aside. It is known by a level above those of the others. -/
def layAside (draft : Draft) (layer : Layer) (scope : Scope) : Draft :=
  { draft with pending := { layer, scope, level := draft.level + 1 } :: draft.pending }

/-- The nearest layer, and the draft without it. -/
def takeNearest? (draft : Draft) : Option (Pending × Draft) :=
  match draft.pending with
  | [] => none
  | nearest :: pending => some (nearest, { draft with pending })

/-- The layer that is known by a level, if it is the nearest, and the draft without it. -/
def takeBack? (draft : Draft) (level : Nat) : Option (Pending × Draft) :=
  draft.takeNearest?.filter (·.1.level = level)

end Draft

/-! ## Writing to a draft -/

/-- Writes to a draft, or fails where a name is not well formed. -/
abbrev Writing := StateT Draft Option

namespace Writing

variable {α : Type}

/-- Writes a text. -/
def put (text : String) : Writing Unit := modify fun draft => { draft with text := draft.text ++ text }

/-- Whether a character has been written last. -/
def endsIn (c : Char) : Writing Bool := return !(← get).text.isEmpty && (← get).text.back == c

/-- Writes a space, unless one has been written last. -/
def space : Writing Unit := do
  unless ← endsIn ' ' do put " "

/-- Writes several texts of the same kind with commas between them. -/
def commaSeparated (write : α → Writing Unit) : List α → Writing Unit
  | [] => return
  | first :: rest => do
    write first
    rest.forM fun next => do
      put ", "
      write next

/-- Writes qualifiers behind what they qualify. -/
def qualifiers (qualifiers : Qualifiers) : Writing Unit := do
  let word (text : String) : Writing Unit := do
    space
    put text
  if qualifiers.const then word "const"
  if qualifiers.volatile then word "volatile"
  if qualifiers.restrict then word "restrict"

/-- Writes what a function asks of its object behind the parameters. -/
def receiver (receiver : Receiver) : Writing Unit := do
  qualifiers receiver.qualifiers
  match receiver.reference with
  | none => return
  | some .lvalue => space; put "&"
  | some .rvalue => space; put "&&"

/-- Takes the nearest layer. -/
def takeNearest? : Writing (Option Pending) := modifyGet fun draft =>
  match draft.takeNearest? with
  | none => (none, draft)
  | some (nearest, draft) => (some nearest, draft)

/-- Goes through the layers that are laid aside, the nearest first, with a value that each may change. A
step may take further layers, but leaves none behind. -/
def foldPending (step : α → Pending → Writing α) (start : α) : Writing α := do
  go (← get).pending.length start
where
  /-- Goes through at most so many layers. -/
  go : Nat → α → Writing α
    | 0, value => return value
    | bound + 1, value => do
      match ← takeNearest? with
      | none => return value
      | some nearest => go bound (← step value nearest)

/-- Drops the nearest layers as long as they are of a kind. -/
def dropWhile (kind : Layer → Bool) : Writing Unit :=
  modify fun draft => { draft with pending := draft.pending.dropWhile (kind ·.layer) }

/-- Writes something with a layer laid aside. If nothing has taken the layer meanwhile, it is given to be
written behind. -/
def around (behind : Pending → Writing Unit) (layer : Layer) (scope : Scope) (inner : Writing Unit) :
    Writing Unit := do
  let level := (← get).level + 1
  modify (·.layAside layer scope)
  inner
  if let some (taken, draft) := (← get).takeBack? level then
    set draft
    behind taken

/-- Writes something out of reach of the layers that are laid aside. -/
def apart (inner : Writing Unit) : Writing Unit := do
  let pending := (← get).pending
  modify ({ · with pending := [] })
  inner
  modify ({ · with pending })

end Writing

end Mangled

end FirmwareSymbols
