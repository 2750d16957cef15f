/-!
# What a mangled name says

A mangled C++ name is a tree in which names, types and whole functions are
built of one another: a name may have types as template arguments, and the
type of a closure names the function it was written in. So one type holds
them all.

## Main definitions

* `Mangled.Node`: the tree.
* `Mangled.Node.owner?`: the class that a constructor within a scope
  constructs.
* `Mangled.Node.arguments?`: the template arguments that a name ends in.
* `Mangled.Node.namesResult`: which names say already what a function
  yields.
-/

namespace FirmwareSymbols

namespace Mangled

/-- The qualifiers of a type. -/
structure Qualifiers where
  const : Bool := false
  volatile : Bool := false
  restrict : Bool := false
deriving DecidableEq, Repr

/-- The two kinds of reference. -/
inductive Reference where
  | lvalue
  | rvalue
deriving DecidableEq, Repr

/-- What a member function asks of the object that it is called on. -/
structure Receiver where
  qualifiers : Qualifiers := {}
  reference : Option Reference := none
deriving DecidableEq, Repr

/-- A name, a type, a template argument or a function. -/
inductive Node where
  /-- A name without parts. -/
  | identifier (text : String)
  /-- A class of the standard library that has an abbreviation, and the name that its constructors
  have. -/
  | standard (text ownName : String)
  /-- An operator, with what stands behind the word `operator`. -/
  | operator (symbol : String)
  /-- The operator that converts to a type. -/
  | conversion (target : Node)
  /-- A constructor of a class. -/
  | constructor (owner : Node)
  /-- The destructor of a class. -/
  | destructor (owner : Node)
  /-- A closure, numbered among those of its function that have the same parameters. -/
  | closure (parameters : List Node) (number : Nat)
  /-- A type without a name, numbered within its scope. -/
  | unnamed (number : Nat)
  /-- A name with a tag that tells binary interfaces apart. -/
  | tagged (name : Node) (tag : String)
  /-- A name within a scope. -/
  | member (scope name : Node)
  /-- A template with its arguments. -/
  | specialization (template : Node) (arguments : List Node)
  /-- A template in no class with its arguments. Its name may refer to them. -/
  | unscoped (template : Node) (arguments : List Node)
  /-- A name that is written in brackets, with what it asks of its object if it is a function. -/
  | nested (name : Node) (receiver : Receiver)
  /-- An entity within a function. -/
  | inFunction (enclosing entity : Node)
  /-- A builtin type. -/
  | builtin (text : String)
  /-- A class that is named together with the kind of class it is. -/
  | elaborated (kind : String) (name : Node)
  /-- A qualified type. -/
  | qualified (type : Node) (qualifiers : Qualifiers)
  /-- A pointer to a type. -/
  | pointer (target : Node)
  /-- A reference to a type. -/
  | reference (target : Node) (kind : Reference)
  /-- An array, whose length may be left open. -/
  | array (element : Node) (length : Option Nat)
  /-- A pointer to a member of a class. -/
  | memberPointer (owner target : Node)
  /-- A function type. -/
  | function (result : Node) (parameters : List Node) (receiver : Receiver)
  /-- A template parameter, by its position. -/
  | parameter (index : Nat)
  /-- A value of a type. -/
  | literal (type : Node) (value : String)
  /-- Any number of template arguments in the place of one. -/
  | pack (items : List Node)
  /-- A type that stands for as many types as a pack has items. -/
  | expansion (pattern : Node)
  /-- A function with its types, of which the first may be its result, or anything else that has no
  types. -/
  | encoding (subject : Node) (types : List Node)
  /-- What a compiler has made of a function, with the suffixes that tell. -/
  | cloned (function : Node) (suffixes : List String)
  /-- What a compiler adds for something, with the texts before and behind it. -/
  | special (opening : String) (subject : Node) (closing : String)
deriving Repr

namespace Node

/-- The part of a name by which the constructors of the class go. A scope that has no such part goes by
the one around it. -/
def owner? : Node → Option Node
  | identifier text => some (identifier text)
  | standard _ ownName => some (identifier ownName)
  | closure parameters number => some (closure parameters number)
  | tagged name _ => name.owner?
  | specialization template _ | unscoped template _ => template.owner?
  | member scope name => name.owner? <|> scope.owner?
  | nested name _ => name.owner?
  | inFunction _ entity => entity.owner?
  | _ => none

/-- The template arguments that a name ends in. -/
def arguments? : Node → Option (List Node)
  | specialization _ arguments | unscoped _ arguments => some arguments
  | nested name _ => name.arguments?
  | inFunction _ entity => entity.arguments?
  | _ => none

/-- The template arguments of a template parameter, or of one that a pointer or a reference leads to. -/
def targetArguments? : Node → Option (List Node)
  | pointer target | reference target _ => target.targetArguments?
  | specialization (parameter _) arguments => some arguments
  | _ => none

/-- Whether a function says by its name what it yields: a constructor, a destructor and a conversion
do. -/
def namesResult : Node → Bool
  | constructor _ | destructor _ | conversion _ => true
  | tagged name _ => name.namesResult
  | member _ name => name.namesResult
  | specialization template _ | unscoped template _ => template.namesResult
  | nested name _ => name.namesResult
  | inFunction _ entity => entity.namesResult
  | _ => false

/-- Whether a type is that of an array. -/
def isArray : Node → Bool
  | array .. => true
  | _ => false

end Node

end Mangled

end FirmwareSymbols
