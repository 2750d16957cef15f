/-!
# Symbols

A `Symbol` is one decoded record of the symbol table that a VxWorks image
carries. It says where the record lies in the image, at which addresses
the name and the thing named are loaded, and what kind of thing that is.
-/

namespace FirmwareSymbols

/-! ## Classes -/

/-- The section that a symbol belongs to. -/
inductive SymbolClass where
  /-- Not defined in the image. -/
  | undefined
  /-- An absolute value. -/
  | absolute
  /-- Code. -/
  | text
  /-- Initialised data. -/
  | data
  /-- Data that the loader clears. -/
  | bss
  /-- Any other section. -/
  | other
deriving DecidableEq, Repr

namespace SymbolClass

/-- The class of a type code, which is the code without its low bit. -/
def ofCode (code : UInt8) : SymbolClass :=
  match code.toNat / 2 with
  | 0 => undefined
  | 1 => absolute
  | 2 => text
  | 3 => data
  | 4 => bss
  | _ => other

/-- How a class is written in prose. -/
def label : SymbolClass → String
  | undefined => "undefined"
  | absolute => "absolute"
  | text => "text"
  | data => "data"
  | bss => "bss"
  | other => "other"

end SymbolClass

/-! ## Records -/

/-- One decoded record of the symbol table. -/
structure Symbol where
  /-- Where the record lies in the image. -/
  offset : Nat
  /-- Address at which the name is loaded. -/
  nameAddress : UInt32
  /-- Address of the thing named. -/
  destAddress : UInt32
  /-- Bytes from this name to the next one, for every symbol but the last. -/
  nameLength : Option UInt32
  /-- The word that ends the record, in the byte order of the image. -/
  flags : UInt32
  /-- The type code, which is the last byte but one of the record. -/
  typeCode : UInt8
deriving DecidableEq, Repr

namespace Symbol

/-- The section that the symbol belongs to. -/
def symbolClass (s : Symbol) : SymbolClass := .ofCode s.typeCode

/-- Whether the symbol is visible outside its module. -/
def isGlobal (s : Symbol) : Bool := s.typeCode.toNat % 2 == 1

/-- The flag words of functions: the same four stored bytes `00 00 05 00`, read in either order. -/
def functionFlags : List UInt32 := [0x0500, 0x050000]

/-- Whether the symbol names a function. -/
def isFunction (s : Symbol) : Bool := functionFlags.contains s.flags

end Symbol

end FirmwareSymbols
