import MoveBytecode.Instruction
import MoveBytecode.Text.Hex
import MoveBytecode.Token

/-!
# Records

What the tables of a binary hold. Records refer to each other by their numbers within a table and
never directly; the look-ups of a module follow those numbers.
-/

namespace MoveBytecode

/-- A module, by the address it is published at and its name. -/
structure ModuleHandle where
  address : Nat
  name : Nat
  deriving DecidableEq, Repr

/-- A struct type, by its module and its name. -/
structure StructHandle where
  owner : Nat
  name : Nat
  isResource : Bool
  deriving DecidableEq, Repr

/-- A function, by its module, its name and its signature. -/
structure FunctionHandle where
  owner : Nat
  name : Nat
  signature : Nat
  deriving DecidableEq, Repr

/-- The types that a function returns and takes. -/
structure FunctionSignature where
  returns : List Token
  params : List Token
  deriving DecidableEq, Repr

namespace FunctionSignature

/-- A signature as text, struct handles by number. -/
def text (s : FunctionSignature) : String :=
  "(" ++ Token.listText s.params ++ ") -> (" ++ Token.listText s.returns ++ ")"

end FunctionSignature

/-- The types of a function's locals as text, struct handles by number. -/
def localsText (tokens : List Token) : String :=
  "[" ++ Token.listText tokens ++ "]"

/-- A struct type of this module: its handle and a run of field definitions. -/
structure StructDef where
  handle : Nat
  fieldCount : Nat
  firstField : Nat
  deriving DecidableEq, Repr

/-- The numbers of the field definitions of a struct. -/
def StructDef.fieldIndices (d : StructDef) : List Nat :=
  (List.range d.fieldCount).map (d.firstField + ·)

/-- A field: the struct it belongs to, its name and its type. -/
structure FieldDef where
  owner : Nat
  name : Nat
  type : Nat
  deriving DecidableEq, Repr

/-- A function body. -/
structure CodeUnit where
  /-- The stack depth that the function declares. -/
  maxStack : Nat
  /-- The number of the signature of the locals, the parameters first. -/
  locals : Nat
  instructions : List Instruction
  /-- Where the body starts in the file. -/
  start : Nat
  deriving DecidableEq, Repr

namespace CodeUnit

/-- How many bytes a body has. -/
def size (c : CodeUnit) : Nat := Instruction.totalSize c.instructions

/-- Where a body ends in the file. -/
def stop (c : CodeUnit) : Nat := c.start + c.size

/-- The instruction that starts `offset` bytes into the body. -/
def instructionAt? (c : CodeUnit) (offset : Int) : Option Instruction :=
  c.instructions.find? (fun i => (i.offset : Int) == offset)

/-- How many of `size` items stand in front of a position; a position below zero counts from the
end. -/
def itemsBefore (size : Nat) (position : Int) : Nat :=
  min size (if position < 0 then position + size else position).toNat

/-- The instructions from number `first` on, up to but without number `last` if that is given. -/
def between (c : CodeUnit) (first : Int) (last : Option Int) : List Instruction :=
  let size := c.instructions.length
  (c.instructions.take ((last.map (itemsBefore size)).getD size)).drop (itemsBefore size first)

/-- The bytes of a body. -/
def bytes (c : CodeUnit) : Bytes :=
  c.instructions.foldl (fun bytes i => bytes ++ i.raw) #[]

end CodeUnit

/-- A function of this module: its handle, its flags and its body. -/
structure FunctionDef where
  handle : Nat
  flags : Nat
  code : CodeUnit
  deriving DecidableEq, Repr

/-! ## Function flags -/

/-- The lowest flag marks a function that others may call. -/
def flagsPublic (flags : Int) : Bool := flags % 2 == 1

/-- The second flag marks a function without a body of its own. -/
def flagsNative (flags : Int) : Bool := flags / 2 % 2 == 1

/-- Flags as words, those without a name as one number in brackets. -/
def flagsText (flags : Int) : String :=
  let rest := flags - flags % 4
  String.intercalate " "
    ((if flagsPublic flags then ["public"] else []) ++
      (if flagsNative flags then ["native"] else []) ++
      (if rest = 0 then [] else ["(0x" ++ Text.hex rest ++ ")"]))

/-! ## Texts of constants -/

/-- An address as text. -/
def addressText (value : Bytes) : String := "0x" ++ Text.hexBytes value

/-- A byte array as text. -/
def bytearrayText (value : Bytes) : String := Text.hexBytes value

end MoveBytecode
