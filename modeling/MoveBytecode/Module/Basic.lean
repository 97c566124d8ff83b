import MoveBytecode.Header
import MoveBytecode.Pool
import MoveBytecode.Record

/-!
# Modules

A decoded binary: its directory, one pool for each kind of record, the `main` function of a script,
and how the loader mapped it. `Module.start` is the module before any table has been read.
-/

namespace MoveBytecode

/-- A directory entry: a table and the bytes of the file that it occupies. -/
structure Section where
  kind : TableKind
  offset : Nat
  size : Nat
  deriving DecidableEq, Repr

/-- What a binary is. -/
inductive BinaryKind where
  | library
  | script
  deriving DecidableEq, Repr

/-- The name of a kind of binary. -/
def BinaryKind.name : BinaryKind → String
  | .library => "module"
  | .script => "script"

/-- What the loader states about the image it lays out. -/
structure ImageInfo where
  version : String := "1.0"
  wordSize : Int
  endianness : String := "little"
  imageBase : Int := 0
  imageSize : Int := 0x80000000
  entryPoint : Int
  library : Bool := true
  deriving DecidableEq, Repr

/-- A decoded binary. -/
structure Module where
  data : Bytes
  magic : Magic
  kind : BinaryKind
  sections : List Section
  moduleHandles : Pool ModuleHandle
  structHandles : Pool StructHandle
  functionHandles : Pool FunctionHandle
  addresses : Pool Bytes
  bytearrays : Pool Bytes
  strings : Pool String
  typeSignatures : Pool Token
  functionSignatures : Pool FunctionSignature
  localSignatures : Pool (List Token)
  structDefs : Pool StructDef
  fieldDefs : Pool FieldDef
  functionDefs : Pool FunctionDef
  /-- The function of a script. -/
  main : Option (Entry FunctionDef)
  info : Option ImageInfo
  deriving DecidableEq

namespace Module

/-- The module of a binary before any of its tables has been read. -/
def start (data : Bytes) (magic : Magic) (sections : List Section) : Module where
  data := data
  magic := magic
  kind := .library
  sections := sections
  moduleHandles := .empty "Module Handles"
  structHandles := .empty "Struct Handles"
  functionHandles := .empty "Function Handles"
  addresses := .empty "Addresses"
  bytearrays := .empty "Bytearrays"
  strings := .empty "Strings"
  typeSignatures := .empty "Type Signatures"
  functionSignatures := .empty "Function Signatures"
  localSignatures := .empty "Local Signatures"
  structDefs := .empty "Struct Definitions"
  fieldDefs := .empty "Field Definitions"
  functionDefs := .empty "Function Definitions"
  main := none
  info := none

/-- Whether a module is a script. -/
def isScript (m : Module) : Bool := m.kind == .script

/-- Whether a module defines structs, fields or functions of its own. -/
def hasDefinitions (m : Module) : Bool :=
  m.functionDefs.size != 0 || m.structDefs.size != 0 || m.fieldDefs.size != 0

/-- The functions with bodies: the function of a script, else the function definitions. -/
def internalFunctions (m : Module) : List (Entry FunctionDef) :=
  match m.main with
  | some main => [main]
  | none => m.functionDefs.toList

/-- The handles that no function with a body has, in the order of the pool. -/
def externalHandles (m : Module) : List (Entry FunctionHandle) :=
  let internal := m.internalFunctions.map (·.record.handle)
  m.functionHandles.toList.filter fun h => !internal.contains h.index

end Module

/-- What the data segment holds. -/
inductive Datum where
  | address (value : Bytes)
  | bytearray (value : Bytes)
  | text (value : String)
  deriving DecidableEq, Repr

namespace Datum

/-- The bytes of a datum in the data segment; a text ends with a zero byte there. -/
def bytes : Datum → Bytes
  | .address value | .bytearray value => value
  | .text value => (Bytes.ofText value).push 0

/-- A datum as text. -/
def print : Datum → String
  | .address value => addressText value
  | .bytearray value => bytearrayText value
  | .text value => value

/-- A datum as a number, its first byte the highest. -/
def number (d : Datum) : Nat := Bytes.bigEndian d.bytes.toList

/-- The type of the elements of a datum. -/
def elementType : Datum → String
  | .text _ => "char"
  | _ => "byte"

end Datum

/-- An entry with another record in its place. -/
def Entry.map {α β : Type} (f : α → β) (e : Entry α) : Entry β :=
  ⟨e.index, e.file, e.mapping, f e.record⟩

/-- The constants of a module in the order of the data segment: addresses, byte arrays, texts. -/
def Module.dataEntries (m : Module) : List (Entry Datum) :=
  m.addresses.toList.map (·.map .address) ++
    (m.bytearrays.toList.map (·.map .bytearray) ++ m.strings.toList.map (·.map .text))

end MoveBytecode
