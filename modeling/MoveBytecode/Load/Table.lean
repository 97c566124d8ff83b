import MoveBytecode.Body
import MoveBytecode.Signature.Codec

/-!
# Tables

A table is a run of records up to the end of its section. Each kind of table has its records and a
pool that they are added to; a table of functions needs the other pools to be complete. The table of
a script's `main` holds one function.
-/

namespace MoveBytecode

namespace Table

/-- How many bytes an address has. -/
def addressLength : Nat := 32

/-- How many bytes a text or a byte array may have. -/
def maxEntryLength : Int := 0xFFFF

/-! ## Records -/

/-- Reads records into a pool until no byte is left. As every record has at least one byte, `fuel`
is enough if it is the number of bytes. -/
def fill {α : Type} (read : Reader α) : (fuel : Nat) → Pool α → Reader (Pool α)
  | 0, pool => return pool
  | fuel + 1, pool => do
    if ← Reader.atEnd then return pool
    let start ← Reader.position
    let record ← read
    let stop ← Reader.position
    fill read fuel (pool.add ⟨start, (stop - start : Nat)⟩ record)

/-- The pool with the records of a table. -/
def readInto {α : Type} (c : Cursor) (read : Reader α) (pool : Pool α) : Except Fault (Pool α) :=
  ((fill read c.available pool).runAt c).1

/-- Reads a module handle. -/
def readModuleHandle : Reader ModuleHandle := do
  let address ← Reader.varu16
  let name ← Reader.varu16
  return { address, name }

/-- Reads a struct handle. -/
def readStructHandle : Reader StructHandle := do
  let owner ← Reader.varu16
  let name ← Reader.varu16
  let resource ← Reader.u8
  return { owner, name, isResource := resource != 0 }

/-- Reads a function handle. -/
def readFunctionHandle : Reader FunctionHandle := do
  let owner ← Reader.varu16
  let name ← Reader.varu16
  let signature ← Reader.varu16
  return { owner, name, signature }

/-- Reads a struct definition. -/
def readStructDef : Reader StructDef := do
  let handle ← Reader.varu16
  let fieldCount ← Reader.varu16
  let firstField ← Reader.varu16
  return { handle, fieldCount, firstField }

/-- Reads a field definition. -/
def readFieldDef : Reader FieldDef := do
  let owner ← Reader.varu16
  let name ← Reader.varu16
  let type ← Reader.varu16
  return { owner, name, type }

/-- Reads an address. -/
def readAddress : Reader Bytes := Reader.bytes addressLength

/-- Reads the length of a text or of a byte array. -/
def readLength : Reader Int := do
  let length ← Reader.vari32
  if length < 0 ∨ maxEntryLength < length then
    throw (.entryLength length (← Reader.position))
  return length

/-- Reads a byte array. -/
def readBytearray : Reader Bytes := do
  Reader.bytes (← readLength)

/-- Reads a text. -/
def readString : Reader String := do
  let raw ← Reader.bytes (← readLength)
  match Text.Utf8.decode raw with
  | .ok text => return text
  | .error defect => throw (.stringNotUtf8 ((← Reader.position) - raw.size) defect)

/-! ## Functions -/

/-- What stands in front of a function's body: its handle, flags, declared stack depth and locals,
and the number of its instructions. -/
structure FunctionHeader where
  handle : Nat
  flags : Nat
  maxStack : Nat
  locals : Nat
  count : Nat
  deriving DecidableEq, Repr

/-- Reads what stands in front of a body; the handle and the locals have to exist. -/
def readFunctionHeader (m : Module) : Reader FunctionHeader := do
  let handle ← Reader.varu16
  let flags ← Reader.u8
  let maxStack ← Reader.varu16
  let locals ← Reader.varu16
  let count ← Reader.u16
  if !m.functionHandles.containsIndex handle then throw (.functionHandleUnknown handle)
  if !m.localSignatures.containsIndex locals then throw (.localsUnknown locals)
  return { handle, flags := flags.toNat, maxStack, locals, count }

/-- Reads a function. -/
def readFunction (m : Module) : Reader FunctionDef := do
  let header ← readFunctionHeader m
  let start ← Reader.position
  let frame ← Reader.ofExcept (Body.frame m header.handle header.locals)
  let instructions ← Body.read frame header.count
  return ⟨header.handle, header.flags, ⟨header.maxStack, header.locals, instructions, start⟩⟩

/-- Reads the function of a script. -/
def readMain (m : Module) : Reader (Entry FunctionDef) := do
  let start ← Reader.position
  let record ← readFunction m
  let stop ← Reader.position
  return ⟨0, ⟨start, (stop - start : Nat)⟩, .unplaced, record⟩

/-! ## Tables -/

/-- The cursor on the bytes of a table. -/
def cursor (m : Module) (s : Section) : Except Fault Cursor :=
  Cursor.make m.data s.offset (some (s.offset + s.size))

/-- The module with the records of one more table. -/
def decode (m : Module) (s : Section) : Except Fault Module := do
  let c ← cursor m s
  match s.kind with
  | .moduleHandles =>
    return { m with moduleHandles := ← readInto c readModuleHandle m.moduleHandles }
  | .structHandles =>
    return { m with structHandles := ← readInto c readStructHandle m.structHandles }
  | .functionHandles =>
    return { m with functionHandles := ← readInto c readFunctionHandle m.functionHandles }
  | .addressPool =>
    if c.available % addressLength ≠ 0 then throw (.addressPoolSize c.available)
    return { m with addresses := ← readInto c readAddress m.addresses }
  | .stringPool => return { m with strings := ← readInto c readString m.strings }
  | .bytearrayPool => return { m with bytearrays := ← readInto c readBytearray m.bytearrays }
  | .structDefs => return { m with structDefs := ← readInto c readStructDef m.structDefs }
  | .fieldDefs => return { m with fieldDefs := ← readInto c readFieldDef m.fieldDefs }
  | .typeSignatures =>
    return { m with typeSignatures := ← readInto c Signature.readType m.typeSignatures }
  | .functionSignatures =>
    return { m with
      functionSignatures := ← readInto c Signature.readFunction m.functionSignatures }
  | .localSignatures =>
    return { m with localSignatures := ← readInto c Signature.readLocals m.localSignatures }
  | .functionDefs =>
    return { m with functionDefs := ← readInto c (readFunction m) m.functionDefs }
  | .main =>
    if m.main.isSome then throw .duplicateMain
    return { m with main := some (← ((readMain m).runAt c).1) }

end Table

end MoveBytecode
