import MoveBytecode.Module.Basic

/-!
# Names and references

Following the numbers by which records refer to each other. Each of these looks up a pool and so
fails if a number is not in it; on the records of a loaded module none of them fails.
-/

namespace MoveBytecode.Module

/-- The text with number `index`. -/
def string (m : Module) (index : Int) : Except Fault String := do
  return (← m.strings.get index).record

/-! ## Names -/

/-- The name of a module. -/
def moduleName (m : Module) (h : ModuleHandle) : Except Fault String :=
  m.string h.name

/-- The address and the name of a module. -/
def moduleFullName (m : Module) (h : ModuleHandle) : Except Fault String := do
  let address ← m.addresses.get h.address
  let name ← m.moduleName h
  return addressText address.record ++ "." ++ name

/-- The name of a struct. -/
def structName (m : Module) (h : StructHandle) : Except Fault String :=
  m.string h.name

/-- The name of a struct and the full name of its module. -/
def structFullName (m : Module) (h : StructHandle) : Except Fault String := do
  let owner ← m.moduleHandles.get h.owner
  let name ← m.structName h
  let ownerName ← m.moduleFullName owner.record
  return name ++ "@" ++ ownerName

/-- A character of a type's name; the signs that join the parts of a full name become
underscores. -/
def hostChar (c : Char) : Char :=
  if c = '@' ∨ c = '.' then '_' else c

/-- The name of the type that stands for a struct outside the module. -/
def structHostName (m : Module) (handle : Int) : Except Fault String := do
  let h ← m.structHandles.get handle
  let name ← m.structFullName h.record
  return name.map hostChar

/-- The capital of a character, as far as a name can equal `<SELF>` in capitals: of the characters
beyond ASCII only the long s has one of its letters as its capital. -/
def capital (c : Char) : Char :=
  if c.toNat = 0x17F then 'S' else c.toUpper

/-- The name by which a module refers to itself, in letters of either case. -/
def isSelfName (name : String) : Bool :=
  name.toList.map capital == "<SELF>".toList

/-- The display name of a function: its bare name in this module, and the name of its module in
front of it otherwise. -/
def functionName (m : Module) (h : FunctionHandle) : Except Fault String := do
  let name ← m.string h.name
  let owner ← m.moduleHandles.get h.owner
  let ownerName ← m.moduleName owner.record
  if isSelfName ownerName then return name else return ownerName ++ "_" ++ name

/-- The name of a field. -/
def fieldName (m : Module) (d : FieldDef) : Except Fault String :=
  m.string d.name

/-- The name of a struct of this module. -/
def structDefName (m : Module) (d : StructDef) : Except Fault String := do
  let h ← m.structHandles.get d.handle
  m.structName h.record

/-! ## Types -/

/-- The signature of a function. -/
def signatureOf (m : Module) (h : FunctionHandle) : Except Fault FunctionSignature := do
  return (← m.functionSignatures.get h.signature).record

/-- The types of the locals of a function. -/
def localsOf (m : Module) (f : FunctionDef) : Except Fault (List Token) := do
  return (← m.localSignatures.get f.code.locals).record

/-- The type of a field. -/
def fieldType (m : Module) (d : FieldDef) : Except Fault Token := do
  return (← m.typeSignatures.get d.type).record

/-- The fields of a struct. -/
def fieldsOf (m : Module) (d : StructDef) : Except Fault (List (Entry FieldDef)) :=
  d.fieldIndices.mapM fun (i : Nat) => m.fieldDefs.get i

/-- The name and the type of each field of a struct. -/
def fieldTypes (m : Module) (d : StructDef) : Except Fault (List (String × Token)) := do
  (← m.fieldsOf d).mapM fun f => do
    return (← m.fieldName f.record, ← m.fieldType f.record)

/-! ## Functions -/

/-- The handle of a function. -/
def handleOf (m : Module) (f : FunctionDef) : Except Fault (Entry FunctionHandle) :=
  m.functionHandles.get f.handle

/-- The display name of a function with a body. -/
def nameOf (m : Module) (f : FunctionDef) : Except Fault String := do
  let h ← m.handleOf f
  m.functionName h.record

/-- The first function with a body and this display name. -/
def functionNamed? (m : Module) (name : String) : Except Fault (Option (Entry FunctionDef)) :=
  m.internalFunctions.findM? fun f => do return (← m.nameOf f.record) == name

/-- The first handle with this display name. -/
def handleNamed? (m : Module) (name : String) : Except Fault (Option (Entry FunctionHandle)) :=
  m.functionHandles.toList.findM? fun h => do return (← m.functionName h.record) == name

/-- Whether `address` is one of the addresses of a function. -/
def covers (f : Entry FunctionDef) (address : Int) : Bool :=
  f.mapping.start ≤ address && address < f.mapping.stop

/-- The first function with a body whose addresses contain `address`. -/
def functionAt? (m : Module) (address : Int) : Option (Entry FunctionDef) :=
  m.internalFunctions.find? (covers · address)

/-- The instruction that starts at `address`. -/
def instructionAt? (m : Module) (address : Int) : Option Instruction := do
  let f ← m.functionAt? address
  f.record.code.instructionAt? (address - f.mapping.start)

/-- The functions called `name`, or all functions if `name` is empty. -/
def selectFunctions (m : Module) (name : String) : Except Fault (List (Entry FunctionDef)) := do
  if name.isEmpty then return m.internalFunctions
  match ← m.functionNamed? name with
  | some f => return [f]
  | none => throw (.noFunction name)

end MoveBytecode.Module
