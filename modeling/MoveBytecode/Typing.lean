import MoveBytecode.Module.Names
import MoveBytecode.NativeType.Registry

/-!
# Native types of tokens

The type of a value of the intermediate form, by its token. Integers, truth values, addresses,
texts and byte arrays have types of the registry; a struct is handled by reference to a named
structure, which is entered when it is first met.
-/

namespace MoveBytecode

/-- A computation that may enter types into a registry. -/
abbrev TypeM := ExceptT Fault (StateM TypeRegistry)

namespace Typing

/-- The type of a name that the Move types include. -/
def moveType (name : String) : TypeM NativeType := do
  match (← get).get? name with
  | some type => return type
  | none => throw (.moveTypeUndefined name)

/-- The named structure of the struct with this handle. -/
def structureOf (m : Module) (handle : Int) : TypeM NativeType := do
  match m.structHostName handle with
  | .error fault => throw fault
  | .ok name =>
    let (type, registry) := (← get).namedStructure name
    set registry
    return type

/-- The native type of a token. -/
def typeOf (m : Module) : Token → TypeM NativeType
  | .bool => moveType "bool"
  | .integer => moveType "u64"
  | .string => moveType "string"
  | .address => moveType "address"
  | .bytearray => moveType "bytearray"
  | .struct handle => do
    let target ← structureOf m handle
    return (← get).referenceTo target
  | .anyStruct => throw .handleNotGiven
  | .reference _ target => do
    let type ← typeOf m target
    return (← get).referenceTo type
  | .anyReference _ => return (← get).voidReference

/-- The native types of tokens, in order. -/
def typesOf (m : Module) (tokens : List Token) : TypeM (List NativeType) :=
  tokens.mapM (typeOf m)

/-- The prototype of a signature; the parameters are typed first. -/
def prototypeOf (m : Module) (s : FunctionSignature) : TypeM Prototype := do
  let params ← typesOf m s.params
  let returns ← typesOf m s.returns
  return { returns, params }

end Typing

end MoveBytecode
