import MoveBytecode.Fault
import MoveBytecode.NativeType.Basic
import MoveBytecode.Text.Blank

/-!
# Type registries

A registry holds native types by name. References are never entered; a name that ends in a star and
is not itself a name of the registry stands for a reference to what the rest of it names. The names
of the Move types are entered on demand by `TypeRegistry.withMoveTypes`.
-/

namespace MoveBytecode

/-- Native types by name, and the width of a reference. -/
structure TypeRegistry where
  pointerBits : Int
  /-- The types by name; the first entry of a name counts. -/
  named : List (String × NativeType)
  deriving DecidableEq, Repr

namespace TypeRegistry

/-- The type that is entered under a name. -/
def find? (r : TypeRegistry) (name : String) : Option NativeType :=
  r.named.lookup name

/-- Whether a type is entered under a name. -/
def contains (r : TypeRegistry) (name : String) : Bool :=
  (r.find? name).isSome

/-- A registry with a type under its own name, in place of any other of that name. -/
def insert (r : TypeRegistry) (type : NativeType) : TypeRegistry :=
  { r with named := (type.name, type) :: r.named }

/-- The registry every program starts with. -/
def new (pointerBits : Int) : TypeRegistry :=
  ⟨pointerBits,
    [("void", .void), ("unsigned char", .primitive "unsigned char" 8 "unsigned")]⟩

/-- The reference to a type. -/
def referenceTo (r : TypeRegistry) (type : NativeType) : NativeType :=
  .reference r.pointerBits type

/-- The reference to no type in particular. -/
def voidReference (r : TypeRegistry) : NativeType := r.referenceTo .void

/-- Dropping leading blank characters makes a text no longer. -/
theorem length_dropBlank_le (text : List Char) :
    (Text.dropBlank text).length ≤ text.length :=
  (List.dropWhile_sublist Text.isBlank).length_le

/-- The type of the name whose characters from the last to the first are `backwards`. -/
def getBackwards (r : TypeRegistry) (backwards : List Char) : Option NativeType :=
  match r.find? (String.ofList backwards.reverse) with
  | some type => some type
  | none =>
    match backwards with
    | '*' :: rest => (r.getBackwards (Text.dropBlank rest)).map r.referenceTo
    | _ => none
termination_by backwards.length
decreasing_by
  have := length_dropBlank_le rest
  simp only [List.length_cons]
  omega

/-- The type of a name: the one entered under it, else a reference if the name ends in a star. -/
def get? (r : TypeRegistry) (name : String) : Option NativeType :=
  r.getBackwards name.toList.reverse

/-- Enters a primitive type, unless there is a type of its name; returns the type of the name. -/
def primitive (r : TypeRegistry) (name : String) (bits : Int) (primitiveClass : String) :
    NativeType × TypeRegistry :=
  match r.find? name with
  | some type => (type, r)
  | none =>
    let type := NativeType.primitive name bits primitiveClass
    (type, r.insert type)

/-- Enters another name for the type called `existing`. -/
def addAlias (r : TypeRegistry) (name existing : String) :
    Except Fault (NativeType × TypeRegistry) :=
  match r.get? existing with
  | none => .error (.aliasOfUnknown existing)
  | some target =>
    let type := NativeType.aliased name target
    .ok (type, r.insert type)

/-- Enters a struct type. -/
def addStruct (r : TypeRegistry) (name : String) : NativeType × TypeRegistry :=
  let type := NativeType.struct name
  (type, r.insert type)

/-- The type of a name, which becomes a struct if there is none. -/
def namedStructure (r : TypeRegistry) (name : String) : NativeType × TypeRegistry :=
  match r.find? name with
  | some type => (type, r)
  | none => r.addStruct name

/-- Enters another name for a type, if there is such a type. -/
def aliasIfKnown (r : TypeRegistry) (name existing : String) : TypeRegistry :=
  match r.get? existing with
  | none => r
  | some target => r.insert (.aliased name target)

/-- The registry with the Move types; one that has an `address` type is left as it is. -/
def withMoveTypes (r : TypeRegistry) : TypeRegistry :=
  if r.contains "address" then r
  else
    let r := (r.primitive "bool" 64 "boolean").2
    let r := (r.primitive "u64" 64 "unsigned").2
    let r := (r.primitive "address" 256 "unsigned").2
    ((r.aliasIfKnown "byte" "unsigned char").aliasIfKnown "bytearray" "byte*").aliasIfKnown
      "string" "byte*"

end TypeRegistry

end MoveBytecode
