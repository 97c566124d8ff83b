/-!
# Native types

The types of the intermediate form and of routine prototypes. A reference is named after the type
it points to, with a star behind it; an alias has the width of its target.
-/

namespace MoveBytecode

/-- The kinds of native types. -/
inductive TypeCategory where
  | void
  | primitive
  | aliased
  | struct
  | reference
  deriving DecidableEq, Repr

/-- The name of a kind of native types. -/
def TypeCategory.name : TypeCategory → String
  | .void => "void"
  | .primitive => "primitive"
  | .aliased => "alias"
  | .struct => "struct"
  | .reference => "reference"

/-- A native type. -/
inductive NativeType where
  /-- The type without values. -/
  | void
  /-- A named type of values of `bits` bits. -/
  | primitive (name : String) (bits : Int) (primitiveClass : String)
  /-- Another name for `target`. -/
  | aliased (name : String) (target : NativeType)
  /-- A named struct; its width is not known. -/
  | struct (name : String)
  /-- A reference of `bits` bits to a value of type `target`. -/
  | reference (bits : Int) (target : NativeType)
  deriving DecidableEq, Repr

namespace NativeType

/-- The name of a type. -/
def name : NativeType → String
  | .void => "void"
  | .primitive name .. => name
  | .aliased name _ => name
  | .struct name => name
  | .reference _ target => target.name ++ "*"

/-- The width of a value in bits; zero where there are no values or the width is not known. -/
def bits : NativeType → Int
  | .void => 0
  | .primitive _ bits _ => bits
  | .aliased _ target => target.bits
  | .struct _ => 0
  | .reference bits _ => bits

/-- The kind of a type. -/
def category : NativeType → TypeCategory
  | .void => .void
  | .primitive .. => .primitive
  | .aliased .. => .aliased
  | .struct _ => .struct
  | .reference .. => .reference

/-- The class of a primitive type; other types have none. -/
def primitiveClass : NativeType → String
  | .primitive _ _ primitiveClass => primitiveClass
  | _ => ""

/-- The type that an alias names or a reference points to. -/
def target? : NativeType → Option NativeType
  | .aliased _ target => some target
  | .reference _ target => some target
  | _ => none

/-- The type that a reference points to. -/
def pointed? : NativeType → Option NativeType
  | .reference _ target => some target
  | _ => none

/-- The type behind all aliases. -/
def resolve : NativeType → NativeType
  | .aliased _ target => target.resolve
  | type => type

end NativeType

/-- The calling convention and the types of a routine. -/
structure Prototype where
  convention : String := "unknown"
  returns : List NativeType
  params : List NativeType
  deriving DecidableEq, Repr

/-- The types of a list between commas. -/
def NativeType.listText (types : List NativeType) : String :=
  String.intercalate ", " (types.map NativeType.name)

/-- A prototype as text: several returned types stand in brackets, and none at all is void. -/
def Prototype.text (p : Prototype) : String :=
  let returned :=
    match p.returns with
    | [] => "void"
    | [type] => type.name
    | types => "(" ++ NativeType.listText types ++ ")"
  "<" ++ p.convention ++ "> " ++ returned ++ "(" ++ NativeType.listText p.params ++ ")"

end MoveBytecode
