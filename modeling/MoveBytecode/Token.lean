/-!
# Signature tokens

The types of values as signatures write them. A reference has the token it points to and a struct
has the number of its handle. Two tokens stand outside signatures: a reference to anything, which
is the type of a value read through an unknown reference, and a struct of no known handle.
-/

namespace MoveBytecode

/-- The type of a value. -/
inductive Token where
  | bool
  | integer
  | string
  | address
  | bytearray
  /-- A reference to a value of type `target`. -/
  | reference (mutable : Bool) (target : Token)
  /-- A reference to a value of unknown type. -/
  | anyReference (mutable : Bool)
  /-- The struct with handle number `handle`. -/
  | struct (handle : Int)
  /-- A struct of unknown handle. -/
  | anyStruct
  deriving DecidableEq, Repr

namespace Token

/-- The sign of a reference. -/
def referenceSign (mutable : Bool) : String :=
  if mutable then "&mut" else "&"

/-- A token as text, its struct handle by number. -/
def text : Token → String
  | .bool => "bool"
  | .integer => "integer"
  | .string => "string"
  | .address => "address"
  | .bytearray => "bytearray"
  | .reference mutable target => referenceSign mutable ++ " " ++ target.text
  | .anyReference mutable => referenceSign mutable ++ " None"
  | .struct handle => s!"struct#{handle}"
  | .anyStruct => "struct#None"

/-- Tokens in order, between commas. -/
def listText (tokens : List Token) : String :=
  String.intercalate ", " (tokens.map text)

/-- Whether a token is a reference that can be written through. -/
def isMutable : Token → Bool
  | .reference mutable _ => mutable
  | .anyReference mutable => mutable
  | _ => false

/-- The width in bits of a value: addresses have 256, all else has 64. -/
def bits : Token → Nat
  | .address => 256
  | _ => 64

/-- The struct handles that a token refers to. -/
def handles : Token → List Int
  | .struct handle => [handle]
  | .reference _ target => target.handles
  | _ => []

end Token

end MoveBytecode
