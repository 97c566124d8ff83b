/-!
# Kinds of signatures

A signature starts with a byte that says whether it is the type of a field, of a function or of a
function's locals.
-/

namespace MoveBytecode

/-- The kinds of signatures. -/
inductive SignatureKind where
  | type
  | function
  | locals
  deriving DecidableEq, Repr

namespace SignatureKind

/-- The byte of a kind. -/
def code : SignatureKind → UInt8
  | .type => 0x01
  | .function => 0x02
  | .locals => 0x03

/-- The name of a kind in messages. -/
def name : SignatureKind → String
  | .type => "type"
  | .function => "function"
  | .locals => "local"

end SignatureKind

end MoveBytecode
