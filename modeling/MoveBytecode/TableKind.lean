/-!
# The tables of a binary

A binary is a directory of tables. The kind of a table is a byte of its directory entry; some kinds
belong to modules or scripts only, and two of them hold code and are therefore read after all
others.
-/

namespace MoveBytecode

/-- Which binaries a table occurs in. -/
inductive TableUsage where
  | common
  | module
  | script
  deriving DecidableEq, Repr

/-- The name of a usage. -/
def TableUsage.name : TableUsage → String
  | .common => "COMMON"
  | .module => "MODULE"
  | .script => "SCRIPT"

/-- The kinds of tables. -/
inductive TableKind where
  | moduleHandles
  | structHandles
  | functionHandles
  | addressPool
  | stringPool
  | bytearrayPool
  | main
  | structDefs
  | fieldDefs
  | functionDefs
  | typeSignatures
  | functionSignatures
  | localSignatures
  deriving DecidableEq, Repr, Hashable

namespace TableKind

/-- Every kind, in the order of their bytes. -/
def all : List TableKind :=
  [.moduleHandles, .structHandles, .functionHandles, .addressPool, .stringPool, .bytearrayPool,
    .main, .structDefs, .fieldDefs, .functionDefs, .typeSignatures, .functionSignatures,
    .localSignatures]

/-- The byte of a kind. -/
def code : TableKind → UInt8
  | .moduleHandles => 0x1
  | .structHandles => 0x2
  | .functionHandles => 0x3
  | .addressPool => 0x4
  | .stringPool => 0x5
  | .bytearrayPool => 0x6
  | .main => 0x7
  | .structDefs => 0x8
  | .fieldDefs => 0x9
  | .functionDefs => 0xA
  | .typeSignatures => 0xB
  | .functionSignatures => 0xC
  | .localSignatures => 0xD

/-- The name of a kind in messages. -/
def name : TableKind → String
  | .moduleHandles => "MODULE_HANDLES"
  | .structHandles => "STRUCT_HANDLES"
  | .functionHandles => "FUNCTION_HANDLES"
  | .addressPool => "ADDRESS_POOL"
  | .stringPool => "STRING_POOL"
  | .bytearrayPool => "BYTE_ARRAY_POOL"
  | .main => "MAIN"
  | .structDefs => "STRUCT_DEFS"
  | .fieldDefs => "FIELD_DEFS"
  | .functionDefs => "FUNCTION_DEFS"
  | .typeSignatures => "TYPE_SIGNATURES"
  | .functionSignatures => "FUNCTION_SIGNATURES"
  | .localSignatures => "LOCALS_SIGNATURES"

/-- The kind of a byte. -/
def ofCode? (code : UInt8) : Option TableKind :=
  all.find? (·.code == code)

/-- The code of a kind of tables is read as this kind. -/
theorem ofCode?_code (kind : TableKind) : ofCode? kind.code = some kind := by
  cases kind <;> rfl

/-- The kind whose byte has the value `n`. -/
def ofNumber? (n : Int) : Option TableKind :=
  all.find? fun kind => (kind.code.toNat : Int) == n

/-- Which binaries a kind of table occurs in. -/
def usage : TableKind → TableUsage
  | .main => .script
  | .structDefs | .fieldDefs | .functionDefs => .module
  | _ => .common

/-- The kinds whose records hold function bodies. -/
def holdsCode : TableKind → Bool
  | .main | .functionDefs => true
  | _ => false

end TableKind

end MoveBytecode
