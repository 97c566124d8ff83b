/-!
# Instructions of the machine

The opcodes of file format 1.0. Each has a byte, a mnemonic, the numbers of values that it takes
from the operand stack and puts onto it, and the kind of the one operand that follows the byte in
the code, if any. `Opcode.shape` is the whole table; the other attributes are read off it.
-/

namespace MoveBytecode

/-- What an operand means. -/
inductive OperandKind where
  /-- No operand follows the opcode. -/
  | none
  /-- The number of an instruction of the same body. -/
  | branch
  /-- An unsigned 64-bit number. -/
  | immediate
  /-- The number of a local variable. -/
  | localVar
  /-- An index into the address pool. -/
  | address
  /-- An index into the byte-array pool. -/
  | bytearray
  /-- An index into the string pool. -/
  | string
  /-- An index into the function handles. -/
  | functionHandle
  /-- An index into the field definitions. -/
  | fieldDef
  /-- An index into the struct definitions. -/
  | structDef
  deriving DecidableEq, Repr

/-- The name under which an operand kind is listed. -/
def OperandKind.name : OperandKind → String
  | .none => "None"
  | .branch => "Branch"
  | .immediate => "ImmU64"
  | .localVar => "IdxLocal"
  | .address => "IdxAddress"
  | .bytearray => "IdxByteArray"
  | .string => "IdxString"
  | .functionHandle => "IdxFuncHandle"
  | .fieldDef => "IdxFieldDef"
  | .structDef => "IdxStructDef"

/-- How many values an opcode takes from or puts onto the stack. -/
inductive Arity where
  /-- Always this many. -/
  | fixed (count : Nat)
  /-- As many as the operand or the enclosing function say. -/
  | varies
  deriving DecidableEq, Repr

/-- The count of an arity where the opcode alone gives it. -/
def Arity.count? : Arity → Option Nat
  | .fixed count => some count
  | .varies => none

/-- The opcodes. -/
inductive Opcode where
  | pop
  | ret
  | brTrue
  | brFalse
  | branch
  | ldConst
  | ldAddr
  | ldStr
  | ldTrue
  | ldFalse
  | copyLoc
  | moveLoc
  | stLoc
  | ldRefLoc
  | ldRefField
  | ldBytearray
  | call
  | pack
  | unpack
  | readRef
  | writeRef
  | add
  | sub
  | mul
  | mod
  | div
  | bitOr
  | bitAnd
  | xor
  | or
  | and
  | not
  | eq
  | neq
  | lt
  | gt
  | le
  | ge
  | assert
  | getTxnGasUnitPrice
  | getTxnMaxGasUnits
  | getGasRemaining
  | getTxnSender
  | exists
  | borrowRef
  | releaseRef
  | moveFrom
  | moveTo
  | createAccount
  | emitEvent
  | getTxnSequenceNumber
  | getTxnPublicKey
  | freezeRef
  deriving DecidableEq, Repr, Hashable

namespace Opcode

/-- The attributes of an opcode: its byte, its mnemonic, the name it has as an operation of the
intermediate form, what it takes from the stack, what it puts there, and its operand. -/
structure Shape where
  code : UInt8
  mnemonic : String
  operation : String
  pops : Arity
  pushes : Arity
  operand : OperandKind

/-- The table of the opcodes. -/
def shape : Opcode → Shape
  | .pop => ⟨0x01, "POP", "Pop", .fixed 1, .fixed 0, .none⟩
  | .ret => ⟨0x02, "RET", "Ret", .varies, .fixed 0, .none⟩
  | .brTrue => ⟨0x03, "BR_TRUE", "BrTrue", .fixed 1, .fixed 0, .branch⟩
  | .brFalse => ⟨0x04, "BR_FALSE", "BrFalse", .fixed 1, .fixed 0, .branch⟩
  | .branch => ⟨0x05, "BRANCH", "Branch", .fixed 0, .fixed 0, .branch⟩
  | .ldConst => ⟨0x06, "LD_CONST", "LdConst", .fixed 0, .fixed 1, .immediate⟩
  | .ldAddr => ⟨0x07, "LD_ADDR", "LdAddr", .fixed 0, .fixed 1, .address⟩
  | .ldStr => ⟨0x08, "LD_STR", "LdStr", .fixed 0, .fixed 1, .string⟩
  | .ldTrue => ⟨0x09, "LD_TRUE", "LdTrue", .fixed 0, .fixed 1, .none⟩
  | .ldFalse => ⟨0x0A, "LD_FALSE", "LdFalse", .fixed 0, .fixed 1, .none⟩
  | .copyLoc => ⟨0x0B, "COPY_LOC", "CopyLoc", .fixed 0, .fixed 1, .localVar⟩
  | .moveLoc => ⟨0x0C, "MOVE_LOC", "MoveLoc", .fixed 0, .fixed 1, .localVar⟩
  | .stLoc => ⟨0x0D, "ST_LOC", "StLoc", .fixed 1, .fixed 0, .localVar⟩
  | .ldRefLoc => ⟨0x0E, "LD_REF_LOC", "BorrowLoc", .fixed 0, .fixed 1, .localVar⟩
  | .ldRefField => ⟨0x0F, "LD_REF_FIELD", "BorrowField", .fixed 1, .fixed 1, .fieldDef⟩
  | .ldBytearray => ⟨0x10, "LD_BYTEARRAY", "LdBytearray", .fixed 0, .fixed 1, .bytearray⟩
  | .call => ⟨0x11, "CALL", "Call", .varies, .varies, .functionHandle⟩
  | .pack => ⟨0x12, "PACK", "Pack", .varies, .fixed 1, .structDef⟩
  | .unpack => ⟨0x13, "UNPACK", "Unpack", .fixed 1, .varies, .structDef⟩
  | .readRef => ⟨0x14, "READ_REF", "ReadRef", .fixed 1, .fixed 1, .none⟩
  | .writeRef => ⟨0x15, "WRITE_REF", "WriteRef", .fixed 2, .fixed 0, .none⟩
  | .add => ⟨0x16, "ADD", "Add", .fixed 2, .fixed 1, .none⟩
  | .sub => ⟨0x17, "SUB", "Sub", .fixed 2, .fixed 1, .none⟩
  | .mul => ⟨0x18, "MUL", "Mul", .fixed 2, .fixed 1, .none⟩
  | .mod => ⟨0x19, "MOD", "Mod", .fixed 2, .fixed 1, .none⟩
  | .div => ⟨0x1A, "DIV", "Div", .fixed 2, .fixed 1, .none⟩
  | .bitOr => ⟨0x1B, "BIT_OR", "BitOr", .fixed 2, .fixed 1, .none⟩
  | .bitAnd => ⟨0x1C, "BIT_AND", "BitAnd", .fixed 2, .fixed 1, .none⟩
  | .xor => ⟨0x1D, "XOR", "Xor", .fixed 2, .fixed 1, .none⟩
  | .or => ⟨0x1E, "OR", "Or", .fixed 2, .fixed 1, .none⟩
  | .and => ⟨0x1F, "AND", "And", .fixed 2, .fixed 1, .none⟩
  | .not => ⟨0x20, "NOT", "Not", .fixed 1, .fixed 1, .none⟩
  | .eq => ⟨0x21, "EQ", "Eq", .fixed 2, .fixed 1, .none⟩
  | .neq => ⟨0x22, "NEQ", "Neq", .fixed 2, .fixed 1, .none⟩
  | .lt => ⟨0x23, "LT", "Lt", .fixed 2, .fixed 1, .none⟩
  | .gt => ⟨0x24, "GT", "Gt", .fixed 2, .fixed 1, .none⟩
  | .le => ⟨0x25, "LE", "Le", .fixed 2, .fixed 1, .none⟩
  | .ge => ⟨0x26, "GE", "Ge", .fixed 2, .fixed 1, .none⟩
  | .assert => ⟨0x27, "ASSERT", "Assert", .fixed 2, .fixed 0, .none⟩
  | .getTxnGasUnitPrice =>
    ⟨0x28, "GET_TXN_GAS_UNIT_PRICE", "GetTxnGasUnitPrice", .fixed 0, .fixed 1, .none⟩
  | .getTxnMaxGasUnits =>
    ⟨0x29, "GET_TXN_MAX_GAS_UNITS", "GetTxnMaxGasUnits", .fixed 0, .fixed 1, .none⟩
  | .getGasRemaining => ⟨0x2A, "GET_GAS_REMAINING", "GetGasRemaining", .fixed 0, .fixed 1, .none⟩
  | .getTxnSender => ⟨0x2B, "GET_TXN_SENDER", "GetTxnSender", .fixed 0, .fixed 1, .none⟩
  | .exists => ⟨0x2C, "EXISTS", "Exists", .fixed 1, .fixed 1, .structDef⟩
  | .borrowRef => ⟨0x2D, "BORROW_REF", "BorrowGlobal", .fixed 1, .fixed 1, .structDef⟩
  | .releaseRef => ⟨0x2E, "RELEASE_REF", "ReleaseRef", .fixed 1, .fixed 0, .none⟩
  | .moveFrom => ⟨0x2F, "MOVE_FROM", "MoveFrom", .fixed 1, .fixed 1, .structDef⟩
  | .moveTo => ⟨0x30, "MOVE_TO", "MoveToSender", .fixed 1, .fixed 0, .structDef⟩
  | .createAccount => ⟨0x31, "CREATE_ACCOUNT", "CreateAccount", .fixed 1, .fixed 0, .none⟩
  | .emitEvent => ⟨0x32, "EMIT_EVENT", "EmitEvent", .fixed 3, .fixed 0, .none⟩
  | .getTxnSequenceNumber =>
    ⟨0x33, "GET_TXN_SEQUENCE_NUMBER", "GetTxnSequenceNumber", .fixed 0, .fixed 1, .none⟩
  | .getTxnPublicKey => ⟨0x34, "GET_TXN_PUBLIC_KEY", "GetTxnPublicKey", .fixed 0, .fixed 1, .none⟩
  | .freezeRef => ⟨0x35, "FREEZE_REF", "FreezeRef", .fixed 1, .fixed 1, .none⟩

/-- Every opcode, in the order of their bytes. -/
def all : List Opcode :=
  [.pop, .ret, .brTrue, .brFalse, .branch, .ldConst, .ldAddr, .ldStr, .ldTrue, .ldFalse, .copyLoc,
   .moveLoc, .stLoc, .ldRefLoc, .ldRefField, .ldBytearray, .call, .pack, .unpack, .readRef,
   .writeRef, .add, .sub, .mul, .mod, .div, .bitOr, .bitAnd, .xor, .or, .and, .not, .eq, .neq, .lt,
   .gt, .le, .ge, .assert, .getTxnGasUnitPrice, .getTxnMaxGasUnits, .getGasRemaining, .getTxnSender,
   .exists, .borrowRef, .releaseRef, .moveFrom, .moveTo, .createAccount, .emitEvent,
   .getTxnSequenceNumber, .getTxnPublicKey, .freezeRef]

/-- The byte of an opcode. -/
def code (op : Opcode) : UInt8 := op.shape.code

/-- The mnemonic of an opcode. -/
def mnemonic (op : Opcode) : String := op.shape.mnemonic

/-- The name of an opcode as an operation of the intermediate form. -/
def operation (op : Opcode) : String := op.shape.operation

/-- What an opcode takes from the stack. -/
def pops (op : Opcode) : Arity := op.shape.pops

/-- What an opcode puts onto the stack. -/
def pushes (op : Opcode) : Arity := op.shape.pushes

/-- The kind of an opcode's operand. -/
def operandKind (op : Opcode) : OperandKind := op.shape.operand

/-- The opcode of a byte. -/
def ofCode? (code : UInt8) : Option Opcode :=
  all.find? (·.code == code)

/-- The code of an opcode is read as this opcode. -/
theorem ofCode?_code (op : Opcode) : ofCode? op.code = some op := by
  cases op <;> rfl

/-- The opcode whose byte has the value `n`. -/
def ofNumber? (n : Int) : Option Opcode :=
  all.find? fun op => (op.code.toNat : Int) == n

/-- The opcode of a mnemonic. -/
def ofMnemonic? (mnemonic : String) : Option Opcode :=
  all.find? (·.mnemonic == mnemonic)

/-- Opcodes that jump on a condition. -/
def isConditionalBranch : Opcode → Bool
  | .brTrue | .brFalse => true
  | _ => false

/-- Opcodes whose operand is the instruction to jump to. -/
def isBranch : Opcode → Bool
  | .branch | .brTrue | .brFalse => true
  | _ => false

/-- Opcodes of arithmetic and of the bitwise operations. -/
def isBinaryOperation : Opcode → Bool
  | .add | .sub | .mul | .mod | .div | .bitOr | .bitAnd | .xor => true
  | _ => false

/-- Opcodes of the truth values and of comparison. -/
def isLogicalOperation : Opcode → Bool
  | .not | .or | .and | .eq | .neq | .lt | .gt | .le | .ge => true
  | _ => false

end Opcode

end MoveBytecode
