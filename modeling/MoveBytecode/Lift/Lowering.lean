import MoveBytecode.Flow.Basic
import MoveBytecode.Body
import MoveBytecode.Lift.State

/-!
# Lowering instructions

What each instruction becomes. Loads, stores and arithmetic are assignments, branches assign the
program counter, and operations on references, structs and the ledger stay as they are, with the
variables that they read and write.
-/

namespace MoveBytecode.Lift

/-! ## Tables -/

/-- The operation of an arithmetic or comparing opcode. -/
def operatorOf? : Opcode → Option Operator
  | .add => some .add
  | .sub => some .sub
  | .mul => some .mul
  | .mod => some .rem
  | .div => some .div
  | .bitOr => some .or
  | .bitAnd => some .and
  | .xor => some .xor
  | .or => some .logicalOr
  | .and => some .logicalAnd
  | .eq => some .equal
  | .neq => some .notEqual
  | .lt => some .less
  | .gt => some .greater
  | .le => some .lessEqual
  | .ge => some .greaterEqual
  | _ => none

/-- The type of the value that an opcode asks the ledger for. -/
def ledgerType? : Opcode → Option Token
  | .exists => some .bool
  | .getTxnSequenceNumber | .getGasRemaining | .getTxnGasUnitPrice | .getTxnMaxGasUnits =>
    some .integer
  | .getTxnSender => some .address
  | .getTxnPublicKey => some .bytearray
  | _ => none

/-! ## Parts of instructions -/

/-- The program counter. -/
def programCounter : Var := { name := .pc, bits := 64, register := some 0 }

/-- The stack pointer. -/
def stackPointer : Var := { name := .sp, bits := 64, register := some 0x100 }

/-- The operand of an instruction. -/
def operand (i : Instruction) : LiftM Nat := ofExcept i.operandValue

/-- The variable of the local that an instruction names. -/
def localVar (f : Frame) (i : Instruction) : LiftM Var := do
  match f.locals[← operand i]? with
  | some v => return v
  | none => throw .noSuchPosition

/-- The type of the local that an instruction names. -/
def localType (f : Frame) (i : Instruction) : LiftM Token := do
  match f.localTypes[← operand i]? with
  | some token => return token
  | none => throw .noSuchPosition

/-- The struct definition that an instruction names. -/
def structOf (f : Frame) (i : Instruction) : LiftM StructDef := do
  return (← ofExcept (f.owner.structDefs.get (← operand i))).record

/-- The symbol of the constant at an address. -/
def dataSymbol (address : Int) : LiftM SymbolRef := do
  match (← get).host.symbolAt? address with
  | some symbol => return { name := symbol.name, address := symbol.address }
  | none => throw (.noDataSymbol address)

/-- Puts a value of a type onto the stack and assigns it. -/
def pushAssign (f : Frame) (token : Token) (source : Expr) : LiftM (List Stmt) := do
  let v ← push f token
  return [← ofExcept (Ir.assign v source)]

/-- An instruction that is kept as it is. -/
def kept (i : Instruction) (address : Int) (results : List Var) (operands : List Expr) :
    List Stmt :=
  [.untranslated i.opcode.operation i.opcode.code.toNat address (results.map .var) operands]

/-! ## Lowerings -/

/-- Loads the address, the text or the byte array that an instruction names. -/
def lowerConstant (f : Frame) (token : Token) (mapping : Extent) : LiftM (List Stmt) := do
  if mapping.size = 0 then pushAssign f token (Ir.constant 0 64)
  else pushAssign f token (.symbol (← dataSymbol mapping.start))

/-- Loads a local. -/
def lowerCopy (f : Frame) (i : Instruction) : LiftM (List Stmt) := do
  let token ← localType f i
  let v ← localVar f i
  pushAssign f token (.var v)

/-- Loads a local and clears it. -/
def lowerMove (f : Frame) (i : Instruction) : LiftM (List Stmt) := do
  let v ← localVar f i
  let loaded ← pushAssign f (← localType f i) (.var v)
  let cleared ← ofExcept (Ir.assign v (.imm 0 v.bits))
  return loaded ++ [cleared]

/-- Stores the value on top of the stack. -/
def lowerStore (f : Frame) (i : Instruction) : LiftM (List Stmt) := do
  let v ← localVar f i
  let value ← pop
  return [← ofExcept (Ir.assign v (.var value))]

/-- Jumps. -/
def lowerJump (i : Instruction) (address : Int) : LiftM (List Stmt) :=
  return [.branch programCounter (Ir.constant (address + i.jump) 64) false]

/-- Jumps on the value on top of the stack, which is negated where falsehood jumps. -/
def lowerBranch (i : Instruction) (address : Int) : LiftM (List Stmt) := do
  let value := Expr.var (← pop)
  let condition ←
    if i.opcode = .brFalse then ofExcept (Ir.operation .logicalNot [value]) else pure value
  let target := Ir.constant (address + i.jump) 64
  let next := Ir.constant (address + i.size) 64
  return [.branch programCounter (Ir.cond condition target next) false]

/-- Returns the values on top of the stack, as many as the function's signature says. -/
def lowerReturn (f : Frame) : LiftM (List Stmt) := do
  let h ← ofExcept (f.owner.handleOf f.function.record)
  let signature ← ofExcept (f.owner.signatureOf h.record)
  let values ← popMany signature.returns.length
  return [.ret (values.map .var)]

/-- The number of the routine that a handle stands for: the internal one at the handle's address,
else the first of its name. -/
def callee (f : Frame) (h : Entry FunctionHandle) (address : Int) : LiftM Nat := do
  let name ← ofExcept (f.owner.functionName h.record)
  let host := (← get).host
  match host.routineAt? h.mapping.start true with
  | some number => return number
  | none =>
    match host.routineNamed? name with
    | some number => return number
    | none => throw (.unresolvedCall name address)

/-- Calls a routine. -/
def lowerCall (f : Frame) (i : Instruction) (address : Int) : LiftM (List Stmt) := do
  let h ← ofExcept (f.owner.functionHandles.get (← operand i))
  let number ← callee f h address
  let signature ← ofExcept (f.owner.signatureOf h.record)
  onHost (ensurePrototype f.owner number signature)
  let params ← popMany signature.params.length
  let returns ← signature.returns.mapM (push f)
  match (← get).host.routine? number with
  | some r =>
    return [.call { name := r.name, address := r.address } returns (params.map .var)]
  | none => throw .noSuchPosition

/-- Negates a truth value. -/
def lowerNot (f : Frame) : LiftM (List Stmt) := do
  let value ← pop
  let negated ← ofExcept (Ir.operation .logicalNot [.var value])
  pushAssign f .integer (← ofExcept (Ir.zeroExtend negated 64))

/-- Combines the two values on top of the stack. -/
def lowerBinary (f : Frame) (op : Operator) : LiftM (List Stmt) := do
  let right ← pop
  let left ← pop
  let result ← ofExcept (Ir.operation op [.var left, .var right])
  pushAssign f .integer (← ofExcept (Ir.zeroExtend result 64))

/-- Borrows a local. -/
def lowerBorrowLocal (f : Frame) (i : Instruction) (address : Int) : LiftM (List Stmt) := do
  let v ← localVar f i
  let result ← push f (.reference false (← localType f i))
  return kept i address [result] [.var v]

/-- Borrows a field, which is named by its text. -/
def lowerBorrowField (f : Frame) (i : Instruction) (address : Int) : LiftM (List Stmt) := do
  let field ← ofExcept (f.owner.fieldDefs.get (← operand i))
  let reference ← pop
  let name ← ofExcept (f.owner.strings.get field.record.name)
  let symbol ← dataSymbol name.mapping.start
  let result ← push f (.reference true (← ofExcept (f.owner.fieldType field.record)))
  return kept i address [result] [.var reference, .symbol symbol]

/-- Borrows the struct that is published at an address. -/
def lowerBorrowGlobal (f : Frame) (i : Instruction) (address : Int) : LiftM (List Stmt) := do
  let d ← structOf f i
  let owner ← pop
  let result ← push f (.reference true (.struct d.handle))
  return kept i address [result] [.var owner]

/-- Gives up writing through a reference. -/
def lowerFreeze (i : Instruction) (address : Int) : LiftM (List Stmt) := do
  let reference ← pop
  let result ← pushNative reference.bits ((← get).scope.typeOf reference)
  return kept i address [result] [.var reference]

/-- Reads through a reference: the value has the type that the reference points to, as far as that
is known. -/
def lowerRead (f : Frame) (i : Instruction) (address : Int) : LiftM (List Stmt) := do
  let reference ← pop
  let result ←
    match ((← get).scope.typeOf reference).bind NativeType.pointed? with
    | some type => pushNative (if type.bits = 0 then 64 else type.bits) (some type)
    | none => push f (.anyReference true)
  return kept i address [result] [.var reference]

/-- Writes through a reference. -/
def lowerWrite (i : Instruction) (address : Int) : LiftM (List Stmt) := do
  let reference ← pop
  let value ← pop
  return kept i address [] [.var reference, .var value]

/-- Makes a struct of its fields. -/
def lowerPack (f : Frame) (i : Instruction) (address : Int) : LiftM (List Stmt) := do
  let d ← structOf f i
  let fields ← popMany d.fieldCount
  let result ← push f (.reference true (.struct d.handle))
  return kept i address [result] (fields.map .var)

/-- Takes a struct apart. -/
def lowerUnpack (f : Frame) (i : Instruction) (address : Int) : LiftM (List Stmt) := do
  let d ← structOf f i
  let value ← pop
  let fields ← ofExcept (f.owner.fieldsOf d)
  let results ← fields.mapM fun field => do
    push f (← ofExcept (f.owner.fieldType field.record))
  return kept i address results [.var value]

/-- Publishes a struct. -/
def lowerMoveTo (i : Instruction) (address : Int) : LiftM (List Stmt) := do
  let value ← pop
  return kept i address [] [.var value]

/-- Takes back the struct that is published at an address. -/
def lowerMoveFrom (f : Frame) (i : Instruction) (address : Int) : LiftM (List Stmt) := do
  let d ← structOf f i
  let owner ← pop
  let result ← push f (.struct d.handle)
  return kept i address [result] [.var owner]

/-- Takes the operands of an operation of the ledger and puts its result onto the stack, if it has
one. -/
def lowerLedger (f : Frame) (i : Instruction) (address : Int) : LiftM (List Stmt) := do
  let operands ← popMany (i.opcode.pops.count?.getD 0)
  let results ← (ledgerType? i.opcode).toList.mapM (push f)
  return kept i address results (operands.map .var)

/-- The statements of an instruction. -/
def lower (f : Frame) (i : Instruction) (address : Int) : LiftM (List Stmt) := do
  match i.opcode with
  | .pop =>
    let _ ← pop
    return []
  | .ret => lowerReturn f
  | .brTrue | .brFalse => lowerBranch i address
  | .branch => lowerJump i address
  | .ldConst => pushAssign f .integer (Ir.constant (← operand i) 64)
  | .ldTrue => pushAssign f .bool (Ir.constant 1 64)
  | .ldFalse => pushAssign f .bool (Ir.constant 0 64)
  | .ldAddr =>
    let entry ← ofExcept (f.owner.addresses.get (← operand i))
    pushAssign f .address (Ir.constant (Bytes.bigEndian entry.record.toList) 256)
  | .ldStr =>
    lowerConstant f .string (← ofExcept (f.owner.strings.get (← operand i))).mapping
  | .ldBytearray =>
    lowerConstant f .bytearray (← ofExcept (f.owner.bytearrays.get (← operand i))).mapping
  | .copyLoc => lowerCopy f i
  | .moveLoc => lowerMove f i
  | .stLoc => lowerStore f i
  | .ldRefLoc => lowerBorrowLocal f i address
  | .ldRefField => lowerBorrowField f i address
  | .call => lowerCall f i address
  | .pack => lowerPack f i address
  | .unpack => lowerUnpack f i address
  | .readRef => lowerRead f i address
  | .writeRef => lowerWrite i address
  | .freezeRef => lowerFreeze i address
  | .not => lowerNot f
  | .borrowRef => lowerBorrowGlobal f i address
  | .moveFrom => lowerMoveFrom f i address
  | .moveTo => lowerMoveTo i address
  | opcode =>
    match operatorOf? opcode with
    | some op => lowerBinary f op
    | none => lowerLedger f i address

end MoveBytecode.Lift
