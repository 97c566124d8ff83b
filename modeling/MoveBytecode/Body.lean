import MoveBytecode.Cursor
import MoveBytecode.Module.Names

/-!
# Function bodies

A body is a number of instructions one after the other. Reading it keeps the depth of the operand
stack along the listing: an instruction may not take more values than there are, nothing may be left
at the end, and every branch has to name an instruction of the body. `Body.scan` reads the
instructions and says how far it came; `Body.read` is the whole decoding.
-/

namespace MoveBytecode

/-- The value of an instruction's operand. -/
def Instruction.operandValue (i : Instruction) : Except Fault Nat :=
  match i.operand with
  | some operand => .ok operand.value
  | none => .error (.operandMissing i.opcode)

/-- The name and the size of the pool that an operand of some kind refers to. -/
def Module.operandPool? (m : Module) : OperandKind → Option (String × Nat)
  | .address => some (m.addresses.name, m.addresses.size)
  | .bytearray => some (m.bytearrays.name, m.bytearrays.size)
  | .string => some (m.strings.name, m.strings.size)
  | .functionHandle => some (m.functionHandles.name, m.functionHandles.size)
  | .fieldDef => some (m.fieldDefs.name, m.fieldDefs.size)
  | .structDef => some (m.structDefs.name, m.structDefs.size)
  | .none | .branch | .immediate | .localVar => none

namespace Reader

/-- The result of a computation that reads nothing. -/
def ofExcept {α : Type} (result : Except Fault α) : Reader α :=
  match result with
  | .ok value => pure value
  | .error fault => throw fault

/-- Reads an operand of some kind. -/
def operand : OperandKind → Reader (Option Nat)
  | .none => return none
  | .branch => return some (← u16)
  | .immediate => return some (← u64)
  | .localVar => return some (← u8).toNat
  | .address | .bytearray | .string | .functionHandle | .fieldDef | .structDef =>
    return some (← varu16)

end Reader

namespace Body

/-- How many locals an instruction can address: their numbers have one byte. -/
def maxLocals : Nat := 256

/-- Refuses more locals than can be addressed. -/
def checkLocals (count : Int) : Except Fault Unit :=
  if (maxLocals : Int) < count then .error (.tooManyLocals count) else .ok ()

/-- What the decoding of a body depends on: the module, the display name and the signature of the
function, and the number of its locals. -/
structure Frame where
  owner : Module
  name : String
  signature : FunctionSignature
  localCount : Nat

/-- The frame of the function with this handle and these locals. -/
def frame (m : Module) (handle locals : Nat) : Except Fault Frame := do
  let h ← m.functionHandles.get handle
  let signature ← m.signatureOf h.record
  let localTypes ← m.localSignatures.get locals
  checkLocals localTypes.record.length
  let name ← m.functionName h.record
  return ⟨m, name, signature, localTypes.record.length⟩

/-- Refuses an operand that refers to nothing. -/
def checkOperand (f : Frame) (opcode : Opcode) (operand : Operand) : Except Fault Unit :=
  if operand.kind = .localVar then
    if f.localCount ≤ operand.value then
      .error (.localBeyondCount opcode operand.value f.localCount)
    else .ok ()
  else
    match f.owner.operandPool? operand.kind with
    | none => .ok ()
    | some (pool, size) =>
      if operand.value < size then .ok ()
      else .error (.operandBeyondPool opcode pool operand.value size)

/-- How many values an instruction takes from the stack and how many it puts there. -/
def stackEffect (f : Frame) (i : Instruction) : Except Fault (Nat × Nat) := do
  match i.opcode with
  | .ret => return (f.signature.returns.length, 0)
  | .pack => return ((← f.owner.structDefs.get (← i.operandValue)).record.fieldCount, 1)
  | .unpack => return (1, (← f.owner.structDefs.get (← i.operandValue)).record.fieldCount)
  | .call =>
    let target ← f.owner.functionHandles.get (← i.operandValue)
    let signature ← f.owner.signatureOf target.record
    return (signature.params.length, signature.returns.length)
  | opcode => return (opcode.pops.count?.getD 0, opcode.pushes.count?.getD 0)

/-- Reads opcode and operand of the instruction number `index` of the body that starts at
`base`. -/
def readInstruction (f : Frame) (base index : Nat) : Reader Instruction := do
  let start ← Reader.position
  let byte ← Reader.u8
  match Opcode.ofCode? byte with
  | none => throw (.opcodeUnknown byte start)
  | some opcode =>
    let value ← Reader.operand opcode.operandKind
    let operand := value.map (Operand.mk opcode.operandKind)
    if let some operand := operand then Reader.ofExcept (checkOperand f opcode operand)
    let raw := (← get).data.window start ((← Reader.position) - start)
    return ⟨opcode, raw, index, start - base, operand, 0, 0, none⟩

/-- Reads an instruction at stack depth `depth` and works out the depth after it. -/
def step (f : Frame) (base index depth : Nat) : Reader Instruction := do
  let i ← readInstruction f base index
  let (pops, pushes) ← Reader.ofExcept (stackEffect f i)
  if depth < pops then
    throw (.stackUnderflow f.name { i with depthBefore := depth } pops)
  return { i with depthBefore := depth, depthAfter := depth - pops + pushes }

/-- How far a body could be read: the instructions up to the first defect, the depth after them,
and the defect. -/
structure Scan where
  instructions : Array Instruction
  depth : Nat
  fault : Option Fault

/-- Reads `count` further instructions after those in `done`. -/
def scan (f : Frame) (base : Nat) :
    (count : Nat) → (done : Array Instruction) → (depth : Nat) → Cursor → Scan × Cursor
  | 0, done, depth, c => (⟨done, depth, none⟩, c)
  | count + 1, done, depth, c =>
    match (step f base done.size depth).runAt c with
    | (.ok i, next) => scan f base count (done.push i) i.depthAfter next
    | (.error fault, next) => (⟨done, depth, some fault⟩, next)

/-- The distance of a branch to the instruction that it names. -/
def resolveBranch (name : String) (body : Array Instruction) (i : Instruction) :
    Except Fault Instruction := do
  if i.opcode.isBranch then
    let target ← i.operandValue
    match body[target]? with
    | some destination =>
      return { i with branchDelta := some ((destination.offset : Int) - i.offset) }
    | none => throw (.branchBeyondBody name i.index target body.size)
  else return i

/-- The instructions of a complete scan. -/
def Scan.finish (f : Frame) (s : Scan) : Except Fault (List Instruction) := do
  if let some fault := s.fault then throw fault
  if s.depth ≠ 0 then throw (.stackUnbalanced f.name s.depth)
  s.instructions.toList.mapM (resolveBranch f.name s.instructions)

/-- Reads a body of `count` instructions. -/
def read (f : Frame) (count : Nat) : Reader (List Instruction) := do
  let c ← get
  let (s, next) := scan f c.position count #[] 0 c
  set next
  Reader.ofExcept (s.finish f)

end Body

end MoveBytecode
