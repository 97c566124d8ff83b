import MoveBytecode.Body
import MoveBytecode.Proofs.Machine.Run

/-!
# The machine of the bytecode

A function runs on an operand stack and its locals. What the listing says an instruction takes and puts
is what it takes and puts here; `Opcode.role` says which of the values it computes itself, and the
results of all others, calls included, come from the interpretation.
-/

namespace MoveBytecode

/-- What an opcode does with the values it takes. -/
inductive Role where
  /-- Nothing. -/
  | drop
  /-- Returns them. -/
  | leave
  /-- Jumps. -/
  | jump
  /-- Jumps if a value has this truth. -/
  | branch (truth : Bool)
  /-- Loads a constant. -/
  | literal
  /-- Loads a local. -/
  | copy
  /-- Loads a local and sets it to zero. -/
  | move
  /-- Stores a local. -/
  | store
  | negate
  | combine (op : Operator)
  /-- Borrows a local: the result depends on its value. -/
  | borrowLocal
  /-- Borrows a field: the result depends on where its name is mapped. -/
  | borrowField
  /-- Writes through a reference, which is read before the value. -/
  | write
  /-- Yields results of its own, by the values it takes. -/
  | external
  deriving DecidableEq, Repr

/-- The role of an opcode. -/
def Opcode.role : Opcode → Role
  | .pop => .drop
  | .ret => .leave
  | .branch => .jump
  | .brTrue => .branch true
  | .brFalse => .branch false
  | .ldConst | .ldAddr | .ldStr | .ldTrue | .ldFalse | .ldBytearray => .literal
  | .copyLoc => .copy
  | .moveLoc => .move
  | .stLoc => .store
  | .ldRefLoc => .borrowLocal
  | .ldRefField => .borrowField
  | .writeRef => .write
  | .add => .combine .add
  | .sub => .combine .sub
  | .mul => .combine .mul
  | .mod => .combine .rem
  | .div => .combine .div
  | .bitOr => .combine .or
  | .bitAnd => .combine .and
  | .xor => .combine .xor
  | .or => .combine .logicalOr
  | .and => .combine .logicalAnd
  | .eq => .combine .equal
  | .neq => .combine .notEqual
  | .lt => .combine .less
  | .gt => .combine .greater
  | .le => .combine .lessEqual
  | .ge => .combine .greaterEqual
  | .not => .negate
  | .call | .pack | .unpack | .readRef | .assert | .getTxnGasUnitPrice | .getTxnMaxGasUnits
  | .getGasRemaining | .getTxnSender | .exists | .borrowRef | .releaseRef | .moveFrom | .moveTo
  | .createAccount | .emitEvent | .getTxnSequenceNumber | .getTxnPublicKey | .freezeRef => .external

/-- The opcodes that jump are those whose operand is an instruction. -/
theorem Opcode.isBranch_iff_role {opcode : Opcode} :
    opcode.isBranch = true ↔ opcode.role = .jump ∨ ∃ truth, opcode.role = .branch truth := by
  cases opcode with
  | branch | brTrue | brFalse => simp [isBranch, role]
  | _ => simp [isBranch, role]

/-- The address that stands for a mapped constant; an empty one has none. -/
def Extent.pointer (e : Extent) : Int := if e.size = 0 then 0 else e.start

namespace Module

/-- The number that an instruction loads: constants in place as they are, addresses as numbers, texts
and byte arrays by where they are mapped. -/
def literal (m : Module) (i : Instruction) : Except Fault Int := do
  match i.opcode with
  | .ldTrue => return 1
  | .ldFalse => return 0
  | .ldAddr => return Bytes.bigEndian (← m.addresses.get (← i.operandValue)).record.toList
  | .ldStr => return (← m.strings.get (← i.operandValue)).mapping.pointer
  | .ldBytearray => return (← m.bytearrays.get (← i.operandValue)).mapping.pointer
  | _ => return (← i.operandValue)

/-- Where the name of the field is mapped that an instruction borrows. -/
def fieldPointer (m : Module) (i : Instruction) : Except Fault Int := do
  let field ← m.fieldDefs.get (← i.operandValue)
  return (← m.strings.get field.record.name).mapping.start

end Module

namespace Bytecode

variable {V : Type}

/-- Where a function stands: the number of the next instruction, the operand stack, the lowest value
first, and the locals. -/
structure State (V : Type) where
  next : Nat
  stack : List V
  locals : List V

/-- The stack without its `count` last values, and these. -/
def takeTop (count : Nat) (stack : List V) : Except Fault (List V × List V) :=
  if count ≤ stack.length then
    .ok (stack.take (stack.length - count), stack.drop (stack.length - count))
  else .error .stackEmpty

/-- The value of a local. -/
def getLocal (locals : List V) (index : Nat) : Except Fault V :=
  match locals[index]? with
  | some v => .ok v
  | none => .error .noSuchPosition

/-- What an instruction at an address does that takes `ins` from the stack, so that `rest` stays, and
puts `pushes` values there. -/
def perform (I : Interpretation V) (f : Body.Frame) (address : Int) (i : Instruction)
    (rest ins : List V) (pushes : Nat) (s : State V) : Except Fault (Progress (State V) V) := do
  let results (read : List V) := (List.range pushes).map (I.result address read)
  let goOn (outs : List V) : Progress (State V) V :=
    .goOn { s with next := s.next + 1, stack := rest ++ outs }
  match i.opcode.role, ins with
  | .drop, _ => return goOn []
  | .leave, _ => return .returned ins
  | .jump, _ => return .goOn { s with next := ← i.operandValue, stack := rest }
  | .branch truth, [v] =>
    let target ← i.operandValue
    return .goOn { s with next := if I.truth v = truth then target else s.next + 1, stack := rest }
  | .literal, _ => return goOn [I.number (← f.owner.literal i)]
  | .copy, _ => return goOn [← getLocal s.locals (← i.operandValue)]
  | .move, _ =>
    let index ← i.operandValue
    let v ← getLocal s.locals index
    return .goOn ⟨s.next + 1, rest ++ [v], s.locals.set index (I.number 0)⟩
  | .store, [v] => return .goOn ⟨s.next + 1, rest, s.locals.set (← i.operandValue) v⟩
  | .negate, [v] => return goOn [I.negate v]
  | .combine op, [left, right] => return goOn [I.combine op left right]
  | .borrowLocal, _ => return goOn (results [← getLocal s.locals (← i.operandValue)])
  | .borrowField, _ => return goOn (results (ins ++ [I.number (← f.owner.fieldPointer i)]))
  | .write, _ => return goOn (results ins.reverse)
  | .external, _ => return goOn (results ins)
  | _, _ => throw .stackEmpty

/-- What the next instruction does, in a function whose body is mapped at `base`. -/
def perform? (I : Interpretation V) (f : Body.Frame) (base : Int) (i : Instruction) (s : State V) :
    Except Fault (Progress (State V) V) := do
  let (pops, pushes) ← Body.stackEffect f i
  let (rest, ins) ← takeTop pops s.stack
  perform I f (base + i.offset) i rest ins pushes s

/-- A step of a function whose body is mapped at `base`; behind its last instruction the function has
ended. -/
def step (I : Interpretation V) (f : Body.Frame) (base : Int) (body : List Instruction)
    (s : State V) : Progress (State V) V :=
  match body[s.next]? with
  | none => .ended
  | some i =>
    match perform? I f base i s with
    | .ok progress => progress
    | .error _ => .stuck

/-- What is put on top is what is taken. -/
theorem takeTop_append (rest ins : List V) :
    takeTop ins.length (rest ++ ins) = .ok (rest, ins) := by
  simp [takeTop]

end Bytecode

end MoveBytecode
