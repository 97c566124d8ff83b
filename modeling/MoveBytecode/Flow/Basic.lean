import MoveBytecode.Instruction
import MoveBytecode.Text.Hex

/-!
# Control flow of instructions

Where control may go after an instruction. Jumps, conditional branches and returns end a basic
block; calls and all others go on with the next instruction.
-/

namespace MoveBytecode

/-- The ways control may go on. -/
inductive FlowKind where
  | next
  | jump
  | conditional
  | call
  | leave
  deriving DecidableEq, Repr

/-- The name of a way control may go on. -/
def FlowKind.name : FlowKind → String
  | .next => "fallthrough"
  | .jump => "jump"
  | .conditional => "conditional"
  | .call => "call"
  | .leave => "return"

/-- How control goes on, and the addresses it may go to. -/
structure Flow where
  kind : FlowKind
  targets : List Int
  deriving DecidableEq, Repr

/-- Whether a basic block ends here. -/
def Flow.breaksBlock (f : Flow) : Bool :=
  f.kind == .jump || f.kind == .conditional || f.kind == .leave

/-- How control goes on after an instruction at `address`; a conditional branch has the next
instruction first and its target second. -/
def Instruction.flow (i : Instruction) (address : Int) : Flow :=
  match i.opcode with
  | .ret => ⟨.leave, []⟩
  | .branch => ⟨.jump, [address + i.jump]⟩
  | .brTrue | .brFalse => ⟨.conditional, [address + i.size, address + i.jump]⟩
  | .call => ⟨.call, [address + i.size]⟩
  | _ => ⟨.next, [address + i.size]⟩

/-- An instruction at its address. -/
structure Placed where
  address : Int
  instruction : Instruction
  deriving DecidableEq, Repr

namespace Placed

/-- How control goes on after a placed instruction. -/
def flow (p : Placed) : Flow := p.instruction.flow p.address

/-- The instructions of a run, the first of which is at `base`. -/
def run (base : Int) (instructions : List Instruction) : List Placed :=
  let first : Int := (instructions.head?.map (·.offset)).getD 0
  instructions.map fun i => ⟨base + i.offset - first, i⟩

end Placed

end MoveBytecode
