import MoveBytecode.Bytes
import MoveBytecode.Opcode

/-!
# Instructions

A decoded instruction: its opcode and operand, the bytes it was read from, where it stands in its
body, and the depth of the operand stack before and after it.
-/

namespace MoveBytecode

/-- The operand of an instruction. -/
structure Operand where
  kind : OperandKind
  value : Nat
  deriving DecidableEq, Repr

/-- One instruction of a body. -/
structure Instruction where
  opcode : Opcode
  /-- The bytes of opcode and operand. -/
  raw : Bytes
  /-- The number of the instruction in its body. -/
  index : Nat
  /-- The distance in bytes from the start of the body. -/
  offset : Nat
  operand : Option Operand
  /-- How many values the operand stack holds before the instruction. -/
  depthBefore : Nat
  /-- How many values the operand stack holds after the instruction. -/
  depthAfter : Nat
  /-- The distance in bytes to the instruction that a branch names. -/
  branchDelta : Option Int
  deriving DecidableEq, Repr

namespace Instruction

/-- How many bytes an instruction has. -/
def size (i : Instruction) : Nat := i.raw.size

/-- The mnemonic and the operand as a number. -/
def text (i : Instruction) : String :=
  match i.operand with
  | none => i.opcode.mnemonic
  | some operand => i.opcode.mnemonic ++ " " ++ toString operand.value

/-- How far a branch jumps; instructions without a known target stay where they are. -/
def jump (i : Instruction) : Int := i.branchDelta.getD 0

/-- How many bytes the instructions of a list have together. -/
def totalSize : List Instruction → Nat
  | [] => 0
  | i :: rest => i.size + totalSize rest

/-- The sizes of instructions add up. -/
theorem totalSize_append (first second : List Instruction) :
    totalSize (first ++ second) = totalSize first + totalSize second := by
  induction first with
  | nil => simp [totalSize]
  | cons i rest ih => simp only [List.cons_append, totalSize, ih]; omega

end Instruction

end MoveBytecode
