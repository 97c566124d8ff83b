import MoveBytecode.Fault
import MoveBytecode.Ir.Basic
import MoveBytecode.Token

/-!
# The symbolic operand stack

While a routine is lifted, every position of the operand stack has a slot with the variable that
holds the value there. Slots above the height are left over from earlier pushes: a slot whose value
had the same type is taken again, so a variable stands for the same position as long as the types
that land there agree.
-/

namespace MoveBytecode.Lift

/-- A position of the operand stack: its variable, and the type last put there, if it is known. -/
structure Slot where
  var : Var
  token : Option Token
  deriving DecidableEq, Repr

/-- The slots of the operand stack, and how many of them hold values. -/
structure OperandStack where
  slots : Array Slot
  height : Nat
  deriving DecidableEq, Repr

namespace OperandStack

/-- The stack without slots. -/
def empty : OperandStack := ⟨#[], 0⟩

/-- The variable of the slot at the height, if a value of this type was last put there. -/
def reusable? (s : OperandStack) (token : Token) : Option Var :=
  (s.slots[s.height]?.filter fun slot => slot.token == some token).map (·.var)

/-- The stack with one more value, which takes the slot at the height as it is. -/
def keep (s : OperandStack) : OperandStack := { s with height := s.height + 1 }

/-- The stack with one more value, in a slot of its own. -/
def store (s : OperandStack) (slot : Slot) : OperandStack :=
  { slots := if s.height < s.slots.size then s.slots.setIfInBounds s.height slot
      else s.slots.push slot
    height := s.height + 1 }

/-- Storing a slot makes the stack one higher. -/
@[simp] theorem height_store (s : OperandStack) (slot : Slot) :
    (s.store slot).height = s.height + 1 := rfl

/-- The slot that was stored is at the height that the stack had. -/
theorem getElem?_store (s : OperandStack) (slot : Slot) (h : s.height ≤ s.slots.size) :
    (s.store slot).slots[s.height]? = some slot := by
  unfold store
  simp only
  split
  · simp_all
  · have : s.height = s.slots.size := by omega
    simp [this]

/-- The stack with one more slot above all others. -/
def grow (s : OperandStack) (slot : Slot) : OperandStack :=
  { s with slots := s.slots.push slot }

/-- The stack at another height. -/
def setHeight (s : OperandStack) (height : Nat) : OperandStack := { s with height }

/-- The value on top, and the stack without it. -/
def pop (s : OperandStack) : Except Fault (Var × OperandStack) :=
  match s.height with
  | 0 => .error .stackEmpty
  | height + 1 =>
    match s.slots[height]? with
    | some slot => .ok (slot.var, { s with height })
    | none => .error .noSuchPosition

/-- The value put there last is the first that is taken. -/
theorem pop_store (s : OperandStack) (slot : Slot) (h : s.height ≤ s.slots.size) :
    (s.store slot).pop = .ok (slot.var, (s.store slot).setHeight s.height) := by
  unfold pop
  rw [height_store]
  simp only [getElem?_store s slot h, setHeight]

end OperandStack

end MoveBytecode.Lift
