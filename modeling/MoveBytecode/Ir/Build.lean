import MoveBytecode.Fault
import MoveBytecode.Ir.Basic

/-!
# Making values and statements

The widths of values follow from what they are made of, and a value may not be wider than the place
it is put into.
-/

namespace MoveBytecode.Ir

/-- The lowest `bits` bits of a number as a number that is not below zero. -/
def cutTo (bits : Nat) (value : Int) : Int := value % ((1 <<< bits : Nat) : Int)

/-- The number `value` cut to `bits` bits. -/
def immediate (value : Int) (bits : Int) : Except Fault Expr :=
  if bits < 0 then .error .negativeShift
  else .ok (.imm (cutTo bits.toNat value) bits)

/-- The number `value` cut to `bits` bits, for a width that is not below zero. -/
def constant (value : Int) (bits : Nat) : Expr :=
  .imm (cutTo bits value) bits

/-- The greatest width of some values. -/
def widest : List Expr → Option Int
  | [] => none
  | e :: rest =>
    match widest rest with
    | none => some e.bits
    | some bits => some (max e.bits bits)

/-- An operation: truth values have one bit, all else is as wide as the widest operand. -/
def operation (op : Operator) (operands : List Expr) : Except Fault Expr :=
  if op.isBoolean then .ok (.operation op operands 1)
  else
    match widest operands with
    | some bits => .ok (.operation op operands bits)
    | none => .error .noOperands

/-- A value with zeros above it, up to `bits` bits. -/
def zeroExtend (e : Expr) (bits : Int) : Except Fault Expr :=
  if bits < e.bits then .error (.cannotExtend e.bits bits)
  else .ok (.operation .zeroExtend [e] bits)

/-- One of two values. -/
def cond (predicate ifTrue ifFalse : Expr) : Expr :=
  .cond predicate ifTrue ifFalse (max ifTrue.bits ifFalse.bits)

/-- Refuses a value that is wider than its place. -/
def checkFit (place source : Expr) : Except Fault Unit :=
  if place.bits < source.bits then
    .error (.doesNotFit source.text source.bits place.text place.bits)
  else .ok ()

/-- An assignment. -/
def assign (target : Var) (source : Expr) : Except Fault Stmt := do
  checkFit (.var target) source
  return .assign target source

end MoveBytecode.Ir
