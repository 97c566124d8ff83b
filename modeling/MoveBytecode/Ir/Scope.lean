import MoveBytecode.Ir.Basic
import MoveBytecode.NativeType.Basic
import Std.Data.TreeMap

/-!
# Scopes

The variables of a routine, in the order in which their names were first used, and their types. A
variable is the same wherever it is mentioned, so its type is kept here and not in the values that
mention it.
-/

namespace MoveBytecode

/-- The variables of a routine and their types. -/
structure Scope where
  vars : Array Var
  types : Std.TreeMap VarName (Option NativeType)

namespace Scope

/-- The scope without variables. -/
def empty : Scope := ⟨#[], ∅⟩

/-- Whether a name is in use. -/
def contains (s : Scope) (name : VarName) : Bool := s.types.contains name

/-- The variable of a name. -/
def find? (s : Scope) (name : VarName) : Option Var :=
  s.vars.find? (·.name == name)

/-- The type of a variable, if it is known. -/
def typeOf (s : Scope) (v : Var) : Option NativeType := s.types[v.name]?.join

/-- The scope with a register, which takes the place of any variable of its name. -/
def setRegister (s : Scope) (v : Var) : Scope :=
  { vars :=
      if s.contains v.name then s.vars.map fun w => if w.name == v.name then v else w
      else s.vars.push v
    types := s.types.insert v.name none }

/-- The scope with one more variable. -/
def add (s : Scope) (v : Var) (type : Option NativeType) : Scope :=
  { vars := s.vars.push v, types := s.types.insert v.name type }

/-- A scope with one more variable knows the names that it did and that of the variable. -/
@[simp] theorem contains_add (s : Scope) (v : Var) (type : Option NativeType) (name : VarName) :
    (s.add v type).contains name = (v.name == name || s.contains name) := by
  rw [Bool.eq_iff_iff]
  simp [add, contains, Std.TreeMap.contains_insert]

/-- A scope gives a variable the type that it was added with last. -/
theorem typeOf_add (s : Scope) (v w : Var) (type : Option NativeType) :
    (s.add v type).typeOf w = if v.name = w.name then type else s.typeOf w := by
  unfold typeOf add
  by_cases h : v.name = w.name <;> simp [h, Std.TreeMap.getElem?_insert]

/-- The scope with another type for a variable. -/
def retype (s : Scope) (v : Var) (type : NativeType) : Scope :=
  { s with types := s.types.insert v.name (some type) }

/-- Only the variables of that name change their type. -/
theorem typeOf_retype (s : Scope) (v w : Var) (type : NativeType) :
    (s.retype v type).typeOf w = if v.name = w.name then some type else s.typeOf w := by
  unfold typeOf retype
  by_cases h : v.name = w.name <;> simp [h, Std.TreeMap.getElem?_insert]

end Scope

end MoveBytecode
