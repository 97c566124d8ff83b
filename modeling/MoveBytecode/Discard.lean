/-!
# Discarding definitions

Whether the definition of a variable may be dropped is up to filters: a definition that one of them
lets go is dropped. A definition is known by the address that it comes from; those of the context of
a routine, which were there before its first instruction, have numbers below zero.
-/

namespace MoveBytecode

/-- Filters of the definitions that may be dropped. -/
structure Discard where
  filters : List (Int → Bool)

namespace Discard

/-- The filters that let nothing go. -/
def none : Discard := ⟨[]⟩

/-- The filters with one more. -/
def add (d : Discard) (filter : Int → Bool) : Discard := ⟨d.filters ++ [filter]⟩

/-- Whether a definition may be dropped. -/
def allows (d : Discard) (definition : Int) : Bool :=
  d.filters.any fun filter => filter definition

/-- Without filters no definition may be dropped. -/
@[simp] theorem allows_none (definition : Int) : none.allows definition = false := rfl

/-- With one more filter, what it lets go may be dropped as well. -/
@[simp] theorem allows_add (d : Discard) (filter : Int → Bool) (definition : Int) :
    (d.add filter).allows definition = (d.allows definition || filter definition) := by
  simp [allows, add]

/-- Whether a definition is one of the context. -/
def isContext (definition : Int) : Bool := definition < 0

/-- The filters with one that lets the definitions of the context go. -/
def withContext (d : Discard) : Discard := d.add isContext

/-- With the context, the definitions with numbers below zero may be dropped as well. -/
theorem allows_withContext (d : Discard) (definition : Int) :
    d.withContext.allows definition = (d.allows definition || definition < 0) := by
  simp [withContext, isContext]

end Discard

end MoveBytecode
