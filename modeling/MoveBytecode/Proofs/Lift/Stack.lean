import Mathlib.Data.List.Nodup
import MoveBytecode.Lift.State

/-!
# The variables of the symbolic stack

Slots hold variables of their own, numbered in the order in which they were made: `State.WellFormed`.
From a state to a later one, a slot keeps its variable or gets a newer one (`State.Evolves`), so that
a variable that a slot has lost never comes back to it.
-/

namespace MoveBytecode.Lift

/-- The variables of the values on the stack, the lowest position first. -/
def OperandStack.vars (s : OperandStack) : List Var :=
  (s.slots.toList.take s.height).map (·.var)

/-- The variable of a slot, whether or not it holds a value. -/
def OperandStack.varAt? (s : OperandStack) (position : Nat) : Option Var :=
  (s.slots[position]?).map (·.var)

namespace OperandStack

variable {s s' : OperandStack}

/-- A slot that is stored has its variable at the height of the stack; all others keep theirs. -/
theorem varAt?_store (h : s.height ≤ s.slots.size) (slot : Slot) (k : Nat) :
    (s.store slot).varAt? k = if k = s.height then some slot.var else s.varAt? k := by
  unfold varAt?
  by_cases hk : k = s.height
  · rw [if_pos hk, hk, getElem?_store s slot h]
    rfl
  · rw [if_neg hk]
    simp only [store]
    split
    · rw [Array.getElem?_setIfInBounds_ne (Ne.symm hk)]
    · rw [Array.getElem?_push, if_neg (by omega)]

/-- A slot that is added has its variable behind all others, which keep theirs. -/
theorem varAt?_grow (s : OperandStack) (slot : Slot) (k : Nat) :
    (s.grow slot).varAt? k = if k = s.slots.size then some slot.var else s.varAt? k := by
  simp only [varAt?, grow, Array.getElem?_push]
  split
  · rfl
  · rfl

/-- Every slot has a variable. -/
theorem isSome_varAt? (s : OperandStack) {k : Nat} (h : k < s.slots.size) :
    ∃ v, s.varAt? k = some v := by
  simp [varAt?, h]

/-- Only slots have variables. -/
theorem lt_of_varAt? {k : Nat} {v : Var} (h : s.varAt? k = some v) : k < s.slots.size := by
  obtain ⟨slot, hslot, -⟩ := Option.map_eq_some_iff.mp h
  exact (Array.getElem?_eq_some_iff.mp hslot).1

/-- The variables of the values on the stack are those of the slots below the height. -/
theorem getElem?_vars (s : OperandStack) (k : Nat) :
    s.vars[k]? = if k < s.height then s.varAt? k else none := by
  rw [vars, List.getElem?_map, List.getElem?_take]
  split
  · simp [varAt?]
  · rfl

/-- There are as many variables on the stack as the stack is high. -/
theorem length_vars (h : s.height ≤ s.slots.size) : s.vars.length = s.height := by
  simp [vars, h]

/-- The values of a stack are those of another and one more, if its slots say so. -/
theorem vars_eq_concat (hs : s.height ≤ s.slots.size) (hheight : s'.height = s.height + 1)
    {v : Var} (hbelow : ∀ k < s.height, s'.varAt? k = s.varAt? k)
    (htop : s'.varAt? s.height = some v) : s'.vars = s.vars ++ [v] := by
  apply List.ext_getElem?
  intro k
  rw [getElem?_vars, hheight, List.getElem?_append, getElem?_vars, length_vars hs]
  rcases Nat.lt_trichotomy k s.height with hk | rfl | hk
  · simp [hk, Nat.lt_succ_of_lt hk, hbelow k hk]
  · simp [htop]
  · have : k - s.height ≠ 0 := by omega
    simp [show ¬ k < s.height + 1 by omega, show ¬ k < s.height by omega, this]

/-- The values on the stack are still in slots when one more is stored. -/
theorem height_store_le (h : s.height ≤ s.slots.size) (slot : Slot) :
    (s.store slot).height ≤ (s.store slot).slots.size := by
  simp only [store]
  split
  · simp only [Array.size_setIfInBounds]
    omega
  · simp only [Array.size_push]
    omega

/-- A slot that is taken again is below the number of slots and has the variable. -/
theorem varAt?_of_reusable {token : Token} {v : Var}
    (h : s.reusable? token = some v) : s.varAt? s.height = some v := by
  unfold reusable? at h
  obtain ⟨slot, hslot, rfl⟩ := Option.map_eq_some_iff.mp h
  obtain ⟨hslot, -⟩ := Option.filter_eq_some_iff.mp hslot
  simp [varAt?, hslot]

end OperandStack

/-! ## States -/

namespace State

/-- The slots have different variables, which are among those made so far, and the values on the stack
are in slots. -/
structure WellFormed (s : State) : Prop where
  height_le : s.stack.height ≤ s.stack.slots.size
  made : ∀ k v, s.stack.varAt? k = some v → ∃ n, n < s.counter ∧ v.name = .stackVar n
  distinct : ∀ j k v w, s.stack.varAt? j = some v → s.stack.varAt? k = some w → v.name = w.name →
    j = k

/-- From one state to a later one, every slot keeps its variable or gets one made in between. -/
structure Evolves (s s' : State) : Prop where
  counter_le : s.counter ≤ s'.counter
  slot : ∀ k v, s.stack.varAt? k = some v → ∃ v', s'.stack.varAt? k = some v' ∧
    (v' = v ∨ ∃ n, s.counter ≤ n ∧ v'.name = .stackVar n)

/-- Every state evolves to itself. -/
theorem Evolves.refl (s : State) : s.Evolves s :=
  ⟨Nat.le_refl _, fun _ v h => ⟨v, h, .inl rfl⟩⟩

/-- Evolving goes on from one state to the next. -/
theorem Evolves.trans {s t u : State} (h : s.Evolves t) (k : t.Evolves u) : s.Evolves u := by
  refine ⟨Nat.le_trans h.counter_le k.counter_le, fun p v hv => ?_⟩
  obtain ⟨v', hv', hold⟩ := h.slot p v hv
  obtain ⟨v'', hv'', hnew⟩ := k.slot p v' hv'
  refine ⟨v'', hv'', ?_⟩
  rcases hnew with rfl | ⟨n, hn, hname⟩
  · exact hold
  · exact .inr ⟨n, Nat.le_trans h.counter_le hn, hname⟩

/-- A slot that has its variable of the beginning at the end has had it in between. -/
theorem Evolves.eq_of_eq {s t u : State} (hs : s.WellFormed) (h : s.Evolves t) (k : t.Evolves u)
    {p : Nat} {v : Var} (hv : s.stack.varAt? p = some v) (hu : u.stack.varAt? p = some v) :
    t.stack.varAt? p = some v := by
  obtain ⟨n, hn, hname⟩ := hs.made p v hv
  obtain ⟨v', hv', hold⟩ := h.slot p v hv
  rcases hold with rfl | ⟨m, hm, hname'⟩
  · exact hv'
  · -- A newer variable in between stays or is replaced by one that is newer still.
    obtain ⟨v'', hv'', hnew⟩ := k.slot p v' hv'
    obtain rfl := Option.some.inj (hu.symm.trans hv'')
    exfalso
    have := h.counter_le
    rcases hnew with rfl | ⟨l, hl, hname''⟩
    · rw [hname'] at hname
      have := VarName.stackVar.inj hname
      omega
    · rw [hname''] at hname
      have := VarName.stackVar.inj hname
      omega

/-- The state without values and slots. -/
theorem wellFormed_of_empty {s : State} (h : s.stack = .empty) : s.WellFormed := by
  have hnone : ∀ k v, s.stack.varAt? k ≠ some v := by
    intro k v
    simp [h, OperandStack.empty, OperandStack.varAt?]
  refine ⟨by simp [h, OperandStack.empty], fun k v hv => absurd hv (hnone k v), ?_⟩
  exact fun j k v w hv => absurd hv (hnone j v)

/-- Only the stack and the counter matter. -/
theorem WellFormed.congr {s t : State} (h : s.WellFormed) (hstack : t.stack = s.stack)
    (hcounter : s.counter ≤ t.counter) : t.WellFormed ∧ s.Evolves t := by
  refine ⟨⟨?_, ?_, ?_⟩, hcounter, fun k v hv => ⟨v, hstack ▸ hv, .inl rfl⟩⟩
  · rw [hstack]
    exact h.height_le
  · rw [hstack]
    intro k v hv
    obtain ⟨n, hn, hname⟩ := h.made k v hv
    exact ⟨n, Nat.lt_of_lt_of_le hn hcounter, hname⟩
  · rw [hstack]
    exact h.distinct

/-- The values on the stack are in variables of stack positions. -/
theorem WellFormed.name_of_mem_vars {s : State} (h : s.WellFormed) {v : Var} (hv : v ∈ s.stack.vars) :
    ∃ n, v.name = .stackVar n := by
  obtain ⟨k, hk⟩ := List.mem_iff_getElem?.mp hv
  rw [OperandStack.getElem?_vars] at hk
  split at hk
  · obtain ⟨n, -, hname⟩ := h.made k v hk
    exact ⟨n, hname⟩
  · simp at hk

/-- The values on the stack are in variables of different names. -/
theorem WellFormed.nodup_names {s : State} (h : s.WellFormed) :
    (s.stack.vars.map (·.name)).Nodup := by
  rw [List.nodup_iff_injective_getElem]
  intro j k hjk
  have hlength := OperandStack.length_vars h.height_le
  have hj : (j : Nat) < s.stack.vars.length := by simpa using j.isLt
  have hk : (k : Nat) < s.stack.vars.length := by simpa using k.isLt
  have slot : ∀ i (hi : i < s.stack.vars.length), s.stack.varAt? i = some s.stack.vars[i] := by
    intro i hi
    have hget := OperandStack.getElem?_vars s.stack i
    rw [List.getElem?_eq_getElem hi, if_pos (by omega)] at hget
    exact hget.symm
  simp only [List.getElem_map] at hjk
  exact Fin.ext (h.distinct j k _ _ (slot j hj) (slot k hk) hjk)

variable {s t : State}

/-- A state with the same slots and another height is as well-formed. -/
theorem WellFormed.of_varAt? (h : s.WellFormed)
    (hslots : ∀ k, t.stack.varAt? k = s.stack.varAt? k)
    (hheight : t.stack.height ≤ t.stack.slots.size) (hcounter : s.counter ≤ t.counter) :
    t.WellFormed ∧ s.Evolves t := by
  refine ⟨⟨hheight, fun k v hv => ?_, fun j k v w hv hw => ?_⟩, hcounter, fun k v hv => ?_⟩
  · rw [hslots] at hv
    obtain ⟨n, hn, hname⟩ := h.made k v hv
    exact ⟨n, Nat.lt_of_lt_of_le hn hcounter, hname⟩
  · rw [hslots] at hv hw
    exact h.distinct j k v w hv hw
  · exact ⟨v, by rw [hslots]; exact hv, .inl rfl⟩

/-- A state in which one slot has got a new variable is as well-formed. -/
theorem WellFormed.of_fresh (h : s.WellFormed) {position n : Nat} {new : Var}
    (hslots : ∀ k, t.stack.varAt? k = if k = position then some new else s.stack.varAt? k)
    (hheight : t.stack.height ≤ t.stack.slots.size) (hname : new.name = .stackVar n)
    (hold : s.counter ≤ n) (hcounter : n < t.counter) : t.WellFormed ∧ s.Evolves t := by
  -- No slot of the former state has the new variable.
  have fresh : ∀ k v, s.stack.varAt? k = some v → v.name ≠ new.name := by
    intro k v hv heq
    obtain ⟨m, hm, hv⟩ := h.made k v hv
    rw [hname, hv] at heq
    have := VarName.stackVar.inj heq
    omega
  -- Each fact about slots has a case for the one with the new variable and one for the others.
  refine ⟨⟨hheight, fun k v hv => ?_, fun j k v w hv hw hvw => ?_⟩, by omega, fun k v hv => ?_⟩
  · rw [hslots] at hv
    split at hv
    · obtain rfl := Option.some.inj hv
      exact ⟨n, hcounter, hname⟩
    · obtain ⟨m, hm, hv⟩ := h.made k v hv
      exact ⟨m, by omega, hv⟩
  · rw [hslots] at hv hw
    split at hv
    · obtain rfl := Option.some.inj hv
      split at hw
      · omega
      · exact absurd hvw.symm (fresh k w hw)
    · split at hw
      · obtain rfl := Option.some.inj hw
        exact absurd hvw (fresh j v hv)
      · exact h.distinct j k v w hv hw hvw
  · rw [hslots]
    split
    · exact ⟨new, rfl, .inr ⟨n, hold, hname⟩⟩
    · exact ⟨v, hv, .inl rfl⟩

end State

end MoveBytecode.Lift
