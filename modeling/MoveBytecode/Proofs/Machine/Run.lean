import MoveBytecode.Ir.Basic

/-!
# Machines

A machine is a step function on states; `runFor` takes a number of steps. Two machines that work on the
same values match when they both go on in related states, or both have left in the same way.
`matches_runFor` lifts a simulation of single steps to runs: each step of the first machine may be any
number of steps of the second, also none, and `exists_runFor_of_matches` turns that around, as the
second machine cannot rest for ever.
-/

namespace MoveBytecode

/-- Values, operations on them, and what operations without a translation yield: the results of the
instruction at an address, by number, from the values that it reads. -/
structure Interpretation (V : Type) where
  number : Int → V
  truth : V → Bool
  negate : V → V
  combine : Operator → V → V → V
  result : (address : Int) → List V → Nat → V
  truth_negate : ∀ v, truth (negate v) = !truth v

/-- What a step leads to. -/
inductive Progress (σ V : Type) where
  | goOn (state : σ)
  | returned (values : List V)
  /-- Control has left the last instruction without a return. -/
  | ended
  /-- The step is not defined. -/
  | stuck

namespace Progress

variable {σ τ V : Type}

/-- Two machines are in related states, or have left in the same way; neither is stuck. -/
def Matches (R : σ → τ → Prop) : Progress σ V → Progress τ V → Prop
  | .goOn s, .goOn t => R s t
  | .returned vs, .returned ws => vs = ws
  | .ended, .ended => True
  | _, _ => False

/-- What a machine does from where another has come to. -/
def andThen (p : Progress σ V) (f : σ → Progress σ V) : Progress σ V :=
  match p with
  | .goOn s => f s
  | left => left

end Progress

/-- What `count` steps lead to; a machine that has left stays as it is. -/
def runFor {σ V : Type} (step : σ → Progress σ V) : (count : Nat) → σ → Progress σ V
  | 0, s => .goOn s
  | count + 1, s => (step s).andThen (runFor step count)

open Progress (Matches)

variable {σ τ V : Type} {step : σ → Progress σ V} {step' : τ → Progress τ V}

/-- One more step is made first. -/
theorem runFor_succ (count : Nat) (s : σ) :
    runFor step (count + 1) s = (step s).andThen (runFor step count) := rfl

/-- A run of one step is a step. -/
theorem runFor_one (s : σ) : runFor step 1 s = step s := by
  rw [runFor_succ]
  cases step s with
  | goOn t => rfl
  | returned vs => rfl
  | ended => rfl
  | stuck => rfl

/-- A run is continued by the rest of its steps. -/
theorem runFor_add (m n : Nat) (s : σ) :
    runFor step (m + n) s = (runFor step m s).andThen (runFor step n) := by
  induction m generalizing s with
  | zero =>
    rw [Nat.zero_add]
    rfl
  | succ m ih =>
    rw [Nat.succ_add, runFor_succ, runFor_succ]
    cases step s with
    | goOn t => exact ih t
    | returned vs => rfl
    | ended => rfl
    | stuck => rfl

/-- A machine that has left stays as it is, however many steps it is given. -/
theorem runFor_of_left {m n : Nat} {s : σ} (h : ∀ t, runFor step m s ≠ .goOn t) (hmn : m ≤ n) :
    runFor step n s = runFor step m s := by
  obtain ⟨k, rfl⟩ := Nat.exists_eq_add_of_le hmn
  rw [runFor_add]
  cases hm : runFor step m s with
  | goOn t => exact absurd hm (h t)
  | returned vs => rfl
  | ended => rfl
  | stuck => rfl

/-- A simulation of single steps. `rank` is below `bound` and grows with each step of the first machine
at which the second one rests. -/
structure Simulates (R : σ → τ → Prop) (step : σ → Progress σ V) (step' : τ → Progress τ V)
    (rank : σ → Nat) (bound : Nat) : Prop where
  rank_lt : ∀ s t, R s t → ∀ s', step s = .goOn s' → rank s < bound
  advance : ∀ s t, R s t → ∃ count, Matches R (step s) (runFor step' count t) ∧
    (count = 0 → ∀ s', step s = .goOn s' → rank s' = rank s + 1)

/-- Machines that are related stay in step over runs of any length, and the second one takes more and
more steps. -/
theorem matches_runFor {R : σ → τ → Prop} {rank : σ → Nat} {bound : Nat}
    (h : Simulates R step step' rank bound) (n : Nat) {s : σ} {t : τ} (hst : R s t) :
    ∃ count, Matches R (runFor step n s) (runFor step' count t) ∧
      ∀ s', runFor step n s = .goOn s' → n + rank s ≤ count * bound + rank s' := by
  induction n generalizing s t with
  | zero =>
    refine ⟨0, hst, fun s' hs' => ?_⟩
    obtain rfl : s = s' := by simpa [runFor] using hs'
    omega
  | succ n ih =>
    obtain ⟨first, hfirst, hrest⟩ := h.advance s t hst
    rw [runFor_succ]
    cases hs : step s with
    | goOn s₁ =>
      rw [hs] at hfirst
      cases ht : runFor step' first t with
      | goOn t₁ =>
        rw [ht] at hfirst
        obtain ⟨count, hmatch, hcount⟩ := ih hfirst
        refine ⟨first + count, ?_, fun s' hs' => ?_⟩
        · rw [runFor_add, ht]
          exact hmatch
        · -- A step without a pause pays for `bound` ranks, and a pause adds one to the rank.
          have hlast := hcount s' hs'
          have hlt := h.rank_lt s t hst s₁ hs
          rcases Nat.eq_zero_or_pos first with rfl | hpos
          · rw [hrest rfl s₁ hs] at hlast
            rw [Nat.zero_add]
            omega
          · have : 1 * bound ≤ first * bound := Nat.mul_le_mul_right bound hpos
            rw [Nat.add_mul]
            omega
      | returned vs => simp [ht, Matches] at hfirst
      | ended => simp [ht, Matches] at hfirst
      | stuck => simp [ht, Matches] at hfirst
    | returned vs =>
      rw [hs] at hfirst
      exact ⟨first, hfirst, by simp [Progress.andThen]⟩
    | ended =>
      rw [hs] at hfirst
      exact ⟨first, hfirst, by simp [Progress.andThen]⟩
    | stuck => simp [hs, Matches] at hfirst

/-- However many steps the second machine takes, it can be given more so that it is in step with the
first. -/
theorem exists_runFor_of_matches {R : σ → τ → Prop} {rank : σ → Nat} {bound : Nat}
    (h : Simulates R step step' rank bound) (hbound : ∀ s t, R s t → rank s ≤ bound) (k : Nat)
    {s : σ} {t : τ} (hst : R s t) :
    ∃ n count, k ≤ count ∧ Matches R (runFor step n s) (runFor step' count t) := by
  -- In so many steps of the first machine the second one cannot have rested all the time.
  obtain ⟨count, hmatch, hcount⟩ := matches_runFor h (k * bound + 1) hst
  cases hn : runFor step (k * bound + 1) s with
  | goOn s' =>
    rw [hn] at hmatch
    cases ht : runFor step' count t with
    | goOn t' =>
      rw [ht] at hmatch
      have hrank := hbound s' t' hmatch
      have hlast := hcount s' hn
      have hlt : k * bound < (count + 1) * bound := by
        rw [Nat.add_mul]
        omega
      have hle : k < count + 1 := Nat.lt_of_mul_lt_mul_right hlt
      refine ⟨k * bound + 1, count, by omega, ?_⟩
      rw [hn, ht]
      exact hmatch
    | returned vs => simp [ht, Matches] at hmatch
    | ended => simp [ht, Matches] at hmatch
    | stuck => simp [ht, Matches] at hmatch
  | returned vs =>
    -- The second machine has left as well, and stays so.
    have hleft : ∀ t', runFor step' count t ≠ .goOn t' := by
      intro t' ht'
      simp [hn, ht', Matches] at hmatch
    refine ⟨k * bound + 1, max k count, Nat.le_max_left _ _, ?_⟩
    rw [runFor_of_left hleft (Nat.le_max_right _ _)]
    exact hmatch
  | ended =>
    have hleft : ∀ t', runFor step' count t ≠ .goOn t' := by
      intro t' ht'
      simp [hn, ht', Matches] at hmatch
    refine ⟨k * bound + 1, max k count, Nat.le_max_left _ _, ?_⟩
    rw [runFor_of_left hleft (Nat.le_max_right _ _)]
    exact hmatch
  | stuck => simp [hn, Matches] at hmatch

end MoveBytecode
