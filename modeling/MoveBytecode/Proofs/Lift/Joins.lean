import MoveBytecode.Proofs.Format.Assembly
import MoveBytecode.Proofs.Lift.Conversion

/-!
# Variables at joins

A value that one block leaves on the stack is read by the next block from the variable that is in its
slot when that block is lifted. The two are the same exactly if no block that was lifted in between has
put another variable there: the blocks behind the first one, for an edge that goes on, and the blocks
of the loop, for an edge that goes back. A slot never gets an earlier variable again, so nothing in
between can make good what one block did.
-/

namespace MoveBytecode

namespace Lift

/-- The slot has the same variable when the block is started and when it is finished. -/
def Visit.Preserves (v : Visit) (slot : Nat) : Prop :=
  v.entry.stack.varAt? slot = v.exit.stack.varAt? slot

/-- Block `j` is lifted after block `a` is finished and before block `b` is started, or, if `b` does not
come after `a`, from the start of `b` to the end of `a`. -/
def Between (a b j : Nat) : Prop := if a < b then a < j ∧ j < b else b ≤ j ∧ j ≤ a

/-- Visits one after the other: the stack evolves within each and from each to the next, and starting a
block leaves the slots that exist as they are. -/
structure Consecutive (vs : List Visit) : Prop where
  entry : ∀ (i : Nat) (v : Visit), vs[i]? = some v → v.entry.WellFormed
  exit : ∀ (i : Nat) (v : Visit), vs[i]? = some v → v.exit.WellFormed ∧ v.entry.Evolves v.exit
  next : ∀ (i : Nat) (u v : Visit), vs[i]? = some u → vs[i + 1]? = some v → u.exit.Evolves v.entry ∧
    ∀ k x, u.exit.stack.varAt? k = some x → v.entry.stack.varAt? k = some x

/-- The visits of blocks from a well-formed state follow each other. -/
theorem consecutive_visits (f : Frame) (blocks : List Block) {s : State} (hs : s.WellFormed) :
    Consecutive (visits f s blocks) := by
  induction blocks generalizing s with
  | nil => exact ⟨by simp [visits], by simp [visits], by simp [visits]⟩
  | cons b rest ih =>
    obtain ⟨⟨hentry, -⟩, -, hexit, hevolves⟩ := visit_spec f b hs
    obtain ⟨hentries, hexits, hnext⟩ := ih hexit
    refine ⟨fun i v hv => ?_, fun i v hv => ?_, fun i u v hu hv => ?_⟩
    · cases i with
      | zero =>
        obtain rfl := Option.some.inj hv
        exact hentry
      | succ i => exact hentries i v hv
    · cases i with
      | zero =>
        obtain rfl := Option.some.inj hv
        exact ⟨hexit, hevolves⟩
      | succ i => exact hexits i v hv
    · -- Only the first pair of visits is new, and only if there is a second block.
      cases i with
      | succ i => exact hnext i u v hu hv
      | zero =>
        obtain rfl := Option.some.inj hu
        cases rest with
        | nil => simp [visits] at hv
        | cons c rest =>
          obtain rfl := Option.some.inj hv
          obtain ⟨⟨-, hstep⟩, hslots, -⟩ := visit_spec f c hexit
          exact ⟨hstep, hslots⟩

namespace Consecutive

variable {vs : List Visit} {a b k : Nat} {u v : Visit} {x : Var}

/-- The visit at a place in front of one that is there. -/
theorem exists_of_le (hv : vs[b]? = some v) (hab : a ≤ b) : ∃ w, vs[a]? = some w := by
  have hb := (List.getElem?_eq_some_iff.mp hv).1
  exact ⟨vs[a], List.getElem?_eq_getElem (by omega)⟩

/-- The stack evolves from the end of a visit to the start of every later one. -/
theorem evolves_exit_entry (h : Consecutive vs) (hu : vs[a]? = some u) (hv : vs[b]? = some v)
    (hab : a < b) : u.exit.Evolves v.entry := by
  induction b generalizing v with
  | zero => omega
  | succ b ih =>
    obtain ⟨w, hw⟩ := exists_of_le hv (Nat.le_succ b)
    obtain ⟨hnext, -⟩ := h.next b w v hw hv
    rcases Nat.lt_or_eq_of_le (Nat.lt_succ_iff.mp hab) with hlt | rfl
    · exact ((ih hw hlt).trans (h.exit b w hw).2).trans hnext
    · obtain rfl := Option.some.inj (hu.symm.trans hw)
      exact hnext

/-- A variable that block `a` leaves in a slot is there when the later block `b` is started iff all blocks
in between preserve the slot. -/
theorem forward (h : Consecutive vs) (hu : vs[a]? = some u) (hv : vs[b]? = some v) (hab : a < b)
    (hx : u.exit.stack.varAt? k = some x) :
    v.entry.stack.varAt? k = some x ↔
      ∀ (j : Nat) (w : Visit), a < j → j < b → vs[j]? = some w → w.Preserves k := by
  have hwf := (h.exit a u hu).1
  constructor
  · -- The variable is there at both ends, and a slot never gets an earlier variable again.
    intro hvx j w haj hjb hw
    have hin := h.evolves_exit_entry hu hw haj
    have hout := h.evolves_exit_entry hw hv hjb
    have hwithin := (h.exit j w hw).2
    have hentry := State.Evolves.eq_of_eq hwf hin (hwithin.trans hout) hx hvx
    have hexit := State.Evolves.eq_of_eq hwf (hin.trans hwithin) hout hx hvx
    exact hentry.trans hexit.symm
  · intro hkeep
    induction b generalizing v with
    | zero => omega
    | succ b ih =>
      obtain ⟨w, hw⟩ := exists_of_le hv (Nat.le_succ b)
      have hnext := (h.next b w v hw hv).2
      rcases Nat.lt_or_eq_of_le (Nat.lt_succ_iff.mp hab) with hlt | rfl
      · have hentry := ih hw hlt fun j w' haj hjb => hkeep j w' haj (Nat.lt_succ_of_lt hjb)
        have hexit := (hkeep b w hlt (Nat.lt_succ_self b) hw).symm.trans hentry
        exact hnext k x hexit
      · obtain rfl := Option.some.inj (hu.symm.trans hw)
        exact hnext k x hx

/-- A variable that is in a slot when block `b` is started is there when the later block `a` is finished
iff all blocks from `b` to `a` preserve the slot. -/
theorem backward (h : Consecutive vs) (hu : vs[a]? = some u) (hv : vs[b]? = some v) (hba : b ≤ a)
    (hx : v.entry.stack.varAt? k = some x) :
    u.exit.stack.varAt? k = some x ↔
      ∀ (j : Nat) (w : Visit), b ≤ j → j ≤ a → vs[j]? = some w → w.Preserves k := by
  have hwf := h.entry b v hv
  constructor
  · -- As in the other direction, with the visits at both ends among those in question.
    intro hux j w hbj hja hw
    have hwithin := (h.exit j w hw).2
    have hin : v.entry.Evolves w.entry := by
      rcases Nat.lt_or_eq_of_le hbj with hlt | rfl
      · exact (h.exit b v hv).2.trans (h.evolves_exit_entry hv hw hlt)
      · obtain rfl := Option.some.inj (hv.symm.trans hw)
        exact .refl _
    have hout : w.exit.Evolves u.exit := by
      rcases Nat.lt_or_eq_of_le hja with hlt | rfl
      · exact (h.evolves_exit_entry hw hu hlt).trans (h.exit a u hu).2
      · obtain rfl := Option.some.inj (hu.symm.trans hw)
        exact .refl _
    have hentry := State.Evolves.eq_of_eq hwf hin (hwithin.trans hout) hx hux
    have hexit := State.Evolves.eq_of_eq hwf (hin.trans hwithin) hout hx hux
    exact hentry.trans hexit.symm
  · intro hkeep
    induction a generalizing u with
    | zero =>
      obtain rfl : b = 0 := by omega
      obtain rfl := Option.some.inj (hu.symm.trans hv)
      exact (hkeep 0 u (Nat.le_refl 0) (Nat.le_refl 0) hu).symm.trans hx
    | succ a ih =>
      have hself := hkeep (a + 1) u hba (Nat.le_refl _) hu
      rcases Nat.lt_or_eq_of_le hba with hlt | rfl
      · obtain ⟨w, hw⟩ := exists_of_le hu (Nat.le_succ a)
        have hexit := ih hw (Nat.lt_succ_iff.mp hlt) fun j w' hbj hja =>
          hkeep j w' hbj (Nat.le_succ_of_le hja)
        exact hself.symm.trans ((h.next a w u hw hu).2 k x hexit)
      · obtain rfl := Option.some.inj (hu.symm.trans hv)
        exact hself.symm.trans hx

end Consecutive

/-- A block that is lifted to its end leaves the stack as high as the listing says. -/
theorem Visit.Completed.length_exit {frame : Frame} {b : Body.Frame} {data : Bytes} {base : Nat}
    {v : Visit} {steps : List Step} {before after : List Instruction} {last : Instruction}
    (h : v.Completed frame steps) (hb : Agrees frame b)
    (hscan : Body.Scanned b data base (before ++ v.block.instructions ++ after))
    (hlast : v.block.instructions.getLast? = some last) :
    v.exit.stack.vars.length = last.depthAfter := by
  have hinstructions := h.map_instruction
  obtain ⟨first, hfirst⟩ : ∃ first, v.block.instructions.head? = some first := by
    cases hlist : v.block.instructions with
    | nil => simp [hlist] at hlast
    | cons first rest => exact ⟨first, rfl⟩
  obtain ⟨rest, hcons⟩ := List.head?_eq_some_iff.mp hfirst
  have hentry : v.entry.stack.vars.length = Instruction.depthBehind before := by
    have hlisted := hscan before first (rest ++ after) (by rw [hcons]; simp)
    obtain ⟨address, hplaced⟩ := Block.head?_placed hfirst
    rw [← hlisted.depthBefore]
    exact h.height ⟨address, first⟩ hplaced
  obtain ⟨hexit, -⟩ := length_of_linked hb (hinstructions ▸ hscan) h.yields h.linked hentry
  rw [hexit, hinstructions, Instruction.depthBehind, List.getLast?_append, hlast]
  rfl

end Lift

open Lift

namespace Converter

variable {c : Converter} {w w' : Workspace} {l : Lifted} {frame : Frame} {s : State}

/-- The visits of a lift follow each other. -/
theorem Lifts.consecutive (h : c.Lifts w l frame s) : Consecutive (c.visits l.function w) := by
  rw [h.visits]
  exact consecutive_visits frame _ h.wellFormed

/-- Let block `a` be lifted to its end with a stack that is as high as block `b` expects it, as along
every edge where the depths of the listing agree. The variable that `a` leaves in a slot is the one that
`b` finds there iff all blocks that are lifted in between preserve the slot. -/
theorem slot_agrees_iff {config : Config} {data : Bytes} {target : RoutineRef}
    (hload : Module.Loads config data c.owner) (hlift : Runs (c.lift target) w l w') {a b : Nat}
    {u v : Visit} (hu : (c.visits l.function w)[a]? = some u)
    (hv : (c.visits l.function w)[b]? = some v)
    (hdone : ∀ reason, (u.block.label, reason) ∉ l.failed) {last first : Instruction}
    (hlast : u.block.instructions.getLast? = some last)
    (hfirst : v.block.instructions.head? = some first)
    (hdepth : last.depthAfter = first.depthBefore) {k : Nat} (hk : k < first.depthBefore) :
    ∃ x y, u.exit.stack.varAt? k = some x ∧ v.entry.stack.varAt? k = some y ∧
      (x = y ↔ ∀ (j : Nat) (z : Visit), Between a b j →
        (c.visits l.function w)[j]? = some z → z.Preserves k) := by
  obtain ⟨frame, s, h⟩ := runs_lift hlift
  obtain ⟨b', -, hagrees, hsound⟩ := h.sound hload
  have hvs := h.consecutive
  obtain ⟨t, hblocks⟩ := h.blocks
  obtain ⟨-, hvisits⟩ := visits_of_runs h.wellFormed hblocks
  have hmem : ∀ {i : Nat} {z : Visit}, (c.visits l.function w)[i]? = some z →
      z ∈ Lift.visits frame s (Graph.ofFunction l.function).blocks := by
    intro i z hz
    rw [← h.visits]
    exact List.mem_of_getElem? hz
  -- Both slots hold values, as the stack is as high as the listing says in both states.
  have hexit : u.exit.stack.vars.length = last.depthAfter := by
    obtain ⟨-, hcompleted | ⟨reason, hreason⟩⟩ := hvisits u (hmem hu)
    · obtain ⟨steps, hcompleted⟩ := hcompleted
      obtain ⟨before, after, hsplit⟩ := Graph.exists_split
        (block_of_mem_visits (hmem hu))
      exact hcompleted.length_exit hagrees (hsplit ▸ hsound.scanned) hlast
    · exact absurd (by simpa using hreason) (hdone reason)
  have hentry : v.entry.stack.vars.length = first.depthBefore := by
    obtain ⟨address, hplaced⟩ := Block.head?_placed hfirst
    exact (hvisits v (hmem hv)).1 ⟨address, first⟩ hplaced
  have hexitWf := (hvs.exit a u hu).1
  have hentryWf := hvs.entry b v hv
  rw [OperandStack.length_vars hexitWf.height_le] at hexit
  rw [OperandStack.length_vars hentryWf.height_le] at hentry
  obtain ⟨x, hx⟩ := u.exit.stack.isSome_varAt? (k := k) (by have := hexitWf.height_le; omega)
  obtain ⟨y, hy⟩ := v.entry.stack.isSome_varAt? (k := k) (by have := hentryWf.height_le; omega)
  refine ⟨x, y, hx, hy, ?_⟩
  -- The blocks in between stand behind the first one, or, in a loop, from its start to its end.
  unfold Between
  by_cases hab : a < b
  · have hiff := hvs.forward hu hv hab hx
    rw [hy, Option.some.injEq] at hiff
    simp only [if_pos hab, and_imp]
    rw [← hiff]
    exact eq_comm
  · have hiff := hvs.backward hu hv (Nat.le_of_not_lt hab) hy
    rw [hx, Option.some.injEq] at hiff
    simp only [if_neg hab, and_imp]
    exact hiff

/-- A script with a branch over a block that replaces the variable of the value below: `LD_CONST 1`,
`LD_TRUE`, `BR_TRUE 7`, `POP`, `LD_TRUE`, `LD_CONST 3`, `RET` and, as the target, `RET`. -/
def joinSample : Bytes :=
  Format.assemble .libra [
    ⟨.moduleHandles, [0, 0]⟩, ⟨.functionHandles, [0, 1, 0]⟩, ⟨.addressPool, List.replicate 32 0⟩,
    ⟨.stringPool, [6, 0x3C, 0x53, 0x45, 0x4C, 0x46, 0x3E, 1, 0x66]⟩,
    ⟨.functionSignatures, [2, 1, 2, 0]⟩, ⟨.localSignatures, [3, 0]⟩,
    ⟨.main,
      [0, 0, 0, 0, 8, 0] ++
        [0x06, 1, 0, 0, 0, 0, 0, 0, 0] ++ [0x09] ++ [0x03, 7, 0] ++
        [0x01] ++ [0x09] ++ [0x06, 3, 0, 0, 0, 0, 0, 0, 0] ++ [0x02] ++
        [0x02]⟩]

/-- The branch of the sample is an edge of depth 1 over a block, at which the variables differ. -/
theorem joinSample_lifted : ∃ (m : Module) (h : Host) (l : Lifted) (w' : Workspace) (u v : Visit)
    (last first : Instruction),
    Module.loadInto .standard joinSample .new = .ok (m, h) ∧
    Runs ((Converter.mk m []).lift (.hosted 0)) (.ofHost h) l w' ∧ l.failed = [] ∧
    ((Converter.mk m []).visits l.function (.ofHost h))[0]? = some u ∧
    ((Converter.mk m []).visits l.function (.ofHost h))[2]? = some v ∧
    v.block.label ∈ u.block.successors ∧ u.block.instructions.getLast? = some last ∧
    v.block.instructions.head? = some first ∧ last.depthAfter = 1 ∧ first.depthBefore = 1 ∧
    u.exit.stack.varAt? 0 ≠ v.entry.stack.varAt? 0 := by
  have check : liftPasses joinSample (fun m h l =>
      let visits := (Converter.mk m []).visits l.function (.ofHost h)
      visits[0]?.any fun u => visits[2]?.any fun v =>
        u.block.instructions.getLast?.any fun last => v.block.instructions.head?.any fun first =>
          decide (l.failed = [] ∧ v.block.label ∈ u.block.successors ∧ last.depthAfter = 1 ∧
            first.depthBefore = 1 ∧ u.exit.stack.varAt? 0 ≠ v.entry.stack.varAt? 0)) = true := by
    decide +kernel
  obtain ⟨m, h, l, w', hload, hlift, hcheck⟩ := exists_of_liftPasses check
  simp only [Option.any_eq_true, decide_eq_true_eq] at hcheck
  obtain ⟨u, hu, v, hv, last, hlast, first, hfirst, hfailed, hedge, hafter, hbefore, hdiffer⟩ :=
    hcheck
  exact ⟨m, h, l, w', u, v, last, first, hload, hlift, hfailed, hu, hv, hedge, hlast, hfirst, hafter,
    hbefore, hdiffer⟩

/-- In this script the target of the branch starts with another variable in a slot than the branch left
there, and a block in between does not preserve the slot. -/
theorem joinSample_slot : ∃ (m : Module) (h : Host) (l : Lifted) (w' : Workspace) (u v : Visit)
    (x y : Var),
    Module.Loads .standard joinSample m ∧
    Runs ((Converter.mk m []).lift (.hosted 0)) (.ofHost h) l w' ∧
    u.exit.stack.varAt? 0 = some x ∧ v.entry.stack.varAt? 0 = some y ∧ x ≠ y ∧
      (x = y ↔ ∀ (j : Nat) (z : Visit), Between 0 2 j →
        ((Converter.mk m []).visits l.function (.ofHost h))[j]? = some z → z.Preserves 0) := by
  obtain ⟨m, h, l, w', u, v, last, first, hload, hlift, hfailed, hu, hv, -, hlast, hfirst, hafter,
    hbefore, hdiffer⟩ := joinSample_lifted
  have hloads : Module.Loads .standard joinSample m := .inr ⟨.new, h, hload⟩
  obtain ⟨x, y, hx, hy, hiff⟩ := slot_agrees_iff hloads hlift hu hv (by simp [hfailed]) hlast hfirst
    (hafter.trans hbefore.symm) (hbefore ▸ Nat.zero_lt_one)
  refine ⟨m, h, l, w', u, v, x, y, hloads, hlift, hx, hy, ?_, hiff⟩
  rintro rfl
  exact hdiffer (hx.trans hy.symm)

/-- The variables do not agree along every edge at which the depths of the listing do. -/
theorem not_forall_slot_agrees : ¬ ∀ (config : Config) (data : Bytes) (c : Converter)
    (target : RoutineRef) (w w' : Workspace) (l : Lifted) (a b : Nat) (u v : Visit)
    (last first : Instruction) (k : Nat),
    Module.Loads config data c.owner → Runs (c.lift target) w l w' → l.failed = [] →
    (c.visits l.function w)[a]? = some u → (c.visits l.function w)[b]? = some v →
    v.block.label ∈ u.block.successors → u.block.instructions.getLast? = some last →
    v.block.instructions.head? = some first → last.depthAfter = first.depthBefore →
    k < first.depthBefore → u.exit.stack.varAt? k = v.entry.stack.varAt? k := by
  intro hall
  obtain ⟨m, h, l, w', u, v, last, first, hload, hlift, hfailed, hu, hv, hedge, hlast, hfirst, hafter,
    hbefore, hdiffer⟩ := joinSample_lifted
  exact hdiffer (hall .standard joinSample ⟨m, []⟩ (.hosted 0) (.ofHost h) w' l 0 2 u v last first 0
    (.inr ⟨.new, h, hload⟩) hlift hfailed hu hv hedge hlast hfirst (hafter.trans hbefore.symm)
    (hbefore ▸ Nat.zero_lt_one))

end Converter

end MoveBytecode
