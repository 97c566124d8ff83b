import MoveBytecode.Proofs.Lift.Failures
import MoveBytecode.Proofs.Lift.Joins
import MoveBytecode.Proofs.Lift.Numbering

/-!
# Lifts in step with the listing

The symbolic stack is as high as the listing says before and behind every instruction that is lowered, so
every block finds the stack as high as it expects it: entering it changes nothing, and a lift is one run
over the whole listing. Over that run the statements read no stack variable that was not written before,
and the variables are written for the first time in the order of their numbers.
-/

namespace MoveBytecode

namespace Lift

/-! ## Entering blocks -/

/-- A block that a lift comes to, and the state in which it is entered. -/
structure Arrival where
  block : Block
  state : State

/-- The blocks that a lift comes to, up to the first that is not lifted to its end. -/
def arrivals (f : Frame) : List Block → State → List Arrival
  | [], _ => []
  | b :: rest, s =>
    ⟨b, s⟩ ::
      match outcome (liftBlock f b #[]) s with
      | (.ok _, t) => arrivals f rest t
      | (.error _, _) => []

/-- There are as many slots as the block expects, and entering it changes nothing. -/
def Arrival.EntersAsIs (a : Arrival) : Prop :=
  ∀ first ∈ a.block.placed.head?, first.instruction.depthBefore ≤ a.state.stack.slots.size ∧
    Runs (enterBlock first.instruction.depthBefore) a.state () a.state

/-- The stack is as high as the listing says before an instruction, and behind it if it was lowered
without a fault. -/
def Lowering.KeepsDepth (f : Frame) (low : Lowering) : Prop :=
  low.before.stack.height = low.placed.instruction.depthBefore ∧
    ∀ step, Runs (lowerAt f low.placed) low.before step low.after →
      low.after.stack.height = low.placed.instruction.depthAfter

section

variable {f : Frame} {b : Body.Frame} {data : Bytes} {base : Nat} {before after : List Instruction}
  {s : State} (hb : Agrees f b)

include hb

/-- Instructions one after the other keep the depths of the listing. -/
theorem keepsDepth_of_mem_lowerings {ps : List Placed} (hs : s.WellFormed)
    (hscan : Body.Scanned b data base (before ++ ps.map (·.instruction) ++ after))
    (hheight : s.stack.vars.length = Instruction.depthBehind before) :
    ∀ low ∈ lowerings f ps s, low.KeepsDepth f := by
  induction ps generalizing before s with
  | nil => exact fun _ hlow => absurd hlow List.not_mem_nil
  | cons p rest ih =>
    have hlisted := hscan before p.instruction (rest.map (·.instruction) ++ after) (by simp)
    -- The depths around the first instruction, whether or not it is lowered without a fault.
    have hfirst : ∀ t, Lowering.KeepsDepth f ⟨p, s, t⟩ := by
      refine fun t => ⟨?_, fun step hrun => ?_⟩
      · rw [hlisted.depthBefore, ← hheight, OperandStack.length_vars hs.height_le]
      · have hyields := yields_of_runs hs hrun
        rw [← OperandStack.length_vars hyields.after.height_le,
          hyields.length_after hb hlisted hheight, Instruction.depthBehind_concat]
    rw [lowerings]
    rcases hout : outcome (lowerAt f p) s with ⟨fault | step, t⟩
    · exact List.forall_mem_singleton.mpr (hfirst t)
    · have hyields := yields_of_runs hs hout
      exact List.forall_mem_cons.mpr ⟨hfirst t, ih hyields.after (by simpa using hscan)
        (hyields.length_after hb hlisted hheight)⟩

/-- Blocks that follow the listing are entered without a change, and their instructions keep its
depths. -/
theorem keepsDepth_of_mem_attempts {blocks : List Block} (hne : ∀ c ∈ blocks, c.placed ≠ [])
    (hs : s.WellFormed)
    (hscan : Body.Scanned b data base (before ++ blocks.flatMap (·.instructions) ++ after))
    (hheight : s.stack.vars.length = Instruction.depthBehind before) :
    (∀ low ∈ attempts f blocks s, low.KeepsDepth f) ∧ ∀ a ∈ arrivals f blocks s, a.EntersAsIs := by
  induction blocks generalizing before s with
  | nil => exact ⟨fun _ h => absurd h List.not_mem_nil, fun _ h => absurd h List.not_mem_nil⟩
  | cons c rest ih =>
    obtain ⟨hcne, hrest⟩ := List.forall_mem_cons.mp hne
    obtain ⟨first, others, hplaced⟩ := List.exists_cons_of_ne_nil hcne
    -- The listing in front of the block grows by the block, so that the induction is on all blocks behind it.
    have hblockScan : Body.Scanned b data base (before ++ c.placed.map (·.instruction) ++
        (rest.flatMap (·.instructions) ++ after)) := by
      simpa [Block.map_instruction_placed] using hscan
    have hdepth := height_of_scanned hs hplaced hblockScan hheight
    obtain ⟨hsame, hentered⟩ := outcome_liftBlock_of_height hs hplaced hdepth #[]
    have hlows : ∀ low ∈ (visit f s c).lowerings, low.KeepsDepth f := by
      rw [visit, hentered]
      exact keepsDepth_of_mem_lowerings hb hs hblockScan hheight
    have harrival : Arrival.EntersAsIs ⟨c, s⟩ := by
      intro first' hfirst'
      obtain rfl : first = first' := by simpa [hplaced] using hfirst'
      exact ⟨hdepth ▸ hs.height_le, runs_enterBlock_of_height hs hdepth⟩
    rw [attempts, arrivals]
    -- Where the block fails, the lift comes to nothing behind it.
    rcases hblock : outcome (liftBlock f c #[]) s with ⟨fault | steps, t⟩
    · exact ⟨by simpa using hlows, List.forall_mem_singleton.mpr harrival⟩
    · rw [hsame] at hblock
      have ht : t.WellFormed := (keeps_lowerAll f c.placed #[] s _ t hblock hs).1
      have hreached := length_of_runs_lowerAll hb hs hblockScan hheight hblock
      obtain ⟨hattempts, harrivals⟩ := ih hrest ht
        (by simpa [Block.map_instruction_placed] using hscan) hreached
      exact ⟨List.forall_mem_append.mpr ⟨hlows, hattempts⟩,
        List.forall_mem_cons.mpr ⟨harrival, harrivals⟩⟩

end

/-! ## What is written -/

/-- A list without duplicates stays as it is when its repetitions are dropped. -/
theorem eraseDups_of_nodup {l : List Nat} (h : l.Nodup) : l.eraseDups = l := by
  induction l with
  | nil => rfl
  | cons n rest ih =>
    obtain ⟨hn, hrest⟩ := List.nodup_cons.mp h
    have hfilter : rest.filter (fun k => !k == n) = rest := by
      rw [List.filter_eq_self]
      intro k hk
      simpa using ne_of_mem_of_not_mem hk hn
    rw [List.eraseDups_cons, hfilter, ih hrest]

/-- What is added to the numbers below `c` starts with `c` and goes on in order, where it is new. -/
theorem eraseDups_append_of_filter {known new : List Nat} {c count : Nat}
    (hknown : known.eraseDups = List.range c)
    (hnew : new.filter (c ≤ ·) = List.range' c count) :
    (known ++ new).eraseDups = List.range (c + count) := by
  have hmem : ∀ n, n ∈ known ↔ n < c := by
    intro n
    rw [← List.mem_eraseDups, hknown, List.mem_range]
  have hremoved : new.removeAll known = List.range' c count := by
    rw [← hnew]
    refine List.filter_congr fun n _ => ?_
    rw [Bool.eq_iff_iff]
    simp [hmem]
  have hrange : List.range' 0 c ++ List.range' (0 + c) count = List.range' 0 (c + count) :=
    List.range'_append_1
  rw [List.eraseDups_append, hknown, hremoved, eraseDups_of_nodup List.nodup_range',
    List.range_eq_range', List.range_eq_range', ← hrange, Nat.zero_add]

section

variable {f : Frame} (hf : f.NamesLocals) {s t : State}

include hf

/-- An instruction reads variables that were made before, and it writes those that it makes in the order
of their numbers. -/
theorem numbers_of_lowerAt {p : Placed} {step : Step} (hs : s.WellFormed)
    (h : Runs (lowerAt f p) s step t) :
    (∀ statement ∈ step.statements, ∀ n ∈ stackNumbers statement.reads, n < s.counter) ∧
      s.counter ≤ t.counter ∧ (written step.statements).filter (s.counter ≤ ·) =
        List.range' s.counter (t.counter - s.counter) := by
  obtain ⟨-, u, hlower, hsame⟩ := runs_lowerAt h
  obtain ⟨rest, ins, outs, hins, houts, htable, -⟩ := lower_spec hs hlower
  have hnumbered := numberedFrom_of_runs hs hlower
  rw [counter_of_outlook hsame]
  refine ⟨fun statement hstatement n hn => ?_, hnumbered.le, ?_⟩
  · refine hs.lt_of_mem_stackNumbers ?_
    rw [hins, stackNumbers_append]
    exact List.mem_append_right _ (htable.reads_subset hf hstatement hn)
  · -- The values below those that are taken have older variables.
    have hrest : (stackNumbers rest).filter (s.counter ≤ ·) = [] := by
      rw [List.filter_eq_nil_iff]
      intro n hn
      have : n < s.counter := hs.lt_of_mem_stackNumbers (by
        rw [hins, stackNumbers_append]
        exact List.mem_append_left _ hn)
      simp only [decide_eq_true_eq]
      omega
    have hnumbers := hnumbered.numbers
    rw [houts, stackNumbers_append, List.filter_append, hrest, List.nil_append] at hnumbers
    rw [htable.written_eq hf]
    exact hnumbers

/-- Over instructions one after the other, no variable is read that was not written before, and those that
are written are the ones below the counter, for the first time in the order of their numbers. -/
theorem numbers_of_lowerAll {ps : List Placed} {done steps : Array Step} {known : List Nat}
    (hs : s.WellFormed) (hknown : known.eraseDups = List.range s.counter)
    (h : Runs (lowerAll f ps done) s steps t) :
    ∃ new, steps.toList = done.toList ++ new ∧
      (known ++ written (new.flatMap (·.statements))).eraseDups = List.range t.counter ∧
      ∀ k statement, (new.flatMap (·.statements))[k]? = some statement →
        stackNumbers statement.reads ⊆
          known ++ written ((new.flatMap (·.statements)).take k) := by
  -- The variables that are known are always those below the counter of the state that is reached.
  induction ps generalizing done known s with
  | nil =>
    obtain ⟨rfl, rfl⟩ := runs_pure.mp h
    exact ⟨[], (List.append_nil _).symm, by simpa [written] using hknown, by simp⟩
  | cons p rest ih =>
    obtain ⟨step, u, hstep, h⟩ := runs_bind.mp h
    obtain ⟨hreads, hle, hwritten⟩ := numbers_of_lowerAt hf hs hstep
    have hu : u.WellFormed := (keeps_lowerAt f p s _ u hstep hs).1
    have hknown' : (known ++ written step.statements).eraseDups = List.range u.counter := by
      rw [eraseDups_append_of_filter hknown hwritten, Nat.add_sub_cancel' hle]
    obtain ⟨new, hnew, hall, hrest⟩ := ih hu hknown' h
    refine ⟨step :: new, by rw [hnew]; simp, by simpa using hall, fun k statement hk n hn => ?_⟩
    rw [List.flatMap_cons, List.getElem?_append] at hk
    rw [List.flatMap_cons, List.take_append]
    split at hk
    · -- What the instruction reads was made before, so it was written before.
      have hlt := hreads statement (List.mem_of_getElem? hk) n hn
      rw [← List.mem_range, ← hknown, List.mem_eraseDups] at hlt
      exact List.mem_append_left _ hlt
    · rename_i hlength
      rw [List.take_of_length_le (Nat.le_of_not_lt hlength), written_append, ← List.append_assoc]
      exact hrest _ statement hk hn

end

/-! ## Names in use -/

/-- Lowering instructions leaves the stack variables numbered below the counter. -/
theorem named_of_lowerAll {f : Frame} {ps : List Placed} {done steps : Array Step} {s t : State}
    (h : Runs (lowerAll f ps done) s steps t) (hs : s.Named) : t.Named := by
  induction ps generalizing done s with
  | nil =>
    obtain ⟨-, rfl⟩ := runs_pure.mp h
    exact hs
  | cons p rest ih =>
    obtain ⟨step, u, hstep, h⟩ := runs_bind.mp h
    obtain ⟨-, v, hlower, hsame⟩ := runs_lowerAt hstep
    have hv : v.Named := (composes_named f.owner).lower rfl _ _ s _ v hlower hs
    refine ih h (hv.congr ?_)
    rw [State.names, State.names, scope_of_outlook hsame, counter_of_outlook hsame]

/-- Declaring the variables of locals makes no stack variables. -/
theorem leaves_names_declareLocals (m : Module) (index : Nat) (tokens : List Token) :
    Leaves State.names (declareLocals m index tokens) := by
  induction tokens generalizing index with
  | nil => exact leaves_pure _
  | cons token rest ih =>
    exact (leaves_names_onHost _).bind fun _ => (leaves_names_declare _ _ _).bind fun _ =>
      (ih _).bind fun _ => leaves_pure _

/-- Finding the variables of parameters makes no stack variables. -/
theorem leaves_names_paramVars (f : Frame) (index : Nat) (tokens : List Token) :
    Leaves State.names (paramVars f index tokens) := by
  induction tokens generalizing index with
  | nil => exact leaves_pure _
  | cons token rest ih =>
    refine Leaves.bind (leaves_get.bind fun s => ?_) fun _ => (ih _).bind fun _ => leaves_pure _
    split
    · exact leaves_pure _
    · exact (leaves_names_onHost _).bind fun _ => leaves_names_declare _ _ _

/-- A function is opened without stack variables. -/
theorem names_of_openFunction {m : Module} {removed : List Opcode} {f : Entry FunctionDef}
    {frame : Frame} {s t : State} (h : Runs (openFunction m removed f) s frame t) :
    t.names = (fun _ => false, 0) := by
  simp only [openFunction, runs_bind, runs_modify, runs_ofExcept, runs_pure] at h
  obtain ⟨_, _, rfl, tokens, _, ⟨-, rfl⟩, locals, u, hlocals, rfl, rfl⟩ := h
  rw [(leaves_names_declareLocals m 0 tokens).of_runs hlocals]
  refine Prod.ext (funext fun n => ?_) rfl
  simp only [State.names, Scope.contains_setRegister]
  simp [programCounter, stackPointer, Scope.empty, Scope.contains]

/-! ## Routines -/

/-- The statements of a routine read no stack variable that was not written before, each stack variable
in the scope is written, and the stack variables are written for the first time in the order of their
numbers, without a gap. -/
structure Lifted.WritesInOrder (l : Lifted) : Prop where
  reads : ∀ k statement, l.statements[k]? = some statement →
    stackNumbers statement.reads ⊆ written (l.statements.take k)
  scope : ∀ n, l.scope.contains (.stackVar n) = true ↔ n ∈ written l.statements
  order : ∃ count, (written l.statements).eraseDups = List.range count

end Lift

open Lift

namespace Converter

variable {m : Module} {config : Config} {data : Bytes} (hload : Module.Loads config data m)

include hload

/-- A function is opened at the start of its listing: with an empty stack, in front of blocks that are the
listing. -/
theorem start_of_opened {f : Entry FunctionDef} (hf : f ∈ m.internalFunctions) {w : Workspace}
    {frame : Frame} {s : State} (hopened : (Converter.mk m []).opened f w = (.ok frame, s)) :
    ∃ b, Agrees frame b ∧ s.WellFormed ∧ s.stack.vars.length = Instruction.depthBehind [] ∧
      Body.Scanned b m.data f.record.code.start
        ([] ++ (Graph.ofFunction f).blocks.flatMap (·.instructions) ++ []) := by
  obtain ⟨b, -, hagrees, hsound⟩ := sound_of_opened hopened hf hload
  have hstack := (opened_of_runs hopened).stack
  refine ⟨b, hagrees, State.wellFormed_of_empty hstack, ?_, ?_⟩
  · rw [hstack]
    rfl
  · have hinstructions : (Graph.ofFunction f).blocks.flatMap (·.instructions) =
        f.record.code.instructions := Graph.flatMap_instructions_build
    rw [List.nil_append, List.append_nil, hinstructions]
    exact hsound.scanned

/-- A routine that is lifted from a loaded binary writes its variables in order. -/
theorem writesInOrder_of_lift {target : RoutineRef} {w w' : Workspace} {l : Lifted}
    (h : Runs ((Converter.mk m []).lift target) w l w') : l.WritesInOrder := by
  obtain ⟨f, w₁, lifted, v, r, hfound, hassign, hrun, -, rfl⟩ := runs_liftFunction_of_lift h
  obtain ⟨frame, s, u, hopen, ⟨tokens, results, params, types, v', hparams, htypes⟩, hlifted⟩ :=
    runs_liftFunction hrun
  obtain ⟨-, -, hscope, hblocks⟩ := hlifted r
  have hf : f ∈ m.internalFunctions := mem_of_findM? hfound
  have hopened : (Converter.mk m []).opened f w = (.ok frame, s) := by
    rw [opened, show (outcome (assignPrototypes m) w).2 = w₁ from congrArg Prod.snd hassign]
    exact hopen
  -- The lift is one run over the listing, from a state without stack variables.
  obtain ⟨b, hagrees, hs, hheight, hscan⟩ := start_of_opened hload hf hopened
  obtain ⟨hall, -⟩ := runs_lowerAll_of_liftBlocks hagrees hs hscan
    (fun c hc => spares_of_opened hopened hf hload rfl hc) hheight hblocks
  obtain ⟨hnone, hzero⟩ := Prod.mk.inj (names_of_openFunction hopen)
  have hnamed : s.Named := fun n => by
    rw [hzero, congrFun hnone n]
    simp
  have hknown : ([] : List Nat).eraseDups = List.range s.counter := by
    rw [hzero]
    rfl
  have hlocals : frame.NamesLocals := fun _ _ hv => (opened_of_runs hopen).name_of_getElem? hv
  obtain ⟨new, hnew, horder, hreads⟩ := numbers_of_lowerAll hlocals hs hknown hall
  obtain rfl : (lifted r).steps.toList = new := by simpa using hnew
  -- Nothing is done with stack variables behind the blocks.
  have hended : v.names = u.names :=
    ((leaves_mapM (fun _ => leaves_names_onHost _) _).of_runs htypes).trans
      ((leaves_names_paramVars frame 0 tokens).of_runs hparams)
  have hused : v.Named := (named_of_lowerAll hall hnamed).congr hended
  have hcounter : v.counter = u.counter := congrArg Prod.snd hended
  refine ⟨hreads, fun n => ?_, u.counter, horder⟩
  rw [hscope, hused n, hcounter, ← List.mem_range, ← horder, List.mem_eraseDups]
  rfl

/-- A lift keeps step with the depths of the listing, whatever has been done with the workspace before:
every instruction that a lift of an internal function comes to is lowered from a stack as high as the
listing says before it, and leaves, if it is lowered without a fault, one as high as the listing says
behind it; and every block that it comes to is entered without a new slot. In the routine that a lift ends
with, no stack variable is read that was not written before, each that is in the scope is written, and
they are written for the first time in the order of their numbers, without a gap. -/
theorem lift_in_lockstep (w : Workspace) :
    (∀ f ∈ m.internalFunctions, ∀ frame s, (Converter.mk m []).opened f w = (.ok frame, s) →
      (∀ low ∈ attempts frame (Graph.ofFunction f).blocks s, low.KeepsDepth frame) ∧
        ∀ a ∈ arrivals frame (Graph.ofFunction f).blocks s, a.EntersAsIs) ∧
      ∀ target l w', Runs ((Converter.mk m []).lift target) w l w' → l.WritesInOrder := by
  refine ⟨fun f hf frame s hopened => ?_, fun target l w' => writesInOrder_of_lift hload⟩
  obtain ⟨b, hagrees, hs, hheight, hscan⟩ := start_of_opened hload hf hopened
  exact keepsDepth_of_mem_attempts hagrees
    (fun c hc => (spares_of_opened hopened hf hload rfl hc).1) hs hscan hheight

omit hload in
/-- In the sample with a branch over a block, a lift comes to all eight instructions in three blocks, and
it makes four variables, of which the last two take the places of the first two. -/
theorem joinSample_in_lockstep : ∃ (m : Module) (h : Host) (l : Lifted) (w' : Workspace) (frame : Frame)
    (s : State),
    Module.loadInto .standard joinSample .new = .ok (m, h) ∧
    Runs ((Converter.mk m []).lift (.hosted 0)) (.ofHost h) l w' ∧
    (Converter.mk m []).opened l.function (.ofHost h) = (.ok frame, s) ∧
    (attempts frame (Graph.ofFunction l.function).blocks s).length = 8 ∧
    (∀ low ∈ attempts frame (Graph.ofFunction l.function).blocks s, low.KeepsDepth frame) ∧
    (arrivals frame (Graph.ofFunction l.function).blocks s).length = 3 ∧
    (∀ a ∈ arrivals frame (Graph.ofFunction l.function).blocks s, a.EntersAsIs) ∧
    written l.statements = [0, 1, 2, 3] ∧ l.WritesInOrder := by
  have check : liftPasses joinSample (fun m h l =>
      let start := (Converter.mk m []).opened l.function (.ofHost h)
      start.1.toOption.any fun frame => decide (
        (attempts frame (Graph.ofFunction l.function).blocks start.2).length = 8 ∧
        (arrivals frame (Graph.ofFunction l.function).blocks start.2).length = 3 ∧
        written l.statements = [0, 1, 2, 3])) = true := by
    decide +kernel
  -- How often the theorem speaks is computed, so that none of its statements is about nothing.
  obtain ⟨m, h, l, w', hload, hlift, hcheck⟩ := exists_of_liftPasses check
  obtain ⟨frame, s, hlifts⟩ := runs_lift hlift
  simp only [hlifts.opened, Except.toOption, Option.any_some, decide_eq_true_eq] at hcheck
  obtain ⟨hattempts, harrivals, hwritten⟩ := hcheck
  obtain ⟨hsteps, hends⟩ := lift_in_lockstep (.inr ⟨.new, h, hload⟩) (.ofHost h)
  obtain ⟨hkeeps, henters⟩ := hsteps l.function hlifts.function frame s hlifts.opened
  exact ⟨m, h, l, w', frame, s, hload, hlift, hlifts.opened, hattempts, hkeeps, harrivals, henters,
    hwritten, hends _ l w' hlift⟩

end Converter

end MoveBytecode
