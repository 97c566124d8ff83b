import MoveBytecode.Proofs.Lift.Faults
import MoveBytecode.Proofs.Lift.Rows

/-!
# Where lifts fail

A lift goes through the listing in the order of the addresses, and it stops at the first instruction that
breaks. `attempts` are the lowerings that it comes to, and they decide how it ends (`Decides`): each
part of a lift, from an instruction to the routine (`decides_lift`), has the fault of the one that breaks,
or it ends without a fault.
-/

namespace MoveBytecode

namespace Lift

/-! ## Attempts -/

/-- The lowerings that a lift of blocks comes to, one block after the other, up to the first block that is
not lifted to its end. -/
def attempts (f : Frame) : List Block → State → List Lowering
  | [], _ => []
  | b :: rest, s =>
    (visit f s b).lowerings ++
      match outcome (liftBlock f b #[]) s with
      | (.ok _, t) => attempts f rest t
      | (.error _, _) => []

/-- Instructions are lowered in order, and none is left out up to the last that is. -/
theorem lowerings_prefix (f : Frame) (ps : List Placed) (s : State) :
    (lowerings f ps s).map (·.placed) <+: ps := by
  induction ps generalizing s with
  | nil => exact List.prefix_rfl
  | cons p rest ih =>
    rw [lowerings]
    split
    · exact List.cons_prefix_cons.mpr ⟨rfl, ih _⟩
    · exact List.cons_prefix_cons.mpr ⟨rfl, List.nil_prefix⟩

/-- A lift comes to the instructions in the order of the listing, and leaves none of them out. -/
theorem attempts_prefix (f : Frame) (blocks : List Block) {s : State} (hs : s.WellFormed) :
    (attempts f blocks s).map (·.placed) <+: blocks.flatMap Block.placed := by
  induction blocks generalizing s with
  | nil => exact List.prefix_rfl
  | cons b rest ih =>
    rw [attempts, List.map_append, List.flatMap_cons]
    rcases hblock : outcome (liftBlock f b #[]) s with ⟨fault | steps, t⟩
    · have hfirst : (visit f s b).lowerings.map (·.placed) <+: b.placed := lowerings_prefix f _ _
      simpa using hfirst.trans (List.prefix_append _ _)
    · obtain ⟨hexit, hcompleted, -⟩ := completed_of_runs hs hblock
      have ht : t.WellFormed := hexit ▸ (visit_spec f b hs).2.2.1
      rw [hcompleted.placed]
      exact (List.prefix_append_right_inj _).mpr (ih ht)

/-! ## Deciding how a computation ends -/

/-- A lowering breaks with a fault if its instruction cannot be lowered in the state before it. -/
def Lowering.Breaks (f : Frame) (h : Host) (low : Lowering) (fault : Fault) : Prop :=
  Lift.Breaks f h low.placed low.before fault

/-- A fault of an instruction that breaks is one in what is analysed. -/
theorem Lowering.Breaks.isAnalysis {f : Frame} {h : Host} {low : Lowering} {fault : Fault}
    (hbreaks : low.Breaks f h fault) : fault.kind.isAnalysis = true := by
  cases hbreaks with
  | overflow hoverflow => rw [hoverflow.kind_eq]; rfl
  | unknown => rfl

section

variable {σ α β : Type}

/-- Lowerings decide how a computation ends: with the fault of each of them that breaks, and otherwise
without a fault and as `Q` says. -/
structure Decides (f : Frame) (h : Host) (lows : List Lowering) (Q : α → σ → Prop)
    (x : ExceptT Fault (StateM σ) α) (s : σ) : Prop where
  ends : (∀ low ∈ lows, ∀ fault, ¬ low.Breaks f h fault) → Ends x s Q
  fails : ∀ low ∈ lows, ∀ fault, low.Breaks f h fault → ∃ t, outcome x s = (.error fault, t)

variable {f : Frame} {h : Host} {lows rest : List Lowering} {x : ExceptT Fault (StateM σ) α}
  {k : α → ExceptT Fault (StateM σ) β} {P : α → σ → Prop} {Q : β → σ → Prop} {s t : σ} {a : α}

/-- A computation that ends is decided by no lowering. -/
theorem decides_of_ends (hx : Ends x s P) : Decides f h [] P x s :=
  ⟨fun _ => hx, fun _ hlow => absurd hlow List.not_mem_nil⟩

/-- What comes first ends in one way, and the rest decides from there. -/
theorem decides_bind_of_runs (hx : Runs x s a t) (hk : Decides f h lows Q (k a) t) :
    Decides f h lows Q (x >>= k) s where
  ends hnone := ends_bind_of_runs hx (hk.ends hnone)
  fails low hlow fault hbreaks := by
    rw [outcome_bind_of_runs hx]
    exact hk.fails low hlow fault hbreaks

/-- Either no lowering breaks, or one does and gives the fault. -/
theorem Decides.ends_or_fails (hx : Decides f h lows P x s) :
    Ends x s P ∨ ∃ low ∈ lows, ∃ fault t, low.Breaks f h fault ∧ outcome x s = (.error fault, t) := by
  by_cases hbreaks : ∃ low ∈ lows, ∃ fault, low.Breaks f h fault
  · obtain ⟨low, hlow, fault, hfault⟩ := hbreaks
    obtain ⟨t, ht⟩ := hx.fails low hlow fault hfault
    exact .inr ⟨low, hlow, fault, t, hfault, ht⟩
  · exact .inl (hx.ends fun low hlow fault hfault => hbreaks ⟨low, hlow, fault, hfault⟩)

/-- What ends without a fault has no lowering that breaks. -/
theorem Decides.not_breaks (hx : Decides f h lows P x s) (hrun : Runs x s a t) :
    ∀ low ∈ lows, ∀ fault, ¬ low.Breaks f h fault := by
  intro low hlow fault hbreaks
  obtain ⟨t', ht'⟩ := hx.fails low hlow fault hbreaks
  rw [show outcome x s = (.ok a, t) from hrun] at ht'
  simp at ht'

/-- A computation that is decided and ends does so as it should. -/
theorem Decides.of_runs (hx : Decides f h lows P x s) (hrun : Runs x s a t) : P a t := by
  obtain ⟨_, _, hrun', ha⟩ := hx.ends (hx.not_breaks hrun)
  obtain ⟨rfl, rfl⟩ := Runs.unique hrun hrun'
  exact ha

/-- What comes second has its own lowerings, or none if what comes first fails. -/
theorem Decides.bind (hx : Decides f h lows P x s)
    (hk : ∀ a t, Runs x s a t → P a t → Decides f h rest Q (k a) t)
    (hstop : ∀ fault t, outcome x s = (.error fault, t) → rest = []) :
    Decides f h (lows ++ rest) Q (x >>= k) s where
  ends hnone := by
    obtain ⟨hlows, hrest⟩ := List.forall_mem_append.mp hnone
    exact (hx.ends hlows).bind fun a t hrun ha => (hk a t hrun ha).ends hrest
  fails low hlow fault hbreaks := by
    rcases List.mem_append.mp hlow with hlow | hlow
    · obtain ⟨t, ht⟩ := hx.fails low hlow fault hbreaks
      exact ⟨t, outcome_bind_of_error ht⟩
    · -- As there are lowerings behind it, what comes first ends.
      rcases hout : outcome x s with ⟨fault' | a, t⟩
      · rw [hstop fault' t hout] at hlow
        exact absurd hlow List.not_mem_nil
      · rw [outcome_bind_of_runs hout]
        exact (hk a t hout (hx.of_runs hout)).fails low hlow fault hbreaks

/-- What comes second does not break. -/
theorem Decides.bind_ends (hx : Decides f h lows P x s)
    (hk : ∀ a t, Runs x s a t → P a t → Ends (k a) t Q) : Decides f h lows Q (x >>= k) s := by
  rw [← List.append_nil lows]
  exact hx.bind (fun a t hrun ha => decides_of_ends (hk a t hrun ha)) fun _ _ _ => rfl

/-- Only the outcome matters. -/
theorem Decides.congr {y : ExceptT Fault (StateM σ) α} (hx : Decides f h lows P x s)
    (heq : outcome y s = outcome x s) : Decides f h lows P y s where
  ends hnone := by
    obtain ⟨a, t, hrun, ha⟩ := hx.ends hnone
    exact ⟨a, t, heq.trans hrun, ha⟩
  fails low hlow fault hbreaks := by
    rw [heq]
    exact hx.fails low hlow fault hbreaks

end

/-! ## Instructions and blocks -/

section

variable {f : Frame} {h : Host} {body : Body.Frame} {data : Bytes} {base : Nat} {s : State}

/-- The stack holds the values that an instruction takes if it is as high as the listing says. -/
theorem supplied_of_listed (hb : Agrees f body) {before : List Instruction} {i : Instruction}
    (hlisted : Body.Listed body data base before i) (hs : s.Sound h)
    (hheight : s.stack.vars.length = Instruction.depthBehind before) : Supplied f i s := by
  intro pops pushes hbalanced
  obtain ⟨pops', pushes', heffect, hpops, -⟩ := hlisted.effect
  obtain ⟨rfl, -⟩ := Prod.mk.inj (Except.ok.inj ((hbalanced body hb).symm.trans heffect))
  rw [hlisted.depthBefore] at hpops
  rw [← hs.length_vars]
  omega

variable (hf : f.Grounded h)

include hf

/-- A lowering that is supplied decides how the lowering of its instruction ends. -/
theorem decides_lowerAt {p : Placed}
    (hi : p.instruction ∈ f.function.record.code.instructions) (hs : s.Sound h)
    (hsupplied : Supplied f p.instruction s) (after : State) :
    Decides f h [⟨p, s, after⟩] (fun _ t => t.Sound h) (lowerAt f p) s where
  ends hnone := ends_lowerAt hf hi hs hsupplied (hnone _ (List.mem_singleton_self _))
  fails low hlow fault hbreaks := by
    obtain rfl := List.mem_singleton.mp hlow
    exact outcome_lowerAt_of_breaks hf hi hs hbreaks

variable (hb : Agrees f body)
  (hscan : Body.Scanned body data base f.function.record.code.instructions)

include hb hscan

/-- Instructions one after the other, with the stack as high as the listing says. -/
theorem decides_lowerAll {ps : List Placed} {before after : List Instruction}
    (hsplit : f.function.record.code.instructions =
      before ++ ps.map (·.instruction) ++ after) (hs : s.Sound h)
    (hheight : s.stack.vars.length = Instruction.depthBehind before) (done : Array Step) :
    Decides f h (lowerings f ps s) (fun _ t => t.Sound h) (lowerAll f ps done) s := by
  -- By induction on the instructions; those that are done go to `before`, and the height of the stack is
  -- that of the listing behind them.
  induction ps generalizing before done s with
  | nil => exact decides_of_ends (ends_pure hs)
  | cons p rest ih =>
    have hlisted := hscan before p.instruction (rest.map (·.instruction) ++ after)
      (by rw [hsplit]; simp)
    have hi : p.instruction ∈ f.function.record.code.instructions := by
      rw [hsplit]
      simp
    have hstep := decides_lowerAt hf hi hs (supplied_of_listed hb hlisted hs hheight)
    rw [lowerings, lowerAll]
    rcases hout : outcome (lowerAt f p) s with ⟨fault | step, t⟩
    · exact (hstep t).bind_ends fun step t' hrun _ => by
        rw [Runs, hout] at hrun
        simp at hrun
    · refine (hstep t).bind (fun step' t' hrun ht => ?_) fun fault t' herror => ?_
      · obtain ⟨rfl, rfl⟩ := Runs.unique hout hrun
        -- The next instruction starts where this one has left the stack.
        have hbehind := (yields_of_runs hs.wellFormed hrun).length_after hb hlisted hheight
        have hsplit' : f.function.record.code.instructions =
            (before ++ [p.instruction]) ++ rest.map (·.instruction) ++ after := by
          rw [hsplit]
          simp
        exact ih hsplit' ht hbehind _
      · rw [hout] at herror
        simp at herror

/-- A block is lifted unless one of its instructions breaks. -/
theorem decides_liftBlock {b : Block} (hne : b.placed ≠ [])
    (hsplit : ∃ before after, f.function.record.code.instructions =
      before ++ b.instructions ++ after) (hs : s.Sound h) (done : Array Step) :
    Decides f h (visit f s b).lowerings (fun _ t => t.Sound h) (liftBlock f b done) s := by
  obtain ⟨before, after, hsplit⟩ := hsplit
  rw [← Block.map_instruction_placed] at hsplit
  unfold liftBlock
  split
  · rename_i hnil
    exact absurd hnil hne
  · rename_i first rest hcons
    rw [hcons] at hsplit
    -- The stack is made as high as the listing says, however high the block before has left it.
    obtain ⟨_, t, henter, ht, hheight⟩ := hs.ends_enterBlock first.instruction.depthBefore
    have hentered : entered b s = t := by
      rw [entered, hcons]
      exact congrArg Prod.snd henter
    have hlisted := hscan before first.instruction (rest.map (·.instruction) ++ after)
      (by rw [hsplit]; simp)
    have hdepth : t.stack.vars.length = Instruction.depthBehind before := by
      rw [ht.length_vars, hheight, hlisted.depthBefore]
    rw [visit, hentered, hcons]
    exact decides_bind_of_runs henter (decides_lowerAll hf hb hscan hsplit ht hdepth done)

omit hf hb hscan in
/-- A lift goes on behind a block that is never left out, or ends with it. -/
theorem outcome_liftBlocks_cons {b : Block}
    (hspares : Spares (fun fault => ¬ Recorded fault) (liftBlock f b #[])) (rest : List Block)
    (done : Array Step) (failed : Array (String × String)) (s : State) :
    outcome (liftBlocks f (b :: rest) done failed) s =
      outcome (liftBlock f b #[] >>= fun new => liftBlocks f rest (done ++ new) failed) s := by
  rw [liftBlocks, outcome_bind, outcome_tryCatch, outcome_bind, outcome_liftBlock, outcome_bind]
  rcases hblock : outcome (liftBlock f b #[]) s with ⟨fault | new, t⟩
  · have hfault : ¬ Recorded fault := hspares s fault t hblock
    cases fault with
    | unsupportedConversion => exact absurd rfl hfault
    | _ => rfl
  · rfl

/-- Blocks one after the other are lifted, and none of them is left out, unless one of their
instructions breaks. -/
theorem decides_liftBlocks {blocks : List Block}
    (hblocks : ∀ b ∈ blocks, b.placed ≠ [] ∧ ∃ before after,
      f.function.record.code.instructions = before ++ b.instructions ++ after)
    (hs : s.Sound h) (done : Array Step) (failed : Array (String × String)) :
    Decides f h (attempts f blocks s) (fun result t => result.2 = failed ∧ t.Sound h)
      (liftBlocks f blocks done failed) s := by
  induction blocks generalizing done s with
  | nil => exact decides_of_ends (ends_pure ⟨rfl, hs⟩)
  | cons b rest ih =>
    obtain ⟨⟨hne, hsplit⟩, hrest⟩ := List.forall_mem_cons.mp hblocks
    -- A lift of all opcodes has no fault for which a block is left out.
    have hspares : Spares (fun fault => ¬ Recorded fault) (liftBlock f b #[]) := by
      refine spares_liftBlock fun p hp => spares_lowerAt hf.removed ?_
      obtain ⟨before, after, hsplit⟩ := hsplit
      refine hf.owner.closed.showInstruction hf.function ?_ p.address
      rw [hsplit, ← Block.map_instruction_placed]
      exact List.mem_append_left _ (List.mem_append_right _ (List.mem_map_of_mem hp))
    have hblock := decides_liftBlock hf hb hscan hne hsplit hs #[]
    refine Decides.congr ?_ (outcome_liftBlocks_cons hspares rest done failed s)
    rw [attempts]
    refine hblock.bind (fun new t hrun ht => ?_) fun fault t hfault => ?_
    · rw [show outcome (liftBlock f b #[]) s = (.ok new, t) from hrun]
      exact ih hrest ht (done ++ new)
    · rw [hfault]

end

/-! ## Routines -/

section

variable {m : Module} {h : Host} {w : Workspace} {g : Entry FunctionDef}

/-- A function of a grounded module is opened with its locals and an empty stack. -/
theorem ends_openFunction (hm : m.Grounded h) (hg : g.record ∈ m.functions) (hw : Settled h w) :
    Ends (openFunction m [] g) (fresh w) fun frame s => frame.Grounded h ∧ s.Sound h := by
  obtain ⟨tokens, htokens, hlocals⟩ := hm.closed.localsOf hg
  let scope := (Scope.empty.setRegister programCounter).setRegister stackPointer
  have hscope : scope.Regular 0 :=
    ((Scope.regular_empty 0).setRegister (by simp [programCounter])).setRegister
      (by simp [stackPointer])
  have hstart : State.Sound h { fresh w with scope, stack := .empty, counter := 0 } :=
    ⟨State.wellFormed_of_empty rfl, hw, hscope, fun slot hslot => by simp [OperandStack.empty] at hslot⟩
  have hfree (n : Nat) : scope.contains (.localVar n) = false := by
    rw [Scope.contains_setRegister, Scope.contains_setRegister]
    simp [programCounter, stackPointer, Scope.empty, Scope.contains]
  refine ends_bind_of_runs (a := ⟨⟩) (runs_modify.mpr rfl) ?_
  refine ends_bind_ofExcept hlocals ?_
  refine (hstart.ends_declareLocals hm.closed (hm.knows.locals tokens htokens)
    fun n _ => hfree n).bind ?_
  rintro vs t - ⟨ht, hbits⟩
  exact ends_pure ⟨⟨hm, hg, rfl, hlocals, hbits⟩, ht⟩

variable {frame : Frame} {s : State} {body : Body.Frame} {data : Bytes} {base : Nat}

/-- A function that is opened is lifted with all of its blocks unless one of its instructions breaks. -/
theorem decides_liftFunction (hm : m.Grounded h) (hg : g.record ∈ m.functions) (hw : Settled h w)
    (hopen : Runs (openFunction m [] g) (fresh w) frame s) (hb : Agrees frame body)
    (hsound : Body.Sound body data base g.record.code.instructions) :
    Decides frame h (attempts frame (Graph.ofFunction g).blocks s)
      (fun lifted _ => ∀ r, (lifted r).failed = []) (liftFunction m [] g) (fresh w) := by
  obtain ⟨_, _, hrun, hframe, hs⟩ := ends_openFunction hm hg hw
  obtain ⟨rfl, rfl⟩ := Runs.unique hopen hrun
  have hopened := opened_of_runs hopen
  have hscan : Body.Scanned body data base frame.function.record.code.instructions := by
    rw [hopened.function]
    exact hsound.scanned
  have hblocks (b : Block) (hblock : b ∈ (Graph.ofFunction g).blocks) : b.placed ≠ [] ∧
      ∃ before after, frame.function.record.code.instructions = before ++ b.instructions ++ after := by
    rw [hopened.function]
    exact ⟨Graph.placed_ne_nil hblock, Graph.exists_split hblock⟩
  obtain ⟨e, he, hhandle⟩ := hm.closed.handleOf hg
  obtain ⟨signature, hmem, hsignature⟩ := hm.closed.signatureOf he
  obtain ⟨hreturns, hparams⟩ := hm.knows.functions signature hmem
  refine decides_bind_of_runs hopen ?_
  refine (decides_liftBlocks hframe hb hscan hblocks hs #[] #[]).bind_ends ?_
  rintro ⟨steps, failed⟩ t - ⟨rfl, ht⟩
  -- The signature is that of the handle, and its tokens have types.
  refine ends_bind_ofExcept hhandle ?_
  refine ends_bind_ofExcept hsignature ?_
  rw [← hopened.owner] at hm hreturns hparams
  refine (ht.ends_paramVars hm.closed hparams).bind fun params u _ hu => ?_
  have htypes : Ends (signature.returns.mapM (typeOf frame)) u fun _ v => v.Sound h :=
    ends_mapM (fun token htoken v hv =>
      (hv.ends_typeOf hm.closed (hreturns token htoken)).mono fun _ _ _ hq => hq.1) hu
  refine htypes.bind fun returns v _ _ => ?_
  exact ends_bind_get (ends_pure fun r => rfl)

/-- Work on a routine is decided as it is from a fresh state. -/
theorem decides_onRoutine {α : Type} {lows : List Lowering} {P : α → Prop} {x : LiftM α}
    (hx : Decides frame h lows (fun a _ => P a) x (fresh w)) :
    Decides frame h lows (fun a _ => P a) (onRoutine x) w where
  ends hnone := by
    obtain ⟨a, t, hrun, ha⟩ := hx.ends hnone
    refine ⟨a, t.toWorkspace, ?_, ha⟩
    rw [Runs, outcome_onRoutine, show outcome x (fresh w) = (.ok a, t) from hrun]
  fails low hlow fault hbreaks := by
    obtain ⟨t, ht⟩ := hx.fails low hlow fault hbreaks
    refine ⟨t.toWorkspace, ?_⟩
    rw [outcome_onRoutine, ht]

/-- A routine whose name leads to a function is lifted with all blocks of the function unless one of
its instructions breaks. -/
theorem decides_lift (hm : m.Grounded h) (hw : Settled h w) {number : Nat} {r : Routine}
    (hr : w.host.routine? number = some r) (hfound : m.functionNamed? r.name = .ok (some g))
    (hopened : (Converter.mk m []).opened g w = (.ok frame, s)) (hb : Agrees frame body)
    (hsound : Body.Sound body data base g.record.code.instructions) :
    Decides frame h (attempts frame (Graph.ofFunction g).blocks s) (fun l _ => l.failed = [])
      ((Converter.mk m []).lift (.hosted number)) w := by
  have hg : g.record ∈ m.functions := Module.record_mem_functions (mem_of_findM? hfound)
  -- The function is opened on the host on which all routines have their prototypes.
  obtain ⟨_, w₁, hassign, hw₁⟩ := ends_assignPrototypes hm.closed hm.knows hw
  have hopen : Runs (openFunction m [] g) (fresh w₁) frame s := by
    rw [Converter.opened, show (outcome (assignPrototypes m) w).2 = w₁ from congrArg Prod.snd hassign]
      at hopened
    exact hopened
  refine decides_bind_of_runs (runs_get.mpr ⟨rfl, rfl⟩) ?_
  simp only [RoutineRef.resolve?, hr, Option.map_some, Option.getD_some]
  refine decides_bind_of_runs (runs_ofExcept.mpr ⟨hfound, rfl⟩) ?_
  refine decides_bind_of_runs hassign ?_
  refine (decides_onRoutine (decides_liftFunction hm hg hw₁ hopen hb hsound)).bind_ends ?_
  intro lifted w₂ hlifted hfailed
  -- The routine is still there behind the lift.
  have hkept := preserves_onRoutine (((durable_settled h).lasting.pervades m).liftFunction [] g)
  have hw₂ : Settled h w₂ := hkept.of_runs hlifted hw₁
  obtain ⟨r', hr', -⟩ := Host.exists_routine? (hw.roster.trans hw₂.roster.symm) hr
  refine ends_bind_get ?_
  rw [hr']
  exact ends_pure (hfailed r')

end

end Lift

end MoveBytecode
