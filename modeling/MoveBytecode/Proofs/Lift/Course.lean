import MoveBytecode.Lift.Routine
import MoveBytecode.Proofs.Flow.Blocks
import MoveBytecode.Proofs.Lift.Table
import MoveBytecode.Proofs.Reading.Body

/-!
# The course of a lift

A lift takes the blocks of a function in the order of the listing, and one symbolic stack goes with it
from block to block. `visits` keeps the states in which each block is started and finished, and
`lowerings` those around each instruction. What is appended to the steps of a lift does not depend on
the steps that are there, so the states of a lift can be read off block by block.
-/

namespace MoveBytecode.Lift

/-- An instruction that was lowered, with the states before and after. -/
structure Lowering where
  placed : Placed
  before : State
  after : State

/-- The lowerings of instructions one after the other, up to the first that fails. -/
def lowerings (f : Frame) : List Placed → State → List Lowering
  | [], _ => []
  | p :: rest, s =>
    match outcome (lowerAt f p) s with
    | (.ok _, t) => ⟨p, s, t⟩ :: lowerings f rest t
    | (.error _, t) => [⟨p, s, t⟩]

/-- A block that was lifted: the states in which it was started and finished, and its lowerings. -/
structure Visit where
  block : Block
  entry : State
  exit : State
  lowerings : List Lowering

/-- The state in which a block is started. -/
def entered (b : Block) (s : State) : State :=
  match b.placed with
  | [] => s
  | first :: _ => (outcome (enterBlock first.instruction.depthBefore) s).2

/-- The visit of a block from a state. -/
def visit (f : Frame) (s : State) (b : Block) : Visit :=
  ⟨b, entered b s, (outcome (liftBlock f b #[]) s).2, lowerings f b.placed (entered b s)⟩

/-- The visits of blocks one after the other. -/
def visits (f : Frame) : State → List Block → List Visit
  | _, [] => []
  | s, b :: rest => visit f s b :: visits f (visit f s b).exit rest

/-- Each block is visited, in order. -/
theorem map_block_visits (f : Frame) (s : State) (blocks : List Block) :
    (visits f s blocks).map (·.block) = blocks := by
  induction blocks generalizing s with
  | nil => rfl
  | cons b rest ih => rw [visits, List.map_cons, ih, visit]

/-- Only the given blocks are visited. -/
theorem block_of_mem_visits {f : Frame} {s : State} {blocks : List Block} {v : Visit}
    (h : v ∈ visits f s blocks) : v.block ∈ blocks := by
  rw [← map_block_visits f s blocks]
  exact List.mem_map_of_mem h

/-! ## One instruction -/

/-- A loop over a list is still if its body is. -/
theorem still_forM {α : Type} {f : α → LiftM PUnit} (hf : ∀ a, Still (f a)) (l : List α) :
    Still (l.forM f) :=
  still_iff_leaves.mpr (leaves_forM (fun a => still_iff_leaves.mp (hf a)) l)

/-- Recording an event changes nothing that a lift looks at. -/
theorem leaves_outlook_record (e : Event) : Leaves State.outlook (record e) :=
  leaves_modify fun _ => rfl

/-- Lowering an instruction keeps states well-formed. -/
theorem keeps_lowerAt (f : Frame) (p : Placed) : Keeps (lowerAt f p) := by
  have hsupported : Keeps (lowerSupported f p) := by
    unfold lowerSupported
    split
    · exact (still_throw _).keeps
    · exact (orderly_lower f _ _).keeps
  have hreport : ∀ fault, Keeps (reportFault f p fault) := fun fault =>
    (still_ofExcept _).keeps.bind fun _ => (still_record _).keeps.bind fun _ =>
      (still_throw _).keeps
  exact (hsupported.tryCatch hreport).bind fun _ =>
    (still_forM (fun _ => still_record _) _).keeps.bind fun _ => (still_pure _).keeps

/-- A lowering that ends without a fault is that of the opcode; what is recorded of it changes nothing that
a lift looks at. -/
theorem runs_lowerAt {f : Frame} {p : Placed} {s s' : State} {step : Step}
    (h : Runs (lowerAt f p) s step s') :
    step.address = p.address ∧ ∃ t, Runs (lower f p.instruction p.address) s step.statements t ∧
      s'.outlook = t.outlook := by
  obtain ⟨statements, t, hlower, h⟩ := runs_bind.mp h
  obtain ⟨_, u, hrecord, h⟩ := runs_bind.mp h
  obtain ⟨rfl, rfl⟩ := runs_pure.mp h
  refine ⟨rfl, t, ?_, (leaves_forM (fun _ => leaves_outlook_record _) statements).of_runs hrecord⟩
  rcases runs_tryCatch.mp hlower with hlower | ⟨fault, u, -, hreport⟩
  · unfold lowerSupported at hlower
    split at hlower
    · exact absurd hlower not_runs_throw
    · exact hlower
  · -- The handler ends with the fault that it was given.
    simp only [reportFault, runs_bind] at hreport
    obtain ⟨_, _, -, _, _, -, hthrow⟩ := hreport
    exact absurd hthrow not_runs_throw

/-! ## One block -/

/-- The steps that are there already stay in front, and change nothing about the lowerings behind
them. -/
theorem outcome_lowerAll (f : Frame) (ps : List Placed) (done : Array Step) (s : State) :
    outcome (lowerAll f ps done) s =
      ((outcome (lowerAll f ps #[]) s).1.map (done ++ ·), (outcome (lowerAll f ps #[]) s).2) := by
  induction ps generalizing done s with
  | nil => simp [lowerAll, outcome_pure, Except.map]
  | cons p rest ih =>
    simp only [lowerAll, outcome_bind]
    rcases outcome (lowerAt f p) s with ⟨fault | step, t⟩
    · rfl
    · simp only
      rw [ih (done.push step) t, ih (#[].push step) t]
      rcases outcome (lowerAll f rest #[]) t with ⟨fault | new, u⟩
      · rfl
      · simp [Except.map]

/-- The steps of a block are put behind those done before, and depend on nothing of them. -/
theorem outcome_liftBlock (f : Frame) (b : Block) (done : Array Step) (s : State) :
    outcome (liftBlock f b done) s =
      ((outcome (liftBlock f b #[]) s).1.map (done ++ ·), (outcome (liftBlock f b #[]) s).2) := by
  unfold liftBlock
  split
  · simp [outcome_pure, Except.map]
  · rename_i first rest _
    simp only [outcome_bind]
    rcases outcome (enterBlock first.instruction.depthBefore) s with ⟨fault | u, t⟩
    · rfl
    · exact outcome_lowerAll f (first :: rest) done t

/-- Lowering instructions one after the other keeps states well-formed. -/
theorem keeps_lowerAll (f : Frame) (ps : List Placed) (done : Array Step) :
    Keeps (lowerAll f ps done) := by
  induction ps generalizing done with
  | nil => exact (still_pure _).keeps
  | cons p rest ih => exact (keeps_lowerAt f p).bind fun step => ih (done.push step)

/-- Starting a block leaves the slots that exist as they are, and the block lets the stack evolve,
whether or not it is lifted to its end. -/
theorem visit_spec (f : Frame) (b : Block) {s : State} (hs : s.WellFormed) :
    ((visit f s b).entry.WellFormed ∧ s.Evolves (visit f s b).entry) ∧
      (∀ k v, s.stack.varAt? k = some v → (visit f s b).entry.stack.varAt? k = some v) ∧
      (visit f s b).exit.WellFormed ∧ (visit f s b).entry.Evolves (visit f s b).exit := by
  simp only [visit, entered, liftBlock]
  cases b.placed with
  | nil => exact ⟨⟨hs, .refl s⟩, fun _ _ h => h, hs, .refl s⟩
  | cons first rest =>
    simp only [outcome_bind]
    rcases henter : outcome (enterBlock first.instruction.depthBefore) s with ⟨fault | u, t⟩
    · obtain ⟨⟨ht, hevolves⟩, hslots, -⟩ := enterBlock_spec hs henter
      exact ⟨⟨ht, hevolves⟩, hslots, ht, .refl t⟩
    · obtain ⟨⟨ht, hevolves⟩, hslots, -⟩ := enterBlock_spec hs henter
      exact ⟨⟨ht, hevolves⟩, hslots, keeps_lowerAll f (first :: rest) #[] t _ _ rfl ht⟩

/-! ## The lowerings of a block -/

/-- A lowering took the stack from one well-formed state to another, and made a step by the table. -/
structure Lowering.Yields (f : Frame) (low : Lowering) (step : Step) : Prop where
  before : low.before.WellFormed
  after : low.after.WellFormed
  address : step.address = low.placed.address
  table : LoweredTo f low.placed.instruction low.placed.address low.before step.statements low.after

/-- Each lowering starts with the values on the stack that the one before has left. -/
def Linked : List Var → List Lowering → List Var → Prop
  | vs, [], ws => vs = ws
  | vs, low :: rest, ws => low.before.stack.vars = vs ∧ Linked low.after.stack.vars rest ws

/-- A lowering that ends makes a step by the table. -/
theorem yields_of_runs {f : Frame} {p : Placed} {s t : State} {step : Step} (hs : s.WellFormed)
    (h : Runs (lowerAt f p) s step t) : Lowering.Yields f ⟨p, s, t⟩ step := by
  obtain ⟨haddress, u, hlower, hsame⟩ := runs_lowerAt h
  obtain ⟨rest, ins, outs, hins, houts, htable, hbalanced⟩ := lower_spec hs hlower
  refine ⟨hs, (keeps_lowerAt f p s _ t h hs).1, haddress, rest, ins, outs, hins, ?_, htable,
    hbalanced⟩
  show t.stack.vars = rest ++ outs
  rw [stack_of_outlook hsame]
  exact houts

/-- Instructions that are lowered without a fault have a step each, in order. -/
theorem runs_lowerAll {f : Frame} {ps : List Placed} {done steps : Array Step} {s t : State}
    (hs : s.WellFormed) (h : Runs (lowerAll f ps done) s steps t) :
    (lowerings f ps s).map (·.placed) = ps ∧
      Linked s.stack.vars (lowerings f ps s) t.stack.vars ∧
      ∃ new, steps.toList = done.toList ++ new ∧
        List.Forall₂ (Lowering.Yields f) (lowerings f ps s) new := by
  induction ps generalizing done s with
  | nil =>
    obtain ⟨rfl, rfl⟩ := runs_pure.mp h
    exact ⟨rfl, rfl, [], (List.append_nil _).symm, .nil⟩
  | cons p rest ih =>
    obtain ⟨step, u, hstep, h⟩ := runs_bind.mp h
    have hu := (keeps_lowerAt f p s _ u hstep hs).1
    obtain ⟨hplaced, hlinked, new, hnew, hyields⟩ := ih hu h
    have hlowerings : lowerings f (p :: rest) s = ⟨p, s, u⟩ :: lowerings f rest u := by
      rw [lowerings, show outcome (lowerAt f p) s = (.ok step, u) from hstep]
    rw [hlowerings]
    refine ⟨by rw [List.map_cons, hplaced], ⟨rfl, hlinked⟩, step :: new, ?_, ?_⟩
    · rw [hnew, Array.toList_push, List.append_assoc]
      rfl
    · exact .cons (yields_of_runs hs hstep) hyields

/-! ## Depths -/

section

variable {f : Frame} {b : Body.Frame} {data : Bytes} {base : Nat} {before after : List Instruction}

/-- An instruction takes and puts as many values as the listing counts for it, so that the stack is as
high behind it as the listing says. -/
theorem Lowering.Yields.length_after {low : Lowering} {step : Step} (h : low.Yields f step)
    (hb : Agrees f b) (hlisted : Body.Listed b data base before low.placed.instruction)
    (hbefore : low.before.stack.vars.length = Instruction.depthBehind before) :
    low.after.stack.vars.length =
      Instruction.depthBehind (before ++ [low.placed.instruction]) := by
  obtain ⟨rest, ins, outs, hins, houts, -, hbalanced⟩ := h.table
  obtain ⟨pops, pushes, heffect, -, hafter⟩ := hlisted.effect
  have hcounts := (hbalanced b hb).symm.trans heffect
  obtain ⟨hpops, hpushes⟩ := Prod.mk.inj (Except.ok.inj hcounts)
  rw [Instruction.depthBehind_concat, hafter, hlisted.depthBefore, ← hbefore, hins, houts,
    List.length_append, List.length_append, ← hpops, ← hpushes]
  omega

/-- Over lowerings that follow the listing, the stack is as high as the listing says. -/
theorem length_of_linked {lows : List Lowering} {steps : List Step} {vs ws : List Var}
    (hb : Agrees f b)
    (hscan : Body.Scanned b data base
      (before ++ lows.map (·.placed.instruction) ++ after))
    (hyields : List.Forall₂ (Lowering.Yields f) lows steps) (hlinked : Linked vs lows ws)
    (hvs : vs.length = Instruction.depthBehind before) :
    ws.length = Instruction.depthBehind (before ++ lows.map (·.placed.instruction)) ∧
      ∀ low ∈ lows, low.before.stack.vars.length = low.placed.instruction.depthBefore := by
  induction hyields generalizing before vs with
  | nil =>
    obtain rfl : vs = ws := hlinked
    exact ⟨by simpa using hvs, by simp⟩
  | @cons low step lows steps hlow _ ih =>
    obtain ⟨rfl, hlinked⟩ := hlinked
    have hlisted := hscan before low.placed.instruction (lows.map (·.placed.instruction) ++ after)
      (by simp)
    have hbehind := hlow.length_after hb hlisted hvs
    obtain ⟨hlast, hrest⟩ := ih (by simpa using hscan) hlinked hbehind
    refine ⟨by simpa using hlast, ?_⟩
    rintro low' hlow'
    rcases List.mem_cons.mp hlow' with rfl | hlow'
    · rw [hvs, hlisted.depthBefore]
    · exact hrest low' hlow'

end

/-! ## Blocks that are lifted to their end -/

/-- A block was lifted to its end: each of its instructions has a step, and the stack was started as
high as the listing says. -/
structure Visit.Completed (f : Frame) (v : Visit) (steps : List Step) : Prop where
  placed : v.lowerings.map (·.placed) = v.block.placed
  linked : Linked v.entry.stack.vars v.lowerings v.exit.stack.vars
  yields : List.Forall₂ (Lowering.Yields f) v.lowerings steps
  height : ∀ first ∈ v.block.placed.head?,
    v.entry.stack.vars.length = first.instruction.depthBefore

/-- A block that was lifted to its end has a lowering for each of its instructions. -/
theorem Visit.Completed.map_instruction {f : Frame} {v : Visit} {steps : List Step}
    (h : v.Completed f steps) : v.lowerings.map (·.placed.instruction) = v.block.instructions := by
  rw [← Block.map_instruction_placed, ← h.placed, List.map_map]
  rfl

/-- A block that is entered at the height that the stack has leaves the values on it as they are. -/
theorem vars_of_enterBlock {depth : Nat} {s s' : State} {r : Except Fault Unit} (hs : s.WellFormed)
    (h : outcome (enterBlock depth) s = (r, s')) (hr : r = .ok ()) (hdepth : s.stack.vars.length = depth) :
    s'.stack.vars = s.stack.vars := by
  obtain ⟨⟨hs', -⟩, hslots, hheight⟩ := enterBlock_spec hs h
  have hheight := hheight () hr
  rw [OperandStack.length_vars hs.height_le] at hdepth
  -- Below the height no slot has got another variable, and the height is the same.
  apply List.ext_getElem?
  intro k
  rw [OperandStack.getElem?_vars, OperandStack.getElem?_vars, hheight, hdepth]
  split
  · rename_i hk
    obtain ⟨v, hv⟩ := s.stack.isSome_varAt? (k := k) (by have := hs.height_le; omega)
    rw [hv, hslots k v hv]
  · rfl

/-- A block that is lifted without a fault was lifted to its end, and starts with the values that it
finds if they are as many as it expects. -/
theorem completed_of_runs {f : Frame} {b : Block} {s t : State} {steps : Array Step}
    (hs : s.WellFormed) (h : Runs (liftBlock f b #[]) s steps t) :
    (visit f s b).exit = t ∧ (visit f s b).Completed f steps.toList ∧
      ∀ first ∈ b.placed.head?, s.stack.vars.length = first.instruction.depthBefore →
        (visit f s b).entry.stack.vars = s.stack.vars := by
  have hexit : (visit f s b).exit = t := by
    rw [visit, show outcome (liftBlock f b #[]) s = (.ok steps, t) from h]
  refine ⟨hexit, ?_⟩
  unfold liftBlock at h
  split at h
  · rename_i hnil
    obtain ⟨rfl, rfl⟩ := runs_pure.mp h
    refine ⟨⟨?_, ?_, ?_, ?_⟩, ?_⟩
    · simp [visit, hnil, lowerings]
    · rw [hexit]
      simp [visit, hnil, lowerings, entered, Linked]
    · simp [visit, hnil, lowerings]
    · simp [visit, hnil]
    · simp [hnil]
  · rename_i first rest hcons
    -- The block is entered in the state `u`, from which its instructions are lowered.
    obtain ⟨_, u, henter, h⟩ := runs_bind.mp h
    obtain ⟨⟨hu, -⟩, -, hheight⟩ := enterBlock_spec hs henter
    obtain ⟨hplaced, hlinked, new, hnew, hyields⟩ := runs_lowerAll hu h
    have hentry : (visit f s b).entry = u := by
      simp only [visit, entered, hcons]
      rw [show outcome (enterBlock first.instruction.depthBefore) s = (.ok (), u) from henter]
    have hlowerings : (visit f s b).lowerings = lowerings f (first :: rest) u := by
      rw [← hentry, ← hcons]
      rfl
    refine ⟨⟨?_, ?_, ?_, ?_⟩, ?_⟩
    · rw [hlowerings, hplaced]
      exact hcons.symm
    · rw [hlowerings, hexit, hentry]
      exact hlinked
    · rw [hlowerings, hnew]
      exact hyields
    · intro first' hfirst
      obtain rfl : first = first' := by
        rw [show (visit f s b).block.placed = first :: rest from hcons] at hfirst
        simpa using hfirst
      rw [hentry, OperandStack.length_vars hu.height_le, hheight () rfl]
    · intro first' hfirst hdepth
      obtain rfl : first = first' := by
        rw [hcons] at hfirst
        simpa using hfirst
      rw [hentry]
      exact vars_of_enterBlock hs henter rfl hdepth

/-- A lift goes on behind a block that was lifted, and behind one that was left out. -/
theorem runs_liftBlocks_cons {f : Frame} {b : Block} {rest : List Block} {done : Array Step}
    {failed : Array (String × String)} {s s' : State}
    {result : Array Step × Array (String × String)}
    (h : Runs (liftBlocks f (b :: rest) done failed) s result s') :
    (∃ new t, Runs (liftBlock f b #[]) s new t ∧
      Runs (liftBlocks f rest (done ++ new) failed) t result s') ∨
    ∃ fault t, outcome (liftBlock f b #[]) s = (.error fault, t) ∧ Recorded fault ∧
      Runs (liftBlocks f rest done (failed.push (b.label, fault.message))) t result s' := by
  obtain ⟨block, t, hblock, h⟩ := runs_bind.mp h
  rcases runs_tryCatch.mp hblock with hblock | ⟨fault, u, hfault, hhandler⟩
  · obtain ⟨steps, u, hsteps, hblock⟩ := runs_bind.mp hblock
    obtain ⟨rfl, rfl⟩ := runs_pure.mp hblock
    -- The steps of the blocks in front can be split off, so that the block is lifted on its own.
    unfold Runs at hsteps
    rw [outcome_liftBlock] at hsteps
    rcases hnew : outcome (liftBlock f b #[]) s with ⟨fault | new, v⟩
    · simp [hnew, Except.map] at hsteps
    · simp only [hnew, Except.map, Prod.mk.injEq, Except.ok.injEq] at hsteps
      obtain ⟨rfl, rfl⟩ := hsteps
      exact .inl ⟨new, v, hnew, h⟩
  · have hfault' : outcome (liftBlock f b #[]) s = (.error fault, u) := by
      rw [outcome_bind, outcome_liftBlock] at hfault
      rcases hnew : outcome (liftBlock f b #[]) s with ⟨fault' | new, v⟩
      · simpa [hnew, Except.map] using hfault
      · simp [hnew, Except.map, outcome_pure] at hfault
    split at hhandler
    · obtain ⟨rfl, rfl⟩ := runs_pure.mp hhandler
      exact .inr ⟨_, u, hfault', rfl, h⟩
    · exact absurd hhandler not_runs_throw

/-- A block that is left out has been started as high as the listing says all the same, as starting a
block ends with no fault that is recorded. -/
theorem height_of_recorded {f : Frame} {b : Block} {s t : State} {fault : Fault}
    (hs : s.WellFormed) (h : outcome (liftBlock f b #[]) s = (.error fault, t))
    (hfault : Recorded fault) :
    ∀ first ∈ b.placed.head?,
      (visit f s b).entry.stack.vars.length = first.instruction.depthBefore := by
  intro first hfirst
  obtain ⟨rest, hcons⟩ : ∃ rest, b.placed = first :: rest := List.head?_eq_some_iff.mp hfirst
  simp only [liftBlock, hcons, outcome_bind] at h
  simp only [visit, entered, hcons]
  rcases henter : outcome (enterBlock first.instruction.depthBefore) s with ⟨fault' | u, t'⟩
  · simp only [henter, Prod.mk.injEq, Except.error.injEq] at h
    obtain ⟨rfl, -⟩ := h
    exact absurd hfault ((orderly_enterBlock _).spares s fault' t' henter)
  · obtain ⟨⟨ht', -⟩, -, hheight⟩ := enterBlock_spec hs henter
    rw [OperandStack.length_vars ht'.height_le]
    exact hheight u rfl

/-- In a lift that ends, every block is started as high as the listing says, and it is lifted to its end
unless it is left out. -/
theorem visits_of_runs {f : Frame} {blocks : List Block} {done : Array Step}
    {failed : Array (String × String)} {s s' : State}
    {result : Array Step × Array (String × String)} (hs : s.WellFormed)
    (h : Runs (liftBlocks f blocks done failed) s result s') :
    (∀ e ∈ failed, e ∈ result.2) ∧ ∀ v ∈ visits f s blocks,
      (∀ first ∈ v.block.placed.head?,
        v.entry.stack.vars.length = first.instruction.depthBefore) ∧
      ((∃ steps, v.Completed f steps) ∨ ∃ reason, (v.block.label, reason) ∈ result.2) := by
  induction blocks generalizing done failed s with
  | nil =>
    obtain ⟨rfl, rfl⟩ := runs_pure.mp h
    exact ⟨fun _ he => he, by simp [visits]⟩
  | cons b rest ih =>
    obtain ⟨-, -, hexit, -⟩ := visit_spec f b hs
    rcases runs_liftBlocks_cons h with ⟨new, t, hblock, hrest⟩ | ⟨fault, t, hblock, hfault, hrest⟩
    · obtain ⟨rfl, hcompleted, -⟩ := completed_of_runs hs hblock
      obtain ⟨hfailed, hvisits⟩ := ih hexit hrest
      refine ⟨hfailed, List.forall_mem_cons.mpr ⟨⟨hcompleted.height, .inl ⟨_, hcompleted⟩⟩, hvisits⟩⟩
    · -- The next block starts from what the block that is left out has done to the stack.
      have hend : (visit f s b).exit = t := congrArg Prod.snd hblock
      rw [← hend] at hrest
      obtain ⟨hfailed, hvisits⟩ := ih hexit hrest
      refine ⟨fun e he => hfailed e (Array.mem_push.mpr (.inl he)),
        List.forall_mem_cons.mpr ⟨⟨height_of_recorded hs hblock hfault, .inr ⟨fault.message, ?_⟩⟩,
          hvisits⟩⟩
      exact hfailed _ (Array.mem_push.mpr (.inr rfl))

/-- Each step of a lift was made in a block that was lifted to its end. -/
theorem exists_liftBlock_of_mem_steps {f : Frame} {blocks : List Block} {done : Array Step}
    {failed : Array (String × String)} {s s' : State}
    {result : Array Step × Array (String × String)} (hs : s.WellFormed)
    (h : Runs (liftBlocks f blocks done failed) s result s') {step : Step} (hstep : step ∈ result.1) :
    step ∈ done ∨ ∃ b u new t, u.WellFormed ∧ visit f u b ∈ visits f s blocks ∧
      Runs (liftBlock f b #[]) u new t ∧ step ∈ new := by
  induction blocks generalizing done failed s with
  | nil =>
    obtain ⟨rfl, rfl⟩ := runs_pure.mp h
    exact .inl hstep
  | cons b rest ih =>
    obtain ⟨-, -, hexit, -⟩ := visit_spec f b hs
    -- Whether or not the first block is lifted to its end, the others are visited from where it exits.
    have hlater {t : State} {more : Array Step} {others : Array (String × String)}
        (hend : (visit f s b).exit = t) (hrest : Runs (liftBlocks f rest more others) t result s') :
        step ∈ more ∨ ∃ c u new t, u.WellFormed ∧ visit f u c ∈ visits f s (b :: rest) ∧
          Runs (liftBlock f c #[]) u new t ∧ step ∈ new := by
      subst hend
      refine (ih hexit hrest).imp_right ?_
      rintro ⟨c, u, new, t, hu, hv, hblock, hnew⟩
      exact ⟨c, u, new, t, hu, List.mem_cons_of_mem _ hv, hblock, hnew⟩
    rcases runs_liftBlocks_cons h with ⟨new, t, hblock, hrest⟩ | ⟨fault, t, hblock, -, hrest⟩
    · rcases hlater (congrArg Prod.snd hblock) hrest with hmore | hfound
      · rcases Array.mem_append.mp hmore with hdone | hnew
        · exact .inl hdone
        · exact .inr ⟨b, s, new, t, hs, List.mem_cons_self, hblock, hnew⟩
      · exact .inr hfound
    · exact hlater (congrArg Prod.snd hblock) hrest

end MoveBytecode.Lift
