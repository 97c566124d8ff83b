import MoveBytecode.Proofs.Lift.Conversion
import MoveBytecode.Proofs.Loading.Views

/-!
# Routines row by row

In a lift of all opcodes no block is left out, and each finds the stack as high as it expects it: the
lift is one run over the whole listing. Its steps are those of the listing, one for each instruction, and
the variables of the values on the stack go on from each instruction to the next, also where a new block
starts: `Rows`.
-/

namespace MoveBytecode

namespace Lift

/-! ## No block is left out -/

/-- An instruction whose opcode is to be lowered and that can be shown fails with no fault that a lift
would go on after. -/
theorem spares_lowerAt {f : Frame} {p : Placed} (hremoved : f.removed = [])
    (hshow : Answers (f.owner.showInstruction p.instruction p.address)) :
    Spares (fun fault => ¬ Recorded fault) (lowerAt f p) := by
  obtain ⟨text, htext⟩ := hshow
  have hsupported : Spares (fun fault => ¬ Recorded fault) (lowerSupported f p) := by
    unfold lowerSupported
    rw [hremoved]
    exact (orderly_lower f _ _).spares
  have hreport : ∀ e, ¬ Recorded e →
      Spares (fun fault => ¬ Recorded fault) (reportFault f p e) := by
    intro e he
    unfold reportFault
    rw [htext]
    exact spares_bind (spares_pure _) fun _ => spares_bind (spares_modify _) fun _ => spares_throw he
  exact spares_bind (spares_tryCatch hsupported hreport) fun statements =>
    spares_bind (spares_forM (fun _ => spares_modify _) statements) fun _ => spares_pure _

/-- Lifting a block has no recorded fault if lowering each of its instructions has none. -/
theorem spares_liftBlock {f : Frame} {b : Block}
    (h : ∀ p ∈ b.placed, Spares (fun fault => ¬ Recorded fault) (lowerAt f p)) :
    Spares (fun fault => ¬ Recorded fault) (liftBlock f b #[]) := by
  have hall : ∀ (ps : List Placed) (done : Array Step),
      (∀ p ∈ ps, Spares (fun fault => ¬ Recorded fault) (lowerAt f p)) →
      Spares (fun fault => ¬ Recorded fault) (lowerAll f ps done) := by
    intro ps
    induction ps with
    | nil => exact fun _ _ => spares_pure _
    | cons p rest ih =>
      intro done hps
      exact spares_bind (hps p List.mem_cons_self) fun step =>
        ih (done.push step) fun q hq => hps q (List.mem_cons_of_mem _ hq)
  unfold liftBlock
  split
  · exact spares_pure _
  · rename_i first rest hcons
    exact spares_bind (orderly_enterBlock _).spares fun _ => hall _ _ (hcons ▸ h)

/-! ## Rows -/

/-- The lowerings of placed instructions: each has made a step, and each has started with the values on
the stack that the one before has left. -/
structure Rows (f : Frame) (placed : List Placed) (vs : List Var) (rows : List Lowering)
    (steps : List Step) (ws : List Var) : Prop where
  placed : rows.map (·.placed) = placed
  linked : Linked vs rows ws
  yields : List.Forall₂ (Lowering.Yields f) rows steps

/-- The rows of a listing are for its instructions. -/
theorem Rows.map_instruction {f : Frame} {base : Int} {body : List Instruction} {vs ws : List Var}
    {rows : List Lowering} {steps : List Step}
    (h : Rows f (Placed.run base body) vs rows steps ws) :
    rows.map (·.placed.instruction) = body := by
  rw [← Placed.map_instruction_run base body, ← h.placed, List.map_map]
  rfl

/-! ## One run over the listing -/

/-- Entering a block that expects the height of the stack changes nothing. -/
theorem runs_enterBlock_of_height {s : State} (hs : s.WellFormed) {depth : Nat}
    (hdepth : s.stack.height = depth) : Runs (enterBlock depth) s () s := by
  subst hdepth
  have hslots : s.stack.height - s.stack.slots.size = 0 := Nat.sub_eq_zero_of_le hs.height_le
  simp only [enterBlock, runs_bind, runs_get]
  refine ⟨s, s, ⟨rfl, rfl⟩, ⟨⟩, s, ?_, runs_modify.mpr rfl⟩
  rw [hslots]
  exact runs_pure.mpr ⟨rfl, rfl⟩

/-- A block that is entered at the height that the stack has is lifted like its instructions. -/
theorem outcome_liftBlock_of_height {f : Frame} {b : Block} {first : Placed} {rest : List Placed}
    {s : State} (hs : s.WellFormed) (hplaced : b.placed = first :: rest)
    (hdepth : s.stack.height = first.instruction.depthBefore) (done : Array Step) :
    outcome (liftBlock f b done) s = outcome (lowerAll f b.placed done) s ∧ entered b s = s := by
  have henter := runs_enterBlock_of_height hs hdepth
  constructor
  · simp only [liftBlock, hplaced]
    exact outcome_bind_of_runs henter
  · simp only [entered, hplaced]
    exact congrArg Prod.snd henter

/-- Instructions are lowered to their end iff the first are, and then the others. -/
theorem runs_lowerAll_append {f : Frame} {first second : List Placed} {done result : Array Step}
    {s t : State} : Runs (lowerAll f (first ++ second) done) s result t ↔
      ∃ steps u, Runs (lowerAll f first done) s steps u ∧
        Runs (lowerAll f second steps) u result t := by
  induction first generalizing done s with
  | nil => simp [lowerAll]
  | cons p rest ih =>
    simp only [List.cons_append, lowerAll, runs_bind, ih]
    constructor
    · rintro ⟨step, v, hstep, steps, u, hrest, h⟩
      exact ⟨steps, u, ⟨step, v, hstep, hrest⟩, h⟩
    · rintro ⟨steps, u, ⟨step, v, hstep, hrest⟩, h⟩
      exact ⟨step, v, hstep, steps, u, hrest, h⟩

/-- The lowerings of instructions are those of the first and then those of the others. -/
theorem lowerings_append {f : Frame} {first second : List Placed} {done steps : Array Step} {s t : State}
    (h : Runs (lowerAll f first done) s steps t) :
    lowerings f (first ++ second) s = lowerings f first s ++ lowerings f second t := by
  induction first generalizing done s with
  | nil =>
    obtain ⟨-, rfl⟩ := runs_pure.mp h
    rfl
  | cons p rest ih =>
    obtain ⟨step, u, hstep, h⟩ := runs_bind.mp h
    simp only [List.cons_append, lowerings, show outcome (lowerAt f p) s = (.ok step, u) from hstep,
      ih h]

section

variable {f : Frame} {b : Body.Frame} {data : Bytes} {base : Nat} {before after : List Instruction}
  {s t : State}

/-- The stack is as high as a block expects it, if it is as high as the listing says. -/
theorem height_of_scanned {c : Block} {first : Placed} {others : List Placed} (hs : s.WellFormed)
    (hplaced : c.placed = first :: others)
    (hscan : Body.Scanned b data base (before ++ c.placed.map (·.instruction) ++ after))
    (hheight : s.stack.vars.length = Instruction.depthBehind before) :
    s.stack.height = first.instruction.depthBefore := by
  have hlisted := hscan before first.instruction (others.map (·.instruction) ++ after)
    (by simp [hplaced])
  rw [hlisted.depthBefore, ← hheight, OperandStack.length_vars hs.height_le]

variable (hb : Agrees f b)

include hb

/-- Behind instructions that are lowered without a fault the stack is as high as the listing says. -/
theorem length_of_runs_lowerAll {ps : List Placed} {done steps : Array Step} {t : State}
    (hs : s.WellFormed)
    (hscan : Body.Scanned b data base (before ++ ps.map (·.instruction) ++ after))
    (hheight : s.stack.vars.length = Instruction.depthBehind before)
    (h : Runs (lowerAll f ps done) s steps t) :
    t.stack.vars.length = Instruction.depthBehind (before ++ ps.map (·.instruction)) := by
  obtain ⟨hplaced, hlinked, new, -, hyields⟩ := runs_lowerAll hs h
  have hinstructions : (lowerings f ps s).map (·.placed.instruction) = ps.map (·.instruction) := by
    calc (lowerings f ps s).map (·.placed.instruction)
      _ = ((lowerings f ps s).map (·.placed)).map (·.instruction) := by rw [List.map_map]; rfl
      _ = ps.map (·.instruction) := by rw [hplaced]
  rw [← hinstructions] at hscan ⊢
  exact (length_of_linked hb hscan hyields hlinked hheight).1

/-- A lift of blocks that follow the listing, of which none is left out, is one run over their
instructions: each block finds the stack as high as it expects it. -/
theorem runs_lowerAll_of_liftBlocks {blocks : List Block} {done : Array Step}
    {failed : Array (String × String)} {result : Array Step × Array (String × String)}
    (hs : s.WellFormed)
    (hscan : Body.Scanned b data base (before ++ blocks.flatMap (·.instructions) ++ after))
    (hblocks : ∀ c ∈ blocks, c.placed ≠ [] ∧
      Spares (fun fault => ¬ Recorded fault) (liftBlock f c #[]))
    (hheight : s.stack.vars.length = Instruction.depthBehind before)
    (h : Runs (liftBlocks f blocks done failed) s result t) :
    Runs (lowerAll f (blocks.flatMap Block.placed) done) s result.1 t ∧
      (visits f s blocks).flatMap (·.lowerings) = lowerings f (blocks.flatMap Block.placed) s := by
  induction blocks generalizing before done failed s with
  | nil =>
    obtain ⟨rfl, rfl⟩ := runs_pure.mp h
    exact ⟨runs_pure.mpr ⟨rfl, rfl⟩, rfl⟩
  | cons c rest ih =>
    obtain ⟨⟨hne, hspares⟩, hrest⟩ := List.forall_mem_cons.mp hblocks
    obtain ⟨first, others, hplaced⟩ := List.exists_cons_of_ne_nil hne
    have hblockScan : Body.Scanned b data base (before ++ c.placed.map (·.instruction) ++
        (rest.flatMap (·.instructions) ++ after)) := by
      simpa [Block.map_instruction_placed] using hscan
    have hdepth := height_of_scanned hs hplaced hblockScan hheight
    -- No block has a recorded fault, so each one is lifted to its end and the next is entered as it is.
    rcases runs_liftBlocks_cons h with ⟨new, u, hblock, hlift⟩ | ⟨fault, u, hfault, hrecorded, -⟩
    · obtain ⟨hsame, hentered⟩ := outcome_liftBlock_of_height hs hplaced hdepth #[]
      rw [Runs, hsame] at hblock
      have hrun : Runs (lowerAll f c.placed done) s (done ++ new) u := by
        rw [Runs, outcome_lowerAll, hblock]
        rfl
      have hexit : (visit f s c).exit = u := by
        rw [visit, hsame, hblock]
      have hu : u.WellFormed := (keeps_lowerAll f c.placed #[] s _ u hblock hs).1
      obtain ⟨hall, hlowerings⟩ := ih hu (by simpa [Block.map_instruction_placed] using hscan) hrest
        (length_of_runs_lowerAll hb hs hblockScan hheight hblock) hlift
      rw [visits, List.flatMap_cons, List.flatMap_cons, hexit, hlowerings, lowerings_append hrun]
      refine ⟨runs_lowerAll_append.mpr ⟨_, u, hrun, hall⟩, ?_⟩
      rw [visit, hentered]
    · exact absurd hrecorded (hspares s fault u hfault)

end

end Lift

open Lift

/-- Every instruction of a function of a loaded binary can be shown, so a lift of all opcodes leaves none
of its blocks out. -/
theorem Converter.spares_of_opened {c : Converter} {f : Entry FunctionDef} {w : Workspace}
    {frame : Frame} {s : State} (hopened : c.opened f w = (.ok frame, s))
    (hf : f ∈ c.owner.internalFunctions) {config : Config} {data : Bytes}
    (hload : Module.Loads config data c.owner) (hremoved : c.removed = []) {block : Block}
    (hblock : block ∈ (Graph.ofFunction f).blocks) :
    block.placed ≠ [] ∧ Spares (fun fault => ¬ Recorded fault) (liftBlock frame block #[]) := by
  obtain ⟨b, -, -, hsound⟩ := sound_of_opened hopened hf hload
  have hopen := opened_of_runs hopened
  refine ⟨Graph.placed_ne_nil hblock, spares_liftBlock fun p hp => ?_⟩
  have hmem : p.instruction ∈ f.record.code.instructions := by
    rw [← @Graph.flatMap_instructions_build f.record.code.instructions f.mapping.start]
    refine List.mem_flatMap.mpr ⟨block, hblock, ?_⟩
    rw [← Block.map_instruction_placed]
    exact List.mem_map_of_mem hp
  refine spares_lowerAt (hopen.removed.trans hremoved) ?_
  rw [hopen.owner]
  exact hload.decoded.1.closed.showInstruction (Module.record_mem_functions hf) hmem p.address

end MoveBytecode
