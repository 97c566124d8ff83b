import MoveBytecode.Analysis
import MoveBytecode.Proofs.Lift.Kinds
import MoveBytecode.Proofs.Loading.Publication
import MoveBytecode.Proofs.Machine.Routine

/-!
# Ranges of statements

The ranges of a routine say where the statements of each instruction are. They lie side by side and cover
all statements, no matter whether positions are counted from the start of the routine or from the start of
each block (`rangesByBlock_eq`). An opcode says how wide the range of its instruction is and what is in
it, and every branch leads to an instruction that has a range, but for one that is not taken at the end of
the code (`Lifted.Tiled`).
-/

namespace MoveBytecode

namespace Lift

/-! ## Ranges side by side -/

/-- Ranges that lie side by side: the first one starts at `start`, each of the others where the one in
front of it stops, and the last one stops at `stop`. -/
def Tile : (start : Nat) → List (Int × Nat × Nat) → (stop : Nat) → Prop
  | start, [], stop => start = stop
  | start, (_, low, high) :: rest, stop => low = start ∧ low ≤ high ∧ Tile high rest stop

/-- The ranges of steps tile the statements of the steps. -/
theorem tile_rangesOf (start : Nat) (steps : List Step) :
    Tile start (rangesOf start steps) (start + (steps.flatMap (·.statements)).length) := by
  induction steps generalizing start with
  | nil => rfl
  | cons step rest ih =>
    refine ⟨rfl, Nat.le_add_right _ _, ?_⟩
    rw [List.flatMap_cons, List.length_append, ← Nat.add_assoc]
    exact ih _

/-- There is one range for each step, at the address of the step. -/
@[simp] theorem map_address_rangesOf (start : Nat) (steps : List Step) :
    (rangesOf start steps).map (·.1) = steps.map (·.address) := by
  induction steps generalizing start with
  | nil => rfl
  | cons step rest ih => rw [rangesOf, List.map_cons, List.map_cons, ih]

/-! ## Ranges block by block -/

/-- A range that is moved behind `front` statements. -/
def moved (front : Nat) (range : Int × Nat × Nat) : Int × Nat × Nat :=
  (range.1, front + range.2.1, front + range.2.2)

/-- The ranges of the steps of blocks, each counted from the start of its block and then moved behind the
statements of the blocks in front of it. -/
def rangesByBlock (front : Nat) : List (List Step) → List (Int × Nat × Nat)
  | [] => []
  | block :: rest =>
    (rangesOf 0 block).map (moved front) ++
      rangesByBlock (front + (block.flatMap (·.statements)).length) rest

/-- The ranges of steps that come later are moved behind the statements in front. -/
theorem map_moved_rangesOf (front start : Nat) (steps : List Step) :
    (rangesOf start steps).map (moved front) = rangesOf (front + start) steps := by
  induction steps generalizing start with
  | nil => rfl
  | cons step rest ih =>
    rw [rangesOf, List.map_cons, ih, rangesOf, moved, Nat.add_assoc]

/-- The ranges of steps are those of the first steps and then those of the others, moved. -/
theorem rangesOf_append (start : Nat) (first second : List Step) :
    rangesOf start (first ++ second) =
      rangesOf start first ++ rangesOf (start + (first.flatMap (·.statements)).length) second := by
  induction first generalizing start with
  | nil => rfl
  | cons step rest ih =>
    rw [List.cons_append, rangesOf, ih, rangesOf, List.cons_append, List.flatMap_cons,
      List.length_append, Nat.add_assoc]

/-- The range of a step starts behind the statements of the steps in front of it. -/
theorem Lifted.mem_ranges {l : Lifted} {n : Nat} {step : Step} (h : l.steps.toList[n]? = some step) :
    (step.address, l.position n, l.position n + step.statements.length) ∈ l.ranges := by
  rw [l.ranges_eq, Lifted.steps_split h, rangesOf_append, Nat.zero_add]
  exact List.mem_append_right _ List.mem_cons_self

/-- Ranges that are counted block by block are the ranges of the routine. -/
theorem rangesByBlock_eq (front : Nat) (blocks : List (List Step)) :
    rangesByBlock front blocks = rangesOf front blocks.flatten := by
  induction blocks generalizing front with
  | nil => rfl
  | cons block rest ih =>
    rw [rangesByBlock, map_moved_rangesOf, ih, List.flatten_cons, rangesOf_append, Nat.add_zero]

/-- The steps of a routine can be grouped by blocks if they have the addresses of the blocks. -/
theorem exists_grouped {blocks : List Block} {steps : List Step}
    (h : steps.map (·.address) = blocks.flatMap Block.addresses) :
    ∃ groups, groups.flatten = steps ∧
      List.Forall₂ (fun b group => b.addresses = group.map Step.address) blocks groups := by
  induction blocks generalizing steps with
  | nil => exact ⟨[], (List.map_eq_nil_iff.mp h).symm, .nil⟩
  | cons b rest ih =>
    obtain ⟨first, others, rfl, hfirst, hothers⟩ := List.map_eq_append_iff.mp h
    obtain ⟨groups, rfl, hgroups⟩ := ih hothers
    exact ⟨first :: groups, rfl, .cons hfirst.symm hgroups⟩

/-! ## Kinds and widths -/

/-- The range of an instruction is as wide as its opcode says, and the statements there have the kinds
that its opcode says. -/
def Spans (statements : List Stmt) (i : Instruction) (range : Int × Nat × Nat) : Prop :=
  range.2.2 = range.2.1 + i.opcode.statementKinds.length ∧
    ((statements.take range.2.2).drop range.2.1).map Stmt.kind = i.opcode.statementKinds

section

variable {ps : List Placed} {steps : List Step}

/-- Steps have the addresses of their instructions. -/
theorem map_address_steps (h : List.Forall₂ StepOf ps steps) :
    steps.map (·.address) = ps.map (·.address) := by
  induction h with
  | nil => rfl
  | cons hstep _ ih => rw [List.map_cons, List.map_cons, ih, hstep.1]

/-- The statements of steps have the kinds that the opcodes of their instructions say. -/
theorem map_kind_steps (h : List.Forall₂ StepOf ps steps) :
    (steps.flatMap (·.statements)).map Stmt.kind =
      ((ps.map (·.instruction)).map (·.opcode)).flatMap Opcode.statementKinds := by
  induction h with
  | nil => rfl
  | cons hstep _ ih =>
    rw [List.flatMap_cons, List.map_append, ih, hstep.2, List.map_cons, List.map_cons,
      List.flatMap_cons]

/-- The range of each step spans what the opcode of its instruction says. -/
theorem spans_rangesOf (h : List.Forall₂ StepOf ps steps) (front : List Stmt) :
    List.Forall₂ (Spans (front ++ steps.flatMap (·.statements))) (ps.map (·.instruction))
      (rangesOf front.length steps) := by
  induction h generalizing front with
  | nil => exact .nil
  | @cons p step ps steps hstep _ ih =>
    obtain ⟨-, hkinds⟩ := hstep
    have hrest := ih (front ++ step.statements)
    rw [List.length_append, List.append_assoc] at hrest
    refine .cons ⟨?_, ?_⟩ hrest
    · rw [← hkinds, List.length_map]
    · rw [← hkinds, List.flatMap_cons, ← List.append_assoc, ← List.length_append, List.take_left,
        List.drop_left]

end

/-! ## Routines -/

/-- A destination of a branch that is an instruction; if the branch is conditional and not taken, it may
also be behind the code. -/
inductive Resolved (keys : List Int) (stop : Int) : Expr → Prop
  | jump {target : Int} (h : target ∈ keys) : Resolved keys stop (.imm target 64)
  | conditional {predicate : Expr} {v : Var} {target next : Int}
    (hpredicate : predicate = .var v ∨ predicate = .operation .logicalNot [.var v] 1)
    (htarget : target ∈ keys) (hnext : next ∈ keys ∨ next = stop) :
    Resolved keys stop (.cond predicate (.imm target 64) (.imm next 64) 64)

/-- The opcodes of the function of a routine, in the order of the listing. -/
def Lifted.opcodes (l : Lifted) : List Opcode := l.function.record.code.instructions.map (·.opcode)

/-- The ranges of a routine tile its statements, and its branches lead to ranges. -/
structure Lifted.Tiled (l : Lifted) : Prop where
  /-- Each instruction of the function has a range, in the order of the listing. -/
  keys : l.ranges.map (·.1) =
    l.function.record.code.instructions.map fun i => l.function.mapping.start + i.offset
  ascending : (l.ranges.map (·.1)).Pairwise (· < ·)
  tile : Tile 0 l.ranges l.statements.length
  /-- The positions may as well be counted block by block. -/
  blockwise : ∃ groups : List (List Step), groups.flatten = l.steps.toList ∧
    List.Forall₂ (fun b group => b.addresses = group.map Step.address) l.graph.blocks groups ∧
    l.ranges = rangesByBlock 0 groups
  /-- The opcode of an instruction says how many statements are in its range and of which kinds. -/
  spans : List.Forall₂ (Spans l.statements) l.function.record.code.instructions l.ranges
  branches : ∀ counter destination isCall, .branch counter destination isCall ∈ l.statements →
    Resolved (l.ranges.map (·.1)) (l.function.mapping.start + l.function.record.code.size)
      destination

end Lift

open Lift

namespace Translation

variable {l : Lifted} {frame : Frame} {b : Body.Frame} {data : Bytes} {start : Nat} {base : Int}
  {body : List Instruction} {rows : List Lowering} {n : Nat} {i : Instruction}

/-- The ranges of a routine are at the addresses of the instructions of its body. -/
theorem map_address_ranges (h : Translation l frame b data start base body rows) :
    l.ranges.map (·.1) = body.map fun i => base + i.offset := by
  rw [l.ranges_eq, map_address_rangesOf, h.addresses_eq]

/-- The address behind an instruction is that of the next one or the end of the code. -/
theorem behind_mem (h : Translation l frame b data start base body rows) (hi : body[n]? = some i) :
    base + i.offset + i.size ∈ l.ranges.map (·.1) ∨
      base + i.offset + i.size = base + Instruction.totalSize body := by
  have hbehind := (h.sound.scanned.offset_eq hi).2
  rcases Nat.lt_or_ge (n + 1) body.length with hn | hn
  · have hnext := (h.sound.scanned.offset_eq (List.getElem?_eq_getElem hn)).1
    left
    rw [h.map_address_ranges]
    refine List.mem_map.mpr ⟨body[n + 1], List.getElem_mem hn, ?_⟩
    omega
  · right
    rw [List.take_of_length_le hn] at hbehind
    omega

/-- Every branch is resolved. -/
theorem resolved (h : Translation l frame b data start base body rows)
    (hsteps : List.Forall₂ StepOf (Placed.run base body) l.steps.toList) {counter : Var}
    {destination : Expr} {isCall : Bool}
    (hmem : .branch counter destination isCall ∈ l.statements) :
    Resolved (l.ranges.map (·.1)) (base + Instruction.totalSize body) destination := by
  obtain ⟨step, hstep, hstatement⟩ := List.mem_flatMap.mp hmem
  obtain ⟨n, hn⟩ := List.mem_iff_getElem?.mp hstep
  obtain ⟨p, hp, -, hkinds⟩ := exists_getElem?_of_forall₂ hsteps hn
  have hi : body[n]? = some p.instruction := by
    rw [← Placed.map_instruction_run base body, List.getElem?_map, hp, Option.map_some]
  -- Only the opcodes of branches have statements of this kind.
  have hbranch : p.instruction.opcode.isBranch = true := by
    have hkind : "branch" ∈ p.instruction.opcode.statementKinds := by
      rw [← hkinds]
      exact List.mem_map_of_mem hstatement
    revert hkind
    cases p.instruction.opcode <;> decide
  obtain ⟨target, d, step', e, -, hd, -, hn', -, hstatements, hleads⟩ := h.exists_leads hi hbranch
  obtain rfl := Option.some.inj (hn.symm.trans hn')
  rw [hstatements, List.mem_singleton] at hstatement
  obtain ⟨-, rfl, -⟩ := Stmt.branch.inj hstatement
  have htarget : base + d.offset ∈ l.ranges.map (·.1) := by
    rw [h.map_address_ranges]
    exact List.mem_map_of_mem (List.mem_of_getElem? hd)
  cases hleads with
  | jump => exact .jump htarget
  | @branch _ v truth =>
    refine .conditional (v := v) ?_ htarget (h.behind_mem hi)
    cases truth with
    | true => exact .inl rfl
    | false => exact .inr rfl

end Translation

namespace Converter

variable {data : Bytes} {m : Module} {target : RoutineRef} {w w' : Workspace} {l : Lifted}

/-- A lift from a loaded binary makes a step for each instruction, with statements of the kinds that its
opcode says. -/
theorem stepsOf_lift {config : Config} (hload : Module.Loads config data m)
    (hlift : Runs ((Converter.mk m []).lift target) w l w') :
    List.Forall₂ StepOf (Placed.run l.function.mapping.start l.function.record.code.instructions)
      l.steps.toList := by
  obtain ⟨frame, s, h⟩ := runs_lift hlift
  obtain ⟨b, -, hagrees, hsound⟩ := h.sound hload
  obtain ⟨⟨t, hrun⟩, -⟩ := h.runs_listing hload rfl hagrees hsound
  obtain ⟨new, hnew, hsteps⟩ := stepsOf_lowerAll h.wellFormed hrun
  obtain rfl : l.steps.toList = new := by simpa using hnew
  exact hsteps

/-- The ranges of a routine that was lifted tile its statements. -/
theorem tiled_of_runs_lift (hload : Module.Loads .standard data m)
    (hlift : Runs ((Converter.mk m []).lift target) w l w') : l.Tiled := by
  obtain ⟨frame, b, -, h⟩ := exists_translation_of_loads hload hlift
  have hsteps := stepsOf_lift hload hlift
  constructor
  case keys => exact h.map_address_ranges
  case ascending =>
    rw [l.ranges_eq, map_address_rangesOf]
    exact h.pairwise_addresses
  case tile =>
    rw [l.ranges_eq, Lifted.statements, ← Nat.zero_add (List.length _)]
    exact tile_rangesOf 0 _
  case blockwise =>
    -- The blocks of the graph hold the instructions in the order of the listing.
    have haddresses : l.steps.toList.map (·.address) = l.graph.blocks.flatMap Block.addresses := by
      have hblocks : l.graph.blocks.flatMap Block.placed = Placed.run l.function.mapping.start
          l.function.record.code.instructions := by
        rw [graph_of_runs_lift hlift]
        exact Graph.flatMap_placed_build
      rw [map_address_steps hsteps, ← hblocks, List.map_flatMap]
      rfl
    obtain ⟨groups, hgroups, hblocks⟩ := exists_grouped haddresses
    exact ⟨groups, hgroups, hblocks, by rw [l.ranges_eq, rangesByBlock_eq, hgroups]⟩
  case spans =>
    have hspans := spans_rangesOf hsteps []
    rw [Placed.map_instruction_run] at hspans
    rw [l.ranges_eq]
    exact hspans
  case branches => exact fun _ _ _ hmem => h.resolved hsteps hmem

end Converter

namespace Analysis

/-- The routines that a binary is lifted to are lifted one by one. -/
theorem exists_lift_of_mem {a : Analysis} {name : String} {w w' : Workspace} {ls : List Lifted}
    (h : Runs (a.lift name) w ls w') {l : Lifted} (hl : l ∈ ls) :
    ∃ number t t', Runs ((Converter.mk a.owner []).lift (.hosted number)) t l t' := by
  obtain ⟨_, _, -, h⟩ := runs_bind.mp h
  obtain ⟨functions, t, -, h⟩ := runs_bind.mp h
  have hlifted := Preserves.forall₂_of_runs_mapM (I := fun _ => True)
    (fun _ _ _ => trivial) (trivial : (fun _ => True) t) h
  obtain ⟨n, hn⟩ := List.mem_iff_getElem?.mp hl
  obtain ⟨f, -, u, u', -, hrun⟩ := exists_getElem?_of_forall₂ hlifted hn
  simp only [liftAt, runs_bind, runs_get] at hrun
  obtain ⟨_, _, ⟨rfl, rfl⟩, hrun⟩ := hrun
  split at hrun
  · rename_i number _
    exact ⟨number, _, u', hrun⟩
  · exact absurd hrun not_runs_throw

end Analysis

/-- In a routine that is lifted from a binary in the standard layout, the ranges tile the statements:
they are those of the instructions in the order of their addresses, each starts where the one in front of
it stops, and all statements are in one. An opcode says how many statements are in the range of its
instruction and of which kinds, so that the statistics of a binary follow from how often each opcode
occurs in the functions that are lifted. Every branch leads to an instruction, but for a conditional one
at the end of the code, which leads behind it if it is not taken. -/
theorem Module.lifted_tiled {data : Bytes} {m : Module} (hload : Loads .standard data m) :
    (∀ (target : RoutineRef) (w : Workspace) (l : Lifted) (w' : Workspace),
      Runs ((Converter.mk m []).lift target) w l w' → l.Tiled) ∧
    ∀ (h : Host) (w : Workspace) (counts : List (String × Nat)) (w' : Workspace),
      Runs (Analysis.mk m h).stats w counts w' →
      ∃ ls, Runs ((Analysis.mk m h).lift "") w ls w' ∧ ∀ kind, counts.lookup kind =
        if kindCount ((ls.flatMap Lifted.opcodes).count ·) kind = 0 then none
        else some (kindCount ((ls.flatMap Lifted.opcodes).count ·) kind) := by
  refine ⟨fun target w l w' hlift => Converter.tiled_of_runs_lift hload hlift,
    fun h w counts w' hrun => ?_⟩
  obtain ⟨ls, t, hlift, hcounts⟩ := runs_bind.mp hrun
  obtain ⟨rfl, rfl⟩ := runs_pure.mp hcounts
  refine ⟨ls, hlift, Stats.lookup_total fun l hl => ?_⟩
  obtain ⟨number, t, t', hone⟩ := Analysis.exists_lift_of_mem hlift hl
  have hkinds := map_kind_steps (Converter.stepsOf_lift hload hone)
  rw [Placed.map_instruction_run] at hkinds
  exact hkinds

/-- The sample has eleven instructions, twelve statements and one branch, which leads back. -/
theorem Module.countdownSample_tiled : ∃ (a : Analysis) (l : Lifted) (w' w'' : Workspace)
    (ls : List Lifted), Analysis.ofBytes .standard Converter.countdownSample = .ok a ∧
      Runs ((Converter.mk a.owner []).lift (.hosted 0)) (.ofHost a.host) l w' ∧ l.Tiled ∧
      l.ranges.map (·.2) = [(0, 1), (1, 2), (2, 4), (4, 5), (5, 6), (6, 7), (7, 8), (8, 9), (9, 10),
        (10, 11), (11, 12)] ∧
      Runs a.stats (.ofHost a.host) [("assign", 10), ("branch", 1), ("return", 1)] w'' ∧
      kindCount ((ls.flatMap Lifted.opcodes).count ·) "assign" = 10 := by
  have check : (Analysis.ofBytes .standard Converter.countdownSample).toOption.any (fun a =>
      (outcome ((Converter.mk a.owner []).lift (.hosted 0)) (.ofHost a.host)).1.toOption.any fun l =>
        (outcome a.stats (.ofHost a.host)).1.toOption.any fun counts =>
          decide (l.ranges.map (·.2) = [(0, 1), (1, 2), (2, 4), (4, 5), (5, 6), (6, 7), (7, 8), (8, 9),
            (9, 10), (10, 11), (11, 12)] ∧
              counts = [("assign", 10), ("branch", 1), ("return", 1)])) = true := by
    unfold Analysis.stats Analysis.lift Analysis.liftAt Converter.lift assignPrototypes
    rw [Host.routineNumbers_eq]
    decide +kernel
  obtain ⟨a, hload, hcheck⟩ := exists_of_any_toOption check
  obtain ⟨l, hlift, hcheck⟩ := exists_of_any_toOption hcheck
  obtain ⟨counts, hstats, hcheck⟩ := exists_of_any_toOption hcheck
  obtain ⟨hranges, rfl⟩ := of_decide_eq_true hcheck
  have hlift : Runs ((Converter.mk a.owner []).lift (.hosted 0)) (.ofHost a.host) l _ :=
    Prod.ext hlift rfl
  have hstats : Runs a.stats (.ofHost a.host) [("assign", 10), ("branch", 1), ("return", 1)] _ :=
    Prod.ext hstats rfl
  -- The counts of statements are computed here, and by the theorem they are those of the opcodes.
  obtain ⟨htiled, hkinds⟩ := lifted_tiled (Analysis.loads_and_published hload).1
  obtain ⟨ls, -, hcounts⟩ := hkinds a.host _ _ _ hstats
  refine ⟨a, l, _, _, ls, hload, hlift, htiled _ _ _ _ hlift, hranges, hstats, ?_⟩
  have hassign := hcounts "assign"
  split at hassign
  · exact absurd hassign (by decide)
  · exact (Option.some.inj hassign).symm

end MoveBytecode
