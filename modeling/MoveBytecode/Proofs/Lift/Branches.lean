import MoveBytecode.Proofs.Flow.Flowcharts
import MoveBytecode.Proofs.Lift.Ranges

/-!
# Branches in all views

The listing, the graph, the flowchart and the lifted routine each work out on their own where a branch
leads, and the last two also which way it goes on truth: a lift negates the value that `BR_FALSE` pops, and
a flowchart exchanges the marks of its edges. They agree (`Module.lifted_branches_agree`).
-/

namespace MoveBytecode

namespace Lift

/-! ## Destinations -/

/-- A destination is `ifTrue` if the value of a variable is true, and `ifFalse` otherwise, whatever values
are. -/
def Selects (destination : Expr) (v : Var) (ifTrue ifFalse : Int) : Prop :=
  ∀ {V : Type} (I : Interpretation V) (env : Form.Env V),
    Form.destination? I env destination = some (if I.truth (env v.name) then ifTrue else ifFalse)

/-- The address that a branch leads to if it is taken. -/
def taken? : Expr → Option Int
  | .imm target _ => some target
  | .cond _ (.imm target _) _ _ => some target
  | _ => none

namespace Lifted

/-- Where an instruction of the function is mapped. -/
def addressOf (l : Lifted) (i : Instruction) : Int := l.function.mapping.start + i.offset

/-- The statements of the instruction at an address are a branch to a destination and nothing else. -/
def BranchesAt (l : Lifted) (address : Int) (destination : Expr) : Prop :=
  ∃ position, (address, position, position + 1) ∈ l.ranges ∧
    l.statements[position]? = some (.branch programCounter destination false)

/-- All views say that the branch `i`, if it is taken, leads to the instruction `d`. -/
structure LeadsTo (l : Lifted) (m : Module) (i d : Instruction) : Prop where
  listing : m.showOperand i (l.addressOf i) = .ok ("0x" ++ Text.hex (l.addressOf d))
  flow : (i.flow (l.addressOf i)).targets.getLast? = some (l.addressOf d)
  lifted : ∃ destination, l.BranchesAt (l.addressOf i) destination ∧
    taken? destination = some (l.addressOf d)

end Lifted

/-- The lines that a flowchart has for the edges of a block, where `rows` are the rows of the lift. -/
inductive EdgeLines (l : Lifted) (rows : List Lowering) (u : Block) : List String → Prop
  /-- A conditional branch leads to two blocks: to `t` if the lifted branch goes there when the value that
  is popped is true, and to `f` if it goes there when that is false. -/
  | marked {n : Nat} {i : Instruction} {v : Var} {destination : Expr} {t f : Block}
    (hlast : u.last? = some i) (hconditional : i.opcode.isConditionalBranch = true)
    (htwo : u.successors.length = 2)
    (hi : l.function.record.code.instructions[n]? = some i)
    (hbranch : l.BranchesAt (l.addressOf i) destination)
    (hpopped : (varsAt rows n).getLast? = some v)
    (hselects : Selects destination v t.address f.address)
    (ht : t ∈ l.graph.blocks) (hf : f ∈ l.graph.blocks) (hne : t ≠ f) :
    EdgeLines l rows u
      [Mermaid.markedEdge u.label "T" t.label, Mermaid.markedEdge u.label "F" f.label]
  /-- All other edges have a line each. -/
  | plain (h : ∀ i, u.last? = some i → i.opcode.isConditionalBranch = true →
      u.successors.length ≠ 2) :
    EdgeLines l rows u (u.successors.map (Mermaid.plainEdge u.label))

end Lift

open Lift

/-! ## Agreement -/

section

variable {i : Instruction} {vs : List Var} {target next : Int} {e : Expr}

/-- Where a branch leads if it is taken is its target. -/
theorem Leads.taken (h : Leads i vs target next e) : taken? e = some target := by
  cases h with
  | jump => rfl
  | branch => rfl

/-- A branch on falsehood tests the negated value, and negating a value changes its truth. -/
theorem Leads.selects (h : Leads i vs target next e) {truth : Bool}
    (hrole : i.opcode.role = .branch truth) : ∃ v, vs.getLast? = some v ∧
      Selects e v (if truth then target else next) (if truth then next else target) := by
  cases h with
  | jump hjump => simp [hjump] at hrole
  | @branch rest v _ hbranch hv =>
    obtain rfl := Role.branch.inj (hrole.symm.trans hbranch)
    refine ⟨v, by simp [hv], fun I env => ?_⟩
    cases truth with
    | true => cases hv : I.truth (env v.name) <;> simp [Form.destination?, Form.eval, hv]
    | false =>
      cases hv : I.truth (env v.name) <;>
        simp [Form.destination?, Form.eval, Form.evals, Form.apply, I.truth_negate, hv]

end

/-- A step whose only statement is a branch branches at its address. -/
theorem Lift.Lifted.branchesAt {l : Lifted} {n : Nat} {step : Step} {destination : Expr}
    (hn : l.steps.toList[n]? = some step)
    (hstatements : step.statements = [.branch programCounter destination false]) :
    l.BranchesAt step.address destination := by
  have hmem := l.mem_ranges hn
  have hstatement := Lifted.statements_at (k := 0) hn (by simp [hstatements])
  rw [hstatements] at hmem hstatement
  exact ⟨l.position n, hmem, hstatement⟩

/-- A conditional branch jumps on truth or on falsehood. -/
theorem Opcode.role_of_isConditionalBranch {opcode : Opcode} (h : opcode.isConditionalBranch = true) :
    ∃ truth, opcode.role = .branch truth ∧ opcode = if truth then .brTrue else .brFalse := by
  cases opcode with
  | brTrue => exact ⟨true, rfl, rfl⟩
  | brFalse => exact ⟨false, rfl, rfl⟩
  | _ => simp [isConditionalBranch] at h

/-- The last target of a branch is as far from it as its operand says. -/
theorem Instruction.getLast?_targets {i : Instruction} (h : i.opcode.isBranch = true) (address : Int) :
    (i.flow address).targets.getLast? = some (address + i.jump) := by
  unfold flow
  revert h
  cases i.opcode <;> simp [Opcode.isBranch]

/-- The listing of a branch shows the address of its target. -/
theorem Module.showOperand_branch (m : Module) {i : Instruction} {target : Nat}
    (h : i.operand = some ⟨.branch, target⟩) (address : Int) :
    m.showOperand i address = .ok ("0x" ++ Text.hex (address + i.jump)) := by
  rw [showOperand, h]
  rfl

namespace Translation

variable {l : Lifted} {frame : Frame} {b : Body.Frame} {data : Bytes} {start : Nat}
  {rows : List Lowering} {n : Nat} {i : Instruction}

section

variable (h : Translation l frame b data start l.function.mapping.start
  l.function.record.code.instructions rows)

include h

/-- Every branch of a lifted function has a target, and all views lead there. -/
theorem exists_leadsTo (m : Module) (hi : i ∈ l.function.record.code.instructions)
    (hbranch : i.opcode.isBranch = true) : ∃ target d, i.operand = some ⟨.branch, target⟩ ∧
      l.function.record.code.instructions[target]? = some d ∧ l.LeadsTo m i d := by
  obtain ⟨n, hn⟩ := List.mem_iff_getElem?.mp hi
  obtain ⟨target, d, step, e, hoperand, hd, hjump, hstep, haddress, hstatements, hleads⟩ :=
    h.exists_leads hn hbranch
  refine ⟨target, d, hoperand, hd, ?_, ?_, e, ?_, hleads.taken⟩
  · rw [m.showOperand_branch hoperand, Lifted.addressOf, hjump]
    rfl
  · rw [Instruction.getLast?_targets hbranch, Lifted.addressOf, hjump]
    rfl
  · rw [Lifted.addressOf, ← haddress]
    exact l.branchesAt hstep hstatements

/-- A block of the graph ends with an instruction of the listing, at its address. -/
theorem exists_last {u : Block}
    (hu : u ∈ (Graph.build l.function.record.code.instructions l.function.mapping.start).blocks)
    (hlast : u.last? = some i) :
    u.placed.getLast? = some ⟨l.addressOf i, i⟩ ∧
      ∃ n : Nat, l.function.record.code.instructions[n]? = some i := by
  rw [Block.last?, ← Block.map_instruction_placed, List.getLast?_map] at hlast
  obtain ⟨p, hp, rfl⟩ := Option.map_eq_some_iff.mp hlast
  have hrun : p ∈ Placed.run l.function.mapping.start l.function.record.code.instructions := by
    rw [← Graph.flatMap_placed_build]
    exact List.mem_flatMap.mpr ⟨u, hu, List.mem_of_getLast? hp⟩
  have haddress : p.address = l.addressOf p.instruction :=
    Placed.address_of_mem_run h.sound.offset_head hrun
  obtain ⟨n, hn⟩ := List.mem_iff_getElem?.mp (List.mem_map_of_mem hrun)
  rw [Placed.map_instruction_run] at hn
  exact ⟨by rw [hp, ← haddress], n, hn⟩

/-- The marks of a flowchart are the choices of the lifted branch. -/
theorem edgeLines (hgraph : l.graph = Graph.ofFunction l.function) {u : Block}
    (hu : u ∈ l.graph.blocks) : EdgeLines l rows u (Mermaid.edges u) := by
  by_cases hmarked : ∃ i, u.last? = some i ∧ i.opcode.isConditionalBranch = true ∧
      u.successors.length = 2
  · obtain ⟨i, hlast, hconditional, htwo⟩ := hmarked
    rw [hgraph, Graph.ofFunction] at hu
    obtain ⟨hplaced, n, hn⟩ := h.exists_last hu hlast
    obtain ⟨next, hnext, target, htarget, hne, hsuccessors, hnextAddress, htargetAddress⟩ :=
      Graph.exists_arms hu hplaced hconditional htwo
    obtain ⟨truth, hrole, hop⟩ := Opcode.role_of_isConditionalBranch hconditional
    obtain ⟨_, d, step, e, -, -, hjump, hstep, haddress, hstatements, hleads⟩ :=
      h.exists_leads hn (Opcode.isBranch_iff_role.mpr (.inr ⟨truth, hrole⟩))
    have hbranches : l.BranchesAt (l.addressOf i) e := by
      rw [Lifted.addressOf, ← haddress]
      exact l.branchesAt hstep hstatements
    -- The two blocks start where the lifted branch leads.
    have hleads : Leads i (varsAt rows n) target.address next.address e := by
      rw [htargetAddress, hnextAddress, Lifted.addressOf, hjump]
      exact hleads
    obtain ⟨v, hpopped, hselects⟩ := hleads.selects hrole
    rw [← Graph.ofFunction, ← hgraph] at hnext htarget
    rw [Mermaid.edges_eq_marked hlast hop hsuccessors]
    cases truth with
    | true =>
      exact .marked hlast hconditional htwo hn hbranches hpopped hselects htarget hnext hne.symm
    | false =>
      exact .marked hlast hconditional htwo hn hbranches hpopped hselects hnext htarget hne
  · have hplain : ∀ i, u.last? = some i → i.opcode.isConditionalBranch = true →
        u.successors.length ≠ 2 :=
      fun i hlast hconditional htwo => hmarked ⟨i, hlast, hconditional, htwo⟩
    rw [Mermaid.edges_eq_plain hplain]
    exact .plain hplain

end

end Translation

namespace Module

variable {data : Bytes} {m : Module} {target : RoutineRef} {w w' : Workspace} {l : Lifted}

/-- All views of a routine that is lifted from a binary in the standard layout agree on its branches. The
listing, the flow of control and the lifted branch name the same address, that of the instruction that the
operand numbers. A flowchart has a line for each edge and no others with an arrow; where a conditional
branch leads to two different blocks, the marks of the edges say which of them the lifted branch selects by
the value that is popped. -/
theorem lifted_branches_agree (hload : Loads .standard data m)
    (hlift : Runs ((Converter.mk m []).lift target) w l w') :
    (∀ i ∈ l.function.record.code.instructions, i.opcode.isBranch = true →
      ∃ index d, i.operand = some ⟨.branch, index⟩ ∧
        l.function.record.code.instructions[index]? = some d ∧ l.LeadsTo m i d) ∧
    ∃ lines, List.Forall₂ (EdgeLines l ((Converter.mk m []).rows l.function w)) l.graph.blocks lines ∧
      Mermaid.edgeLines (Mermaid.render l.graph) = lines.flatten := by
  obtain ⟨frame, b, -, h⟩ := Converter.exists_translation_of_loads hload hlift
  have hgraph := Converter.graph_of_runs_lift hlift
  refine ⟨fun i hi hbranch => h.exists_leadsTo m hi hbranch,
    l.graph.blocks.map Mermaid.edges, ?_, ?_⟩
  · rw [List.forall₂_map_right_iff, List.forall₂_same]
    exact fun u hu => h.edgeLines hgraph hu
  · rw [← List.flatMap_def, hgraph]
    exact Mermaid.edgeLines_render_build _ _

/-- The first branch of the sample has one successor, and the second one goes back on falsehood. -/
theorem twoBranchSample_agrees : ∃ (m : Module) (h : Host) (l : Lifted) (w' : Workspace)
    (i d : Instruction) (lines : List (List String)),
    loadInto .standard twoBranchSample .new = .ok (m, h) ∧
    Runs ((Converter.mk m []).lift (.hosted 0)) (.ofHost h) l w' ∧
    i.opcode = .brFalse ∧ l.addressOf d = 0x10000000 ∧ l.LeadsTo m i d ∧
    l.graph.blocks.map Mermaid.edges = [["    loc_10000000 --> loc_10000004"],
      ["    loc_10000004 -->|\"T\"| loc_10000008", "    loc_10000004 -->|\"F\"| loc_10000000"], []] ∧
    List.Forall₂ (EdgeLines l ((Converter.mk m []).rows l.function (.ofHost h))) l.graph.blocks
      lines ∧
    Mermaid.edgeLines (Mermaid.render l.graph) = lines.flatten := by
  have check : Converter.liftPasses twoBranchSample (fun _ _ l =>
      decide (∃ i ∈ l.function.record.code.instructions, i.opcode = .brFalse ∧
        i.operand = some ⟨.branch, 0⟩ ∧
        (l.function.record.code.instructions[0]?).map l.addressOf = some 0x10000000 ∧
        l.graph.blocks.map Mermaid.edges = [["    loc_10000000 --> loc_10000004"],
          ["    loc_10000004 -->|\"T\"| loc_10000008", "    loc_10000004 -->|\"F\"| loc_10000000"],
          []])) = true := by
    decide +kernel
  obtain ⟨m, h, l, w', hload, hlift, hcheck⟩ := Converter.exists_of_liftPasses check
  obtain ⟨i, hi, hop, hoperand, haddress, hedges⟩ := of_decide_eq_true hcheck
  obtain ⟨hleads, lines, hlines, hrendered⟩ :=
    lifted_branches_agree (.inr ⟨.new, h, hload⟩) hlift
  obtain ⟨index, d, hindex, hd, hi⟩ := hleads i hi (by rw [hop]; rfl)
  obtain rfl : 0 = index := by simpa [hoperand] using hindex
  rw [hd, Option.map_some, Option.some.injEq] at haddress
  exact ⟨m, h, l, w', i, d, lines, hload, hlift, hop, haddress, hi, hedges, hlines, hrendered⟩

end Module

end MoveBytecode
