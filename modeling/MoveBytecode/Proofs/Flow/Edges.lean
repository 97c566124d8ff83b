import Mathlib.Data.List.Chain
import Mathlib.Data.List.Nodup
import MoveBytecode.Proofs.Flow.Blocks
import MoveBytecode.Proofs.Flow.Depths
import MoveBytecode.Proofs.Text

/-!
# Edges and the flow of the instructions

A graph is built in passes that look each other's results up: the targets of branches say where blocks
start, the starts say which targets become edges, and edges are written as labels. None of this loses
flow: on a run of instructions one behind the other, control may go from one to another exactly if the
second follows the first in a block or there is an edge from the block that the first ends to the block
that the second starts (`Graph.Depicts`).
-/

namespace MoveBytecode

open Body (Sound Scanned)

/-! ## Labels -/

/-- Different addresses have different labels. -/
theorem blockLabel_inj {x y : Int} : blockLabel x = blockLabel y ↔ x = y := by
  constructor
  · intro h
    exact Text.hex_inj (String.append_right_inj _ |>.mp h)
  · exact congrArg blockLabel

/-! ## Cuts -/

namespace Graph

/-- In a part of a cut, no instruction but the last ends a block, and none but the first is the
target of one that does. -/
def Whole (isLeader : Int → Bool) (part : List Placed) : Prop :=
  part.IsChain fun p q => p.flow.breaksBlock = false ∧ isLeader q.address = false

/-- Putting an instruction in front of whole parts leaves them whole. -/
theorem whole_of_mem_prepend {isLeader : Int → Bool} {p : Placed} {parts : List (List Placed)}
    (h : ∀ part ∈ parts, Whole isLeader part) :
    ∀ part ∈ prepend isLeader p parts, Whole isLeader part := by
  have hsingle : Whole isLeader [p] := List.IsChain.singleton p
  unfold prepend
  split
  · rename_i next others rest
    split
    · exact List.forall_mem_cons.mpr ⟨hsingle, h⟩
    · rename_i hstays
      obtain ⟨hfirst, hrest⟩ := List.forall_mem_cons.mp h
      simp only [Bool.or_eq_true, not_or, Bool.not_eq_true] at hstays
      exact List.forall_mem_cons.mpr ⟨List.isChain_cons_cons.mpr ⟨hstays, hfirst⟩, hrest⟩
  · exact List.forall_mem_cons.mpr ⟨hsingle, h⟩

/-- A run is cut at the targets of the instructions that end blocks. -/
theorem cut_eq (run : List Placed) : cut run = run.foldr (prepend (leaders run).contains) [] := by
  have hcontains : (Std.TreeSet.ofList (leaders run)).contains = (leaders run).contains := by
    funext address
    exact Std.TreeSet.contains_ofList
  rw [cut, hcontains]

/-- The parts of a cut are whole. -/
theorem whole_of_mem_cut {run part : List Placed} (h : part ∈ cut run) :
    Whole (leaders run).contains part := by
  have hfold : ∀ (isLeader : Int → Bool) (l : List Placed),
      ∀ part ∈ l.foldr (prepend isLeader) [], Whole isLeader part := by
    intro isLeader l
    induction l with
    | nil => simp
    | cons p rest ih => exact whole_of_mem_prepend ih
  rw [cut_eq] at h
  exact hfold _ run part h

/-- The last instruction of one block and the first of another. -/
def Meet (parts : List (List Placed)) (p q : Placed) : Prop :=
  ∃ u ∈ parts, ∃ v ∈ parts, u.getLast? = some p ∧ v.head? = some q

/-- What follows each other in a run does so in one of its parts or from the end of one to the
start of another. -/
theorem pair_or_meet {parts : List (List Placed)} (hparts : [] ∉ parts) {p q : Placed}
    (h : [p, q] <:+: parts.flatten) :
    (∃ part ∈ parts, [p, q] <:+: part) ∨ Meet parts p q := by
  induction parts with
  | nil => simp at h
  | cons part rest ih =>
    have hrest : [] ∉ rest := List.not_mem_of_not_mem_cons hparts
    have hlater (h : [p, q] <:+: rest.flatten) :
        (∃ v ∈ part :: rest, [p, q] <:+: v) ∨ Meet (part :: rest) p q := by
      obtain ⟨v, hv, hin⟩ | ⟨u, hu, v, hv, hends⟩ := ih hrest h
      · exact .inl ⟨v, List.mem_cons_of_mem _ hv, hin⟩
      · exact .inr ⟨u, List.mem_cons_of_mem _ hu, v, List.mem_cons_of_mem _ hv, hends⟩
    rw [List.flatten_cons, List.infix_append_iff] at h
    obtain hin | hin | ⟨front, back, heq, ⟨before, hfront⟩, ⟨after, hback⟩⟩ := h
    · exact .inl ⟨part, List.mem_cons_self, hin⟩
    · exact hlater hin
    · obtain ⟨rfl, rfl⟩ | ⟨front, rfl, htail⟩ := List.cons_eq_append_iff.mp heq
      · exact hlater ⟨[], after, hback⟩
      obtain ⟨rfl, rfl⟩ | ⟨front, rfl, hnil⟩ := List.cons_eq_append_iff.mp htail
      · -- The second instruction is the first behind the part.
        cases rest with
        | nil => simp at hback
        | cons v rest =>
          obtain ⟨first, others, rfl⟩ :=
            List.exists_cons_of_ne_nil (List.ne_of_not_mem_cons hrest).symm
          obtain ⟨rfl, -⟩ := List.cons.inj hback
          refine .inr ⟨part, List.mem_cons_self, _, List.mem_cons_of_mem _ List.mem_cons_self, ?_, rfl⟩
          rw [← hfront, List.getLast?_append, List.getLast?_singleton, Option.some_or]
      · obtain ⟨rfl, -⟩ := List.append_eq_nil_iff.mp hnil.symm
        exact .inl ⟨part, List.mem_cons_self, before, [], by rw [List.append_nil, hfront]⟩

/-! ## Joined cuts -/

/-- Control goes from a part to the targets of its last instruction at which a part starts. -/
theorem mem_outgoing {parts : List (List Placed)} {part : List Placed} {target : Int} :
    target ∈ outgoing parts part ↔
      (∃ p, part.getLast? = some p ∧ target ∈ p.flow.targets) ∧ target ∈ parts.map startOf := by
  unfold outgoing edges
  cases part.getLast? <;> simp [List.mem_eraseDups]

/-- A list without its repetitions has no duplicates. -/
theorem nodup_eraseDups : ∀ l : List Int, l.eraseDups.Nodup
  | [] => List.nodup_nil
  | a :: rest => by
    rw [List.eraseDups_cons, List.nodup_cons]
    refine ⟨?_, nodup_eraseDups _⟩
    simp [List.mem_eraseDups]
termination_by l => l.length
decreasing_by exact Nat.lt_succ_of_le (List.length_filter_le _ _)

/-- Control goes from a part to no address twice. -/
theorem nodup_outgoing (parts : List (List Placed)) (part : List Placed) :
    (outgoing parts part).Nodup := by
  unfold outgoing edges
  split
  · exact List.nodup_nil
  · exact nodup_eraseDups _

/-- A part starts at the address of its first instruction. -/
theorem startOf_of_head? {part : List Placed} {p : Placed} (h : part.head? = some p) :
    startOf part = p.address := by
  rw [startOf, h]
  rfl

/-- Parts start where some of the instructions are. -/
theorem map_startOf_sublist {parts : List (List Placed)} (h : [] ∉ parts) :
    (parts.map startOf).Sublist (parts.flatten.map (·.address)) := by
  induction parts with
  | nil => exact List.Sublist.slnil
  | cons part rest ih =>
    obtain ⟨p, others, rfl⟩ := List.exists_cons_of_ne_nil (List.ne_of_not_mem_cons h).symm
    rw [List.flatten_cons, List.cons_append, List.map_cons, List.map_cons, List.map_append]
    exact ((ih (List.not_mem_of_not_mem_cons h)).trans (List.sublist_append_right _ _)).cons_cons _

end Graph

/-! ## Runs -/

/-- The instructions of a run stand at different addresses, and where one ends, the next one
starts. -/
structure Placed.Sequent (run : List Placed) : Prop where
  nodup : (run.map (·.address)).Nodup
  behind : ∀ p ∈ run, ∀ q ∈ run,
    q.address = p.address + p.instruction.size ↔ [p, q] <:+: run

/-- Jumps and returns end a block, and nothing else does. -/
theorem Instruction.breaksBlock_iff {i : Instruction} {address : Int} :
    (i.flow address).breaksBlock = true ↔ i.opcode = .ret ∨ i.opcode.isBranch = true := by
  unfold flow Flow.breaksBlock
  cases i.opcode <;> simp [Opcode.isBranch]

namespace Graph

/-- The edges of a graph are the flow of the instructions of a run, which its blocks hold. -/
structure Depicts (g : Graph) (run : List Placed) : Prop where
  /-- Going through the blocks is going through the run. -/
  listing : g.blocks.flatMap Block.placed = run
  labels_nodup : (g.blocks.map (·.label)).Nodup
  /-- Control may go from one instruction to another exactly if the second follows the first in a
  block, or there is an edge from the block that ends with the first to the one that starts with the
  second. -/
  flow : ∀ p ∈ run, ∀ q ∈ run, q.address ∈ p.flow.targets ↔
    (∃ b ∈ g.blocks, [p, q] <:+: b.placed) ∨
      ∃ u ∈ g.blocks, ∃ v ∈ g.blocks, u.placed.getLast? = some p ∧ v.placed.head? = some q ∧
        v.label ∈ u.successors
  /-- Edges are listed at both ends. -/
  mem_successors : ∀ u ∈ g.blocks, ∀ v ∈ g.blocks,
    v.label ∈ u.successors ↔ u.label ∈ v.predecessors
  successors_nodup : ∀ u ∈ g.blocks, u.successors.Nodup
  predecessors_nodup : ∀ u ∈ g.blocks, u.predecessors.Nodup
  /-- Edges go to blocks, and come from blocks. -/
  successors_subset : ∀ u ∈ g.blocks, u.successors ⊆ g.blocks.map (·.label)
  predecessors_subset : ∀ u ∈ g.blocks, u.predecessors ⊆ g.blocks.map (·.label)
  /-- Control enters at the block that starts with the first instruction. -/
  entry : ∀ first, run.head? = some first →
    ∃ b ∈ g.blocks, b.label = g.entry ∧ b.placed.head? = some first

section

variable {run part : List Placed} {p q : Placed}

/-- The instructions of the parts are those of the run. -/
theorem mem_run_of_mem (hpart : part ∈ cut run) (hp : p ∈ part) : p ∈ run := by
  rw [← flatten_cut run]
  exact List.mem_flatten.mpr ⟨part, hpart, hp⟩

/-- Every instruction of a run is in a part. -/
theorem exists_part (hp : p ∈ run) : ∃ part ∈ cut run, p ∈ part := by
  rw [← flatten_cut run] at hp
  exact List.mem_flatten.mp hp

/-- In front of an instruction that follows another one in a part, no block ends or starts. -/
theorem whole_pair (hpart : part ∈ cut run) (h : [p, q] <:+: part) :
    p.flow.breaksBlock = false ∧ q.address ∉ leaders run := by
  obtain ⟨before, after, rfl⟩ := h
  have hpair := (whole_of_mem_cut hpart).left_of_append.right_of_append
  obtain ⟨⟨hstays, hleader⟩, -⟩ := List.isChain_cons_cons.mp hpair
  exact ⟨hstays, by simpa using hleader⟩

/-- An instruction that ends a block is the last of its part. -/
theorem getLast?_of_breaksBlock (hpart : part ∈ cut run) (hp : p ∈ part)
    (hbreaks : p.flow.breaksBlock = true) : part.getLast? = some p := by
  obtain ⟨before, after, rfl⟩ := List.append_of_mem hp
  cases after with
  | nil => exact List.getLast?_concat
  | cons q after =>
    have hpair : [p, q] <:+: before ++ p :: q :: after := ⟨before, after, by simp⟩
    simp [(whole_pair hpart hpair).1] at hbreaks

/-- An instruction at a target is the first of its part. -/
theorem head?_of_mem_leaders (hpart : part ∈ cut run) (hq : q ∈ part)
    (hleader : q.address ∈ leaders run) : part.head? = some q := by
  obtain ⟨before, after, rfl⟩ := List.append_of_mem hq
  rcases List.eq_nil_or_concat before with rfl | ⟨front, p, hbefore⟩
  · rfl
  · have hpair : [p, q] <:+: before ++ q :: after := ⟨front, after, by simp [hbefore]⟩
    exact absurd hleader (whole_pair hpart hpair).2

/-- Where control goes, the next instruction of a part is or another part starts. -/
theorem pair_or_meet_of_mem_targets (h : Placed.Sequent run) (hp : p ∈ run) (hq : q ∈ run)
    (htarget : q.address ∈ p.flow.targets) :
    (∃ part ∈ cut run, [p, q] <:+: part) ∨ Meet (cut run) p q := by
  rcases Instruction.mem_targets_iff.mp htarget with ⟨-, -, hnext⟩ | ⟨hbranch, -⟩
  · have hpair := (h.behind p hp q hq).mp hnext
    rw [← flatten_cut run] at hpair
    exact pair_or_meet (nil_notMem_cut run) hpair
  · -- A branch ends its block, and its target starts one.
    have hbreaks : p.flow.breaksBlock = true := Instruction.breaksBlock_iff.mpr (.inr hbranch)
    have hleader : q.address ∈ leaders run :=
      List.mem_flatMap.mpr ⟨p, hp, by rw [if_pos hbreaks]; exact htarget⟩
    obtain ⟨u, hu, hpu⟩ := exists_part hp
    obtain ⟨v, hv, hqv⟩ := exists_part hq
    exact .inr ⟨u, hu, v, hv, getLast?_of_breaksBlock hu hpu hbreaks,
      head?_of_mem_leaders hv hqv hleader⟩

/-- Within a part, control goes on with the next instruction. -/
theorem mem_targets_of_pair (h : Placed.Sequent run) (hpart : part ∈ cut run)
    (hpair : [p, q] <:+: part) : q.address ∈ p.flow.targets := by
  have hrun : [p, q] <:+: run := by
    rw [← flatten_cut run]
    exact hpair.trans (List.infix_of_mem_flatten hpart)
  have hstays := (whole_pair hpart hpair).1
  rw [Placed.flow, ← Bool.not_eq_true, Instruction.breaksBlock_iff, not_or, Bool.not_eq_true]
    at hstays
  refine Instruction.mem_targets_iff.mpr (.inl ⟨hstays.1, ?_, ?_⟩)
  · rintro hop
    simp [hop, Opcode.isBranch] at hstays
  · exact (h.behind p (hrun.subset (by simp)) q (hrun.subset (by simp))).mpr hrun

/-- No two parts of a run in sequence start at the same address. -/
theorem nodup_map_startOf (h : Placed.Sequent run) : ((cut run).map startOf).Nodup := by
  refine List.Nodup.sublist (map_startOf_sublist (nil_notMem_cut run)) ?_
  rw [flatten_cut]
  exact h.nodup

/-- Parts that start at the same address are the same. -/
theorem eq_of_startOf_eq (h : Placed.Sequent run) {u v : List Placed} (hu : u ∈ cut run)
    (hv : v ∈ cut run) (hstart : startOf u = startOf v) : u = v :=
  List.inj_on_of_nodup_map (nodup_map_startOf h) hu hv hstart

/-- Control goes on within the parts of a cut and along the edges between them. -/
theorem mem_targets_iff_cut (h : Placed.Sequent run) (hp : p ∈ run) (hq : q ∈ run) :
    q.address ∈ p.flow.targets ↔ (∃ part ∈ cut run, [p, q] <:+: part) ∨
      ∃ u ∈ cut run, ∃ v ∈ cut run, u.getLast? = some p ∧ v.head? = some q ∧
        startOf v ∈ outgoing (cut run) u := by
  constructor
  · intro htarget
    obtain hwithin | ⟨u, hu, v, hv, hlast, hhead⟩ := pair_or_meet_of_mem_targets h hp hq htarget
    · exact .inl hwithin
    · have hedge : startOf v ∈ outgoing (cut run) u :=
        mem_outgoing.mpr ⟨⟨p, hlast, startOf_of_head? hhead ▸ htarget⟩, List.mem_map_of_mem hv⟩
      exact .inr ⟨u, hu, v, hv, hlast, hhead, hedge⟩
  · rintro (⟨part, hpart, hpair⟩ | ⟨u, -, v, -, hlast, hhead, hedge⟩)
    · exact mem_targets_of_pair h hpart hpair
    · obtain ⟨⟨last, hlast', htarget⟩, -⟩ := mem_outgoing.mp hedge
      obtain rfl := Option.some.inj (hlast.symm.trans hlast')
      rwa [startOf_of_head? hhead] at htarget

/-- The first instruction starts a part, as nothing stands in front of it. -/
theorem exists_part_of_head? (h : run.head? = some p) : ∃ part ∈ cut run, part.head? = some p := by
  have hflatten := flatten_cut run
  have hnonempty := nil_notMem_cut run
  cases hcut : cut run with
  | nil =>
    rw [hcut] at hflatten
    simp [← hflatten] at h
  | cons part rest =>
    rw [hcut] at hflatten hnonempty
    obtain ⟨first, others, rfl⟩ :=
      List.exists_cons_of_ne_nil (List.ne_of_not_mem_cons hnonempty).symm
    rw [← hflatten] at h
    exact ⟨_, List.mem_cons_self, h⟩

/-- The label of a part is a successor iff control goes to the start of the part. -/
theorem label_mem_successors {parts : List (List Placed)} {u v : List Placed} :
    (blockOf parts v).label ∈ (blockOf parts u).successors ↔ startOf v ∈ outgoing parts u := by
  simp only [blockOf, List.mem_map, blockLabel_inj, exists_eq_right]

/-- The label of a part is a predecessor iff control goes from the part to the start of the other. -/
theorem label_mem_predecessors (h : Placed.Sequent run) {u v : List Placed} (hu : u ∈ cut run) :
    (blockOf (cut run) u).label ∈ (blockOf (cut run) v).predecessors ↔
      startOf v ∈ outgoing (cut run) u := by
  simp only [blockOf, List.mem_map, List.mem_filter, blockLabel_inj, List.contains_iff_mem]
  constructor
  · rintro ⟨other, ⟨hother, hedge⟩, hstart⟩
    rwa [← eq_of_startOf_eq h hother hu hstart]
  · exact fun hedge => ⟨u, ⟨hu, hedge⟩, rfl⟩

end

section

variable {instructions : List Instruction} {base : Int}

/-- The blocks of a graph are those of the parts of the run. -/
theorem blocks_build : (build instructions base).blocks =
    (cut (Placed.run base instructions)).map (blockOf (cut (Placed.run base instructions))) := by
  unfold build
  split
  · rename_i hempty
    rw [List.isEmpty_iff.mp hempty]
    rfl
  · exact join_eq _

/-- The entry of a graph is the label of its first instruction. -/
theorem entry_build {first : Placed} (h : (Placed.run base instructions).head? = some first) :
    (build instructions base).entry = blockLabel first.address := by
  cases instructions with
  | nil => simp [Placed.run] at h
  | cons i rest =>
    obtain rfl : (⟨base + i.offset - i.offset, i⟩ : Placed) = first := Option.some.inj h
    rw [Int.add_sub_cancel]
    rfl

/-- A block of a graph places its instructions where its part has them. -/
theorem placed_blockOf {part : List Placed} (hpart : part ∈ cut (Placed.run base instructions)) :
    (blockOf (cut (Placed.run base instructions)) part).placed = part :=
  Placed.run_startOf fun _ hp => Placed.address_eq_of_mem_run (mem_run_of_mem hpart hp)

/-- Every block of a graph comes from a part of the run. -/
theorem exists_part_of_mem_build {b : Block} (hb : b ∈ (build instructions base).blocks) :
    ∃ part ∈ cut (Placed.run base instructions),
      blockOf (cut (Placed.run base instructions)) part = b := by
  rw [blocks_build] at hb
  exact List.mem_map.mp hb

/-- The labels of a graph are those of the starts of the parts. -/
theorem map_label_build : (build instructions base).blocks.map (·.label) =
    ((cut (Placed.run base instructions)).map startOf).map blockLabel := by
  rw [blocks_build, List.map_map, List.map_map]
  rfl

/-- No two blocks of a graph have the same label. -/
theorem labels_nodup_build (h : Placed.Sequent (Placed.run base instructions)) :
    ((build instructions base).blocks.map (·.label)).Nodup := by
  rw [map_label_build]
  exact (nodup_map_startOf h).map fun _ _ => blockLabel_inj.mp

/-- Every part of the run makes a block of the graph. -/
theorem blockOf_mem_build {part : List Placed} (hpart : part ∈ cut (Placed.run base instructions)) :
    blockOf (cut (Placed.run base instructions)) part ∈ (build instructions base).blocks := by
  rw [blocks_build]
  exact List.mem_map_of_mem hpart

/-- Control goes on within the blocks of a graph and along the edges between them. -/
theorem mem_targets_iff_build (h : Placed.Sequent (Placed.run base instructions)) {p q : Placed}
    (hp : p ∈ Placed.run base instructions) (hq : q ∈ Placed.run base instructions) :
    q.address ∈ p.flow.targets ↔
      (∃ b ∈ (build instructions base).blocks, [p, q] <:+: b.placed) ∨
        ∃ u ∈ (build instructions base).blocks, ∃ v ∈ (build instructions base).blocks,
          u.placed.getLast? = some p ∧ v.placed.head? = some q ∧ v.label ∈ u.successors := by
  rw [mem_targets_iff_cut h hp hq]
  constructor
  · rintro (⟨part, hpart, hpair⟩ | ⟨u, hu, v, hv, hlast, hhead, hedge⟩)
    · exact .inl ⟨_, blockOf_mem_build hpart, by rwa [placed_blockOf hpart]⟩
    · exact .inr ⟨_, blockOf_mem_build hu, _, blockOf_mem_build hv, by rwa [placed_blockOf hu],
        by rwa [placed_blockOf hv], label_mem_successors.mpr hedge⟩
  · rintro (⟨b, hb, hpair⟩ | ⟨b, hb, c, hc, hlast, hhead, hedge⟩)
    · obtain ⟨part, hpart, rfl⟩ := exists_part_of_mem_build hb
      rw [placed_blockOf hpart] at hpair
      exact .inl ⟨part, hpart, hpair⟩
    · obtain ⟨u, hu, rfl⟩ := exists_part_of_mem_build hb
      obtain ⟨v, hv, rfl⟩ := exists_part_of_mem_build hc
      rw [placed_blockOf hu] at hlast
      rw [placed_blockOf hv] at hhead
      exact .inr ⟨u, hu, v, hv, hlast, hhead, label_mem_successors.mp hedge⟩

/-- A graph shows the flow of its instructions, if they stand one behind the other. -/
theorem depicts_build (h : Placed.Sequent (Placed.run base instructions)) :
    (build instructions base).Depicts (Placed.run base instructions) := by
  have hlabels_inj : Function.Injective blockLabel := fun _ _ => blockLabel_inj.mp
  -- The blocks are those of the parts of the cut, so that every field is a statement about parts.
  constructor
  case listing => exact flatMap_placed_build
  case labels_nodup => exact labels_nodup_build h
  case flow => exact fun p hp q hq => mem_targets_iff_build h hp hq
  case mem_successors =>
    intro u hu v hv
    obtain ⟨part, hpart, rfl⟩ := exists_part_of_mem_build hu
    obtain ⟨other, -, rfl⟩ := exists_part_of_mem_build hv
    rw [label_mem_successors, label_mem_predecessors h hpart]
  case successors_nodup =>
    intro u hu
    obtain ⟨part, -, rfl⟩ := exists_part_of_mem_build hu
    exact (nodup_outgoing _ part).map hlabels_inj
  case predecessors_nodup =>
    intro u hu
    obtain ⟨part, -, rfl⟩ := exists_part_of_mem_build hu
    refine List.Nodup.sublist (List.filter_sublist.map _) ?_
    rw [← Function.comp_def, ← List.map_map]
    exact (nodup_map_startOf h).map hlabels_inj
  case successors_subset =>
    intro u hu
    obtain ⟨part, -, rfl⟩ := exists_part_of_mem_build hu
    rw [map_label_build]
    exact List.map_subset _ fun target htarget => (mem_outgoing.mp htarget).2
  case predecessors_subset =>
    intro u hu
    obtain ⟨part, -, rfl⟩ := exists_part_of_mem_build hu
    rw [map_label_build, List.map_map]
    exact List.map_subset _ (List.filter_subset_self _)
  case entry =>
    intro first hfirst
    obtain ⟨part, hpart, hhead⟩ := exists_part_of_head? hfirst
    refine ⟨_, blockOf_mem_build hpart, ?_, by rwa [placed_blockOf hpart]⟩
    rw [entry_build hfirst, ← startOf_of_head? hhead]
    rfl

end

end Graph

namespace Body

variable {f : Frame} {data : Bytes} {base : Nat} {before slice after is : List Instruction}

/-- The instructions of a slice of a body stand one behind the other. -/
theorem Scanned.sequent_slice (h : Scanned f data base (before ++ slice ++ after)) (start : Int) :
    Placed.Sequent (Placed.run start slice) := by
  have haddress {p : Placed} (hp : p ∈ Placed.run start slice) :=
    Placed.address_eq_of_mem_run hp
  -- The slice is somewhere in a scanned listing, whose offsets ascend by the sizes of instructions.
  have hlisting {n : Nat} {p : Placed} (hp : (Placed.run start slice)[n]? = some p) :
      (before ++ slice ++ after)[before.length + n]? = some p.instruction := by
    have hslice : slice[n]? = some p.instruction := by
      rw [← Placed.map_instruction_run start slice, List.getElem?_map, hp, Option.map_some]
    have hn := (List.getElem?_eq_some_iff.mp hslice).1
    rw [List.append_assoc, List.getElem?_append_right (Nat.le_add_right _ _),
      Nat.add_sub_cancel_left, List.getElem?_append_left hn, hslice]
  have hbehind {m n : Nat} {p q : Placed} (hp : (Placed.run start slice)[m]? = some p)
      (hq : (Placed.run start slice)[n]? = some q) :
      q.address = p.address + p.instruction.size ↔ n = m + 1 := by
    have hoffset := h.offset_eq_behind_iff (hlisting hp) (hlisting hq)
    rw [haddress (List.mem_of_getElem? hp), haddress (List.mem_of_getElem? hq)]
    omega
  constructor
  case nodup =>
    refine List.nodup_iff_getElem?_ne_getElem?.mpr fun m n hmn hn => ?_
    rw [List.length_map] at hn
    rw [List.getElem?_map, List.getElem?_map, List.getElem?_eq_getElem (hmn.trans hn),
      List.getElem?_eq_getElem hn, Option.map_some, Option.map_some, ne_eq, Option.some.injEq,
      haddress (List.getElem_mem _), haddress (List.getElem_mem _)]
    have hlt := h.offset_lt (hlisting (List.getElem?_eq_getElem (hmn.trans hn)))
      (hlisting (List.getElem?_eq_getElem hn)) (Nat.add_lt_add_left hmn _)
    omega
  case behind =>
    intro p hp q hq
    constructor
    · intro hnext
      obtain ⟨m, hm⟩ := List.mem_iff_getElem?.mp hp
      obtain ⟨n, hn⟩ := List.mem_iff_getElem?.mp hq
      obtain rfl := (hbehind hm hn).mp hnext
      obtain ⟨hlt, rfl⟩ := List.getElem?_eq_some_iff.mp hm
      obtain ⟨hlt', rfl⟩ := List.getElem?_eq_some_iff.mp hn
      refine ⟨(Placed.run start slice).take m, (Placed.run start slice).drop (m + 2), ?_⟩
      rw [List.append_assoc, List.cons_append, List.cons_append, List.nil_append,
        List.getElem_cons_drop, List.getElem_cons_drop, List.take_append_drop]
    · rintro ⟨front, back, hsplit⟩
      refine (hbehind (m := front.length) (n := front.length + 1) ?_ ?_).mpr rfl <;>
        simp [← hsplit]

/-- The instructions of a body stand one behind the other. -/
theorem Sound.sequent (h : Sound f data base is) (start : Int) :
    Placed.Sequent (Placed.run start is) := by
  have hscan : Scanned f data base ([] ++ is ++ []) := by
    rw [List.nil_append, List.append_nil]
    exact h.scanned
  exact hscan.sequent_slice start

end Body

namespace Module

/-- In every function of a loaded module, wherever it is placed, the graph has the flow of the
instructions. -/
theorem loaded_depicts {config : Config} {data : Bytes} {m : Module} (h : Loads config data m)
    {f : Entry FunctionDef} (hf : f ∈ m.internalFunctions) (base : Int) :
    (Graph.build f.record.code.instructions base).Depicts
      (Placed.run base f.record.code.instructions) := by
  obtain ⟨frame, -, -, hsound⟩ :=
    (h.decoded.1.entries f (mem_functionEntries hf)).body.exists_frame
  exact Graph.depicts_build (hsound.sequent base)

/-- A script whose first branch leads to the next instruction, and whose second one leads back to
the start: `LD_TRUE`, `BR_TRUE 2`, `LD_TRUE`, `BR_FALSE 0`, `RET`. -/
def twoBranchSample : Bytes :=
  Format.assemble .libra [
    ⟨.moduleHandles, [0, 0]⟩, ⟨.functionHandles, [0, 1, 0]⟩, ⟨.addressPool, List.replicate 32 0⟩,
    ⟨.stringPool, [6, 0x3C, 0x53, 0x45, 0x4C, 0x46, 0x3E, 1, 0x66]⟩,
    ⟨.functionSignatures, [2, 0, 0]⟩, ⟨.localSignatures, [3, 0]⟩,
    ⟨.main, [0, 0, 2, 0, 5, 0] ++ [0x09] ++ [0x03, 2, 0] ++ [0x09] ++ [0x04, 0, 0] ++ [0x02]⟩]

/-- The two targets of the first branch are one edge, and the second branch leads to both ends. -/
theorem twoBranchSample_depicts : ∃ m f, load .standard twoBranchSample = .ok m ∧
    f ∈ m.internalFunctions ∧
    (Graph.build f.record.code.instructions 0x40).blocks.map (·.successors) =
      [["loc_44"], ["loc_48", "loc_40"], []] ∧
    (Graph.build f.record.code.instructions 0x40).Depicts
      (Placed.run 0x40 f.record.code.instructions) := by
  have check : (load .standard twoBranchSample).toOption.any (fun m =>
      decide (∃ f ∈ m.internalFunctions,
        (Graph.build f.record.code.instructions 0x40).blocks.map (·.successors) =
          [["loc_44"], ["loc_48", "loc_40"], []])) = true := by
    decide +kernel
  obtain ⟨m, hload, hcheck⟩ := exists_of_any_toOption check
  obtain ⟨f, hf, hedges⟩ := of_decide_eq_true hcheck
  exact ⟨m, f, hload, hf, hedges, loaded_depicts (.inl hload) hf 0x40⟩

end Module

end MoveBytecode
