import MoveBytecode.Proofs.Flow.Edges

/-!
# Graphs at other addresses

A graph is built from addresses: they are targets, starts of blocks and, written as texts, the labels of
blocks and the ends of edges. All that is asked of them is whether two are the same. So to build the graph
of instructions that are placed elsewhere is to move the graph (`Graph.build_add`), also where labels
change their length or their sign, and where branches lead out of the instructions.
-/

namespace MoveBytecode

/-! ## Moved addresses -/

/-- A placed instruction, `d` further on. -/
def Placed.rebase (d : Int) (p : Placed) : Placed := { p with address := p.address + d }

namespace Graph

/-- The address that a text is the label of, if it is a label. -/
def labelAddress? (label : String) : Option Int :=
  let address := Text.readHex (label.toList.drop "loc_".length)
  if blockLabel address = label then some address else none

/-- The label of the block at an address that was moved by `d`; a text that is no label stays. -/
def relabel (d : Int) (label : String) : String :=
  ((labelAddress? label).map fun address => blockLabel (address + d)).getD label

end Graph

/-- A block, `d` further on. -/
def Block.rebase (d : Int) (b : Block) : Block where
  label := Graph.relabel d b.label
  address := b.address + d
  instructions := b.instructions
  successors := b.successors.map (Graph.relabel d)
  predecessors := b.predecessors.map (Graph.relabel d)

/-- A graph, `d` further on. -/
def Graph.rebase (d : Int) (g : Graph) : Graph where
  blocks := g.blocks.map (Block.rebase d)
  entry := Graph.relabel d g.entry

/-! ## Labels -/

namespace Graph

/-- The address of a label is read back from it. -/
@[simp] theorem labelAddress?_blockLabel (address : Int) :
    labelAddress? (blockLabel address) = some address := by
  have hread : Text.readHex ((blockLabel address).toList.drop "loc_".length) = address := by
    rw [blockLabel, String.toList_append, show "loc_".length = "loc_".toList.length from rfl,
      List.drop_left, Text.readHex_hex]
  rw [labelAddress?, hread]
  exact if_pos rfl

/-- The label of an address is moved with the address. -/
@[simp] theorem relabel_blockLabel (d address : Int) :
    relabel d (blockLabel address) = blockLabel (address + d) := by
  rw [relabel, labelAddress?_blockLabel]
  rfl

/-- Below zero labels have a sign. -/
example : relabel (-5) "loc_3" = "loc_-2" := by
  decide +kernel

end Graph

/-! ## Runs -/

namespace Placed

/-- Placing instructions from a base further on places each of them further on. -/
theorem run_add (base d : Int) (instructions : List Instruction) :
    run (base + d) instructions = (run base instructions).map (rebase d) := by
  rw [run, run, List.map_map]
  refine List.map_congr_left fun i _ => ?_
  simp only [Function.comp_apply, rebase, Placed.mk.injEq, and_true]
  omega

/-- An instruction that is further on has its targets further on. -/
theorem flow_rebase (d : Int) (p : Placed) :
    (p.rebase d).flow = ⟨p.flow.kind, p.flow.targets.map (· + d)⟩ := by
  simp only [flow, rebase, Instruction.flow]
  cases p.instruction.opcode <;> simp [Int.add_right_comm]

/-- The targets of an instruction that is further on are further on. -/
@[simp] theorem targets_rebase (d : Int) (p : Placed) :
    (p.rebase d).flow.targets = p.flow.targets.map (· + d) := by
  rw [flow_rebase]

/-- An instruction that is further on ends a block iff it does so where it was. -/
@[simp] theorem breaksBlock_rebase (d : Int) (p : Placed) :
    (p.rebase d).flow.breaksBlock = p.flow.breaksBlock := by
  rw [flow_rebase]
  rfl

end Placed

namespace Graph

/-! ## Addresses -/

/-- A list of numbers that are further on has a number further on iff the list has the number. -/
theorem contains_map_add (l : List Int) (d x : Int) :
    (l.map (· + d)).contains (x + d) = l.contains x := by
  simp

/-- What was moved together stays different. -/
theorem eraseDups_map_add (d : Int) : ∀ l : List Int,
    (l.map (· + d)).eraseDups = l.eraseDups.map (· + d)
  | [] => rfl
  | a :: rest => by
    have hfilter : (rest.map (· + d)).filter (fun b => !b == a + d) =
        (rest.filter fun b => !b == a).map (· + d) := by
      rw [List.filter_map]
      congr 1
      refine List.filter_congr fun b _ => ?_
      have hsame : b + d = a + d ↔ b = a := by omega
      simp only [Function.comp_apply, Bool.beq_eq_decide_eq, hsame]
    rw [List.map_cons, List.eraseDups_cons, List.eraseDups_cons, hfilter, eraseDups_map_add,
      List.map_cons]
termination_by l => l.length
decreasing_by exact Nat.lt_succ_of_le (List.length_filter_le _ _)

/-! ## Cuts -/

/-- The leaders of a run that is further on are further on. -/
theorem leaders_rebase (d : Int) (run : List Placed) :
    leaders (run.map (Placed.rebase d)) = (leaders run).map (· + d) := by
  rw [leaders, leaders, List.flatMap_map, List.map_flatMap]
  congr 1
  funext p
  simp only [Placed.breaksBlock_rebase, Placed.targets_rebase]
  split <;> rfl

/-- Cutting commutes with moving: whether an instruction starts a part depends on distances only. -/
theorem prepend_rebase {isLeader isLeader' : Int → Bool} {d : Int}
    (h : ∀ address, isLeader' (address + d) = isLeader address) (p : Placed)
    (parts : List (List Placed)) :
    prepend isLeader' (p.rebase d) (parts.map (List.map (Placed.rebase d))) =
      (prepend isLeader p parts).map (List.map (Placed.rebase d)) := by
  match parts with
  | [] => rfl
  | [] :: rest => rfl
  | (next :: others) :: rest =>
    have hleader : isLeader' (next.rebase d).address = isLeader next.address := h next.address
    simp only [prepend, List.map_cons, Placed.breaksBlock_rebase, hleader]
    split
    · rfl
    · rfl

/-- A run that was moved is cut at the same places. -/
theorem cut_rebase (d : Int) (run : List Placed) :
    cut (run.map (Placed.rebase d)) = (cut run).map (List.map (Placed.rebase d)) := by
  rw [cut_eq, cut_eq, leaders_rebase]
  have hleader (address : Int) := contains_map_add (leaders run) d address
  generalize ((leaders run).map (· + d)).contains = isLeader' at hleader ⊢
  generalize (leaders run).contains = isLeader at hleader ⊢
  induction run with
  | nil => rfl
  | cons p rest ih => rw [List.map_cons, List.foldr_cons, List.foldr_cons, ih, prepend_rebase hleader]

/-! ## Joined cuts -/

/-- A part that is further on starts further on. -/
theorem startOf_rebase {part : List Placed} (hpart : part ≠ []) (d : Int) :
    startOf (part.map (Placed.rebase d)) = startOf part + d := by
  obtain ⟨p, rest, rfl⟩ := List.exists_cons_of_ne_nil hpart
  rfl

section

variable {parts : List (List Placed)} (hparts : [] ∉ parts) (d : Int)

include hparts

/-- Parts that are further on start further on. -/
theorem map_startOf_rebase : (parts.map (List.map (Placed.rebase d))).map startOf =
    (parts.map startOf).map (· + d) := by
  rw [List.map_map, List.map_map]
  exact List.map_congr_left fun part hpart => startOf_rebase (ne_of_mem_of_not_mem hpart hparts) d

/-- Where control goes from a part that is further on is further on. -/
theorem outgoing_rebase (part : List Placed) :
    outgoing (parts.map (List.map (Placed.rebase d))) (part.map (Placed.rebase d)) =
      (outgoing parts part).map (· + d) := by
  rw [outgoing, outgoing, map_startOf_rebase hparts, edges, edges, List.getLast?_map]
  cases part.getLast? with
  | none => rfl
  | some p =>
    simp only [Option.map_some, Placed.targets_rebase]
    rw [List.filter_map, ← eraseDups_map_add]
    congr 2
    exact List.filter_congr fun target _ => contains_map_add _ d target

/-- The block of a part that was moved is the block of the part, moved. -/
theorem blockOf_rebase {part : List Placed} (hpart : part ∈ parts) :
    blockOf (parts.map (List.map (Placed.rebase d))) (part.map (Placed.rebase d)) =
      (blockOf parts part).rebase d := by
  have hstart (other : List Placed) (hother : other ∈ parts) :
      startOf (other.map (Placed.rebase d)) = startOf other + d :=
    startOf_rebase (ne_of_mem_of_not_mem hother hparts) d
  simp only [blockOf, Block.rebase, Block.mk.injEq, hstart part hpart, outgoing_rebase hparts d,
    List.map_map, relabel_blockLabel, true_and]
  refine ⟨List.map_congr_left fun _ _ => rfl, List.map_congr_left fun _ _ => ?_, ?_⟩
  · simp
  · rw [List.filter_map, List.map_map]
    have hedges (other : List Placed) :
        (outgoing (parts.map (List.map (Placed.rebase d))) (other.map (Placed.rebase d))).contains
          (startOf part + d) = (outgoing parts other).contains (startOf part) := by
      rw [outgoing_rebase hparts, contains_map_add]
    simp only [Function.comp_def, hedges, relabel_blockLabel]
    refine List.map_congr_left fun other hother => ?_
    rw [hstart other (List.mem_filter.mp hother).1]

end

/-- The graph of instructions from `base + d` on is the graph of the instructions from `base` on with all
addresses and labels moved by `d`: it has the same blocks in the same order, with the same instructions and
with their edges in the same order. -/
theorem build_add (instructions : List Instruction) (base d : Int) :
    build instructions (base + d) = (build instructions base).rebase d := by
  have hblocks : (build instructions (base + d)).blocks =
      (build instructions base).blocks.map (Block.rebase d) := by
    rw [blocks_build, blocks_build, Placed.run_add, cut_rebase, List.map_map, List.map_map]
    exact List.map_congr_left fun part hpart => blockOf_rebase (nil_notMem_cut _) d hpart
  have hentry : (build instructions (base + d)).entry = relabel d (build instructions base).entry := by
    unfold build
    split
    · -- The graph without blocks is entered at no label.
      rfl
    · exact (relabel_blockLabel d base).symm
  calc build instructions (base + d)
    _ = ⟨(build instructions (base + d)).blocks, (build instructions (base + d)).entry⟩ := rfl
    _ = (build instructions base).rebase d := by rw [hblocks, hentry]; rfl

end Graph

end MoveBytecode
