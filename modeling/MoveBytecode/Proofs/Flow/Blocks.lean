import MoveBytecode.Flow.Graph

/-!
# Blocks and the listing

The blocks of a function hold its instructions in the order of the listing, each at its address, so that
going through the blocks is going through the listing.
-/

namespace MoveBytecode

namespace Placed

/-- A run has its instructions in order. -/
@[simp] theorem map_instruction_run (base : Int) (instructions : List Instruction) :
    (run base instructions).map (·.instruction) = instructions := by
  rw [run, List.map_map]
  exact List.map_id _

/-- Instructions whose addresses are their distances from a common base are placed again as they
are. -/
theorem run_startOf {base : Int} {block : List Placed}
    (h : ∀ p ∈ block, p.address = base + p.instruction.offset) :
    run (Graph.startOf block) (block.map (·.instruction)) = block := by
  cases block with
  | nil => rfl
  | cons first rest =>
    have hfirst := h first List.mem_cons_self
    -- A block starts where its first instruction is, and offsets are counted from the body's start.
    have hmap : ∀ p ∈ first :: rest,
        (⟨first.address + p.instruction.offset - first.instruction.offset, p.instruction⟩ : Placed) =
          p := by
      intro p hp
      have := h p hp
      obtain ⟨address, instruction⟩ := p
      simp only [Placed.mk.injEq, and_true] at this ⊢
      omega
    rw [run, List.map_map]
    exact (List.map_congr_left hmap).trans (List.map_id _)

/-- The instructions of a run are as far from each other as in the body that they are from. -/
theorem address_eq_of_mem_run {base : Int} {instructions : List Instruction} {p : Placed}
    (h : p ∈ run base instructions) :
    p.address = base - ((instructions.head?.map (·.offset)).getD 0 : Int) + p.instruction.offset := by
  obtain ⟨i, -, rfl⟩ := List.mem_map.mp h
  dsimp only
  omega

/-- An instruction of a run stands as far behind the base as its offset says. -/
theorem address_of_mem_run {base : Int} {instructions : List Instruction} {p : Placed}
    (hfirst : ∀ i, instructions.head? = some i → i.offset = 0) (h : p ∈ run base instructions) :
    p.address = base + p.instruction.offset := by
  have horigin : ((instructions.head?.map (·.offset)).getD 0 : Int) = 0 := by
    cases hhead : instructions.head? with
    | none => rfl
    | some first => simpa using hfirst first hhead
  rw [address_eq_of_mem_run h, horigin]
  omega

end Placed

namespace Block

/-- A block has its instructions in order when they are placed. -/
@[simp] theorem map_instruction_placed (b : Block) :
    b.placed.map (·.instruction) = b.instructions :=
  Placed.map_instruction_run _ _

/-- A block starts with its first instruction when it is placed. -/
theorem head?_placed {b : Block} {first : Instruction} (h : b.instructions.head? = some first) :
    ∃ address, b.placed.head? = some ⟨address, first⟩ := by
  obtain ⟨rest, hcons⟩ := List.head?_eq_some_iff.mp h
  rw [placed, Placed.run, hcons]
  exact ⟨_, rfl⟩

end Block

namespace Graph

/-- Where control may go from a part of a cut, as far as a part starts there. -/
def outgoing (parts : List (List Placed)) (part : List Placed) : List Int :=
  edges (parts.map startOf).contains part

/-- The block of a part of a cut. -/
def blockOf (parts : List (List Placed)) (part : List Placed) : Block where
  label := blockLabel (startOf part)
  address := startOf part
  instructions := part.map (·.instruction)
  successors := (outgoing parts part).map blockLabel
  predecessors := (parts.filter fun other => (outgoing parts other).contains (startOf part)).map
    fun other => blockLabel (startOf other)

/-- The blocks of a cut are those of its parts. -/
theorem join_eq (parts : List (List Placed)) : join parts = parts.map (blockOf parts) := by
  have hcontains : (Std.TreeSet.ofList (parts.map startOf)).contains =
      (parts.map startOf).contains := by
    funext address
    exact Std.TreeSet.contains_ofList
  have hzip : ∀ edgesOf : List Placed → Int × List Int,
      parts.zip (parts.map edgesOf) = parts.map fun part => (part, edgesOf part) := by
    intro edgesOf
    simpa using (List.zip_map' : (parts.map id).zip (parts.map edgesOf) = _)
  simp only [join]
  rw [hcontains, hzip, List.map_map]
  refine List.map_congr_left fun part _ => ?_
  simp only [Function.comp_apply, blockOf, outgoing, List.filter_map, List.map_map]
  rfl

/-- The blocks of a cut are its parts, if the instructions have their distances from a common base. -/
theorem map_placed_join {base : Int} {parts : List (List Placed)}
    (h : ∀ part ∈ parts, ∀ p ∈ part, p.address = base + p.instruction.offset) :
    (join parts).map Block.placed = parts := by
  rw [join_eq, List.map_map]
  exact (List.map_congr_left fun part hpart => Placed.run_startOf (h part hpart)).trans
    (List.map_id _)

variable {instructions : List Instruction} {base : Int}

/-- The blocks of a run are the parts of its cut. -/
theorem map_placed_build :
    (build instructions base).blocks.map Block.placed = cut (Placed.run base instructions) := by
  unfold build
  split
  · rename_i hempty
    rw [List.isEmpty_iff.mp hempty]
    rfl
  · apply map_placed_join
    intro part hpart p hp
    have hrun : p ∈ Placed.run base instructions := by
      rw [← flatten_cut (Placed.run base instructions)]
      exact List.mem_flatten.mpr ⟨part, hpart, hp⟩
    exact Placed.address_eq_of_mem_run hrun

/-- Going through the blocks is going through the run. -/
theorem flatMap_placed_build :
    (build instructions base).blocks.flatMap Block.placed = Placed.run base instructions := by
  rw [List.flatMap_def, map_placed_build, flatten_cut]

/-- The blocks of a graph have the instructions that it was built from, in order. -/
theorem flatMap_instructions_build :
    (build instructions base).blocks.flatMap (·.instructions) = instructions := by
  have hlisting := congrArg (List.map (·.instruction)) (@flatMap_placed_build instructions base)
  rw [Placed.map_instruction_run, List.map_flatMap] at hlisting
  simpa using hlisting

/-- Every block has an instruction. -/
theorem placed_ne_nil {b : Block} (hb : b ∈ (build instructions base).blocks) : b.placed ≠ [] := by
  intro hnil
  have : b.placed ∈ (build instructions base).blocks.map Block.placed := List.mem_map_of_mem hb
  rw [map_placed_build, hnil] at this
  exact nil_notMem_cut _ this

/-- The instructions of a block are a part of the run. -/
theorem exists_split {b : Block} (hb : b ∈ (build instructions base).blocks) :
    ∃ before after, instructions = before ++ b.instructions ++ after := by
  obtain ⟨front, back, hsplit⟩ := List.append_of_mem hb
  have hlisting := congrArg (List.map (·.instruction)) (@flatMap_placed_build instructions base)
  rw [Placed.map_instruction_run, hsplit, List.flatMap_append, List.flatMap_cons, List.map_append,
    List.map_append, Block.map_instruction_placed, ← List.append_assoc] at hlisting
  exact ⟨_, _, hlisting.symm⟩

end Graph

end MoveBytecode
