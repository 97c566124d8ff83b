import MoveBytecode.Proofs.Flow.Edges

/-!
# Blocks of slices

Any slice of a function has a graph, wherever it is placed and wherever its branches lead. Its blocks are
the slice, cut where control may arrive or leave and nowhere else (`Graph.Partitions`): within a block no
instruction but the last ends it and none but the first is a target, and in front of every block but the
first such an instruction or such a target is. Blocks are kept by their labels, which are texts; as these
tell all addresses apart, no block takes the place of another one.
-/

namespace MoveBytecode

open Body (Scanned)

namespace Graph

/-! ## Blocks by label -/

/-- A block with a new label is put behind the others. -/
theorem put_of_notMem {g : Graph} {b : Block} (h : b.label ∉ g.blocks.map (·.label)) :
    g.put b = { g with blocks := g.blocks ++ [b] } := by
  have hnone : g.block? b.label = none := by
    refine List.find?_eq_none.mpr fun c hc => ?_
    rw [beq_iff_eq]
    exact fun heq => h (heq ▸ List.mem_map_of_mem hc)
  rw [put, hnone]
  rfl

/-- Blocks of different labels that are put into a graph one after the other are all there, in this
order. -/
theorem foldl_put {done blocks : List Block} {entry : String}
    (h : ((done ++ blocks).map (·.label)).Nodup) :
    blocks.foldl put ⟨done, entry⟩ = ⟨done ++ blocks, entry⟩ := by
  induction blocks generalizing done with
  | nil => rw [List.foldl_nil, List.append_nil]
  | cons b rest ih =>
    have hnew : b.label ∉ done.map (·.label) := by
      rw [List.map_append, List.map_cons] at h
      exact fun hmem => (List.nodup_append.mp h).2.2 _ hmem _ List.mem_cons_self rfl
    rw [List.foldl_cons, put_of_notMem hnew, ih (by simpa using h), List.append_assoc]
    rfl

/-! ## Borders -/

/-- Between two parts a block ends or a target stands. -/
def Divided (isLeader : Int → Bool) (u v : List Placed) : Prop :=
  ∃ p q, u.getLast? = some p ∧ v.head? = some q ∧
    (p.flow.breaksBlock = true ∨ isLeader q.address = true)

/-- An instruction that is put in front of divided parts starts a part of its own only if it ends a
block or a target follows. -/
theorem isChain_prepend {isLeader : Int → Bool} {p : Placed} {parts : List (List Placed)}
    (hne : [] ∉ parts) (h : parts.IsChain (Divided isLeader)) :
    (prepend isLeader p parts).IsChain (Divided isLeader) := by
  unfold prepend
  split
  · rename_i next others rest
    split
    · rename_i hborder
      rw [Bool.or_eq_true] at hborder
      exact List.isChain_cons_cons.mpr ⟨⟨p, next, rfl, rfl, hborder⟩, h⟩
    · -- The part grows at its start, and its last instruction stays the same.
      rw [List.isChain_cons] at h ⊢
      refine ⟨fun v hv => ?_, h.2⟩
      obtain ⟨last, q, hlast, hdivided⟩ := h.1 v hv
      exact ⟨last, q, by rw [List.getLast?_cons_cons, hlast], hdivided⟩
  · rename_i hparts
    cases parts with
    | nil => exact List.IsChain.singleton _
    | cons part rest =>
      obtain ⟨next, others, rfl⟩ := List.exists_cons_of_ne_nil (List.ne_of_not_mem_cons hne).symm
      exact absurd rfl (hparts next others rest)

/-- Between the parts of a cut a block ends or a target stands. -/
theorem isChain_cut (run : List Placed) :
    (cut run).IsChain (Divided (leaders run).contains) := by
  have hfold : ∀ (isLeader : Int → Bool) (l : List Placed),
      (l.foldr (prepend isLeader) []).IsChain (Divided isLeader) := by
    intro isLeader l
    induction l with
    | nil => exact List.IsChain.nil
    | cons p rest ih => exact isChain_prepend (nil_notMem_foldr_prepend _ _) ih
  rw [cut_eq]
  exact hfold _ run

variable {run part : List Placed}

/-- Where one part of a cut ends and the next one starts, the two instructions follow each other in the
run, and the first ends a block or the second is a target. -/
theorem border_of_cut {front back : List (List Placed)} {u v : List Placed}
    (h : cut run = front ++ u :: v :: back) :
    ∃ p q, u.getLast? = some p ∧ v.head? = some q ∧ [p, q] <:+: run ∧
      (p.flow.breaksBlock = true ∨ q.address ∈ leaders run) := by
  have hchain := isChain_cut run
  rw [h, List.isChain_append_cons_cons] at hchain
  obtain ⟨p, q, hlast, hhead, hborder⟩ := hchain.2.1
  obtain ⟨u', rfl⟩ := List.getLast?_eq_some_iff.mp hlast
  obtain ⟨v', rfl⟩ := List.head?_eq_some_iff.mp hhead
  refine ⟨p, q, hlast, hhead, ⟨front.flatten ++ u', v' ++ back.flatten, ?_⟩, ?_⟩
  · rw [← flatten_cut run, h]
    simp
  · rwa [List.contains_iff_mem] at hborder

/-- A part of instructions one behind the other ends where its last instruction does. -/
theorem startOf_add_totalSize {last : Placed}
    (h : part.IsChain fun p q : Placed => q.address = p.address + p.instruction.size)
    (hlast : part.getLast? = some last) :
    startOf part + Instruction.totalSize (part.map (·.instruction)) =
      last.address + last.instruction.size := by
  induction part with
  | nil => simp at hlast
  | cons p rest ih =>
    cases rest with
    | nil =>
      obtain rfl := Option.some.inj hlast
      simp [startOf, Instruction.totalSize]
    | cons q others =>
      obtain ⟨hnext, hrest⟩ := List.isChain_cons_cons.mp h
      have hbehind := ih hrest (by rwa [List.getLast?_cons_cons] at hlast)
      simp only [startOf, List.head?_cons, Option.map_some, Option.getD_some, List.map_cons,
        Instruction.totalSize] at hbehind ⊢
      omega

/-- In front of every part but the first there is a border. -/
theorem exists_border {v : List Placed} (hv : v ∈ cut run) (hhead : (cut run).head? ≠ some v) :
    ∃ p q, v.head? = some q ∧ [p, q] <:+: run ∧
      (p.flow.breaksBlock = true ∨ q.address ∈ leaders run) := by
  obtain ⟨front, back, hsplit⟩ := List.append_of_mem hv
  rcases List.eq_nil_or_concat' front with rfl | ⟨front, u, rfl⟩
  · exact absurd (by rw [hsplit]; rfl) hhead
  · rw [List.append_assoc] at hsplit
    obtain ⟨p, q, -, hborder⟩ := border_of_cut hsplit
    exact ⟨p, q, hborder⟩

/-- Every part but the first starts at a target of an instruction that ends a block, or behind one. -/
theorem exists_breaksBlock {v : List Placed} (hv : v ∈ cut run) (hhead : (cut run).head? ≠ some v) :
    ∃ p q, v.head? = some q ∧ p ∈ run ∧ p.flow.breaksBlock = true ∧
      (q.address ∈ p.flow.targets ∨ [p, q] <:+: run) := by
  obtain ⟨p, q, hq, hpair, hbreaks | hleader⟩ := exists_border hv hhead
  · exact ⟨p, q, hq, hpair.subset (by simp), hbreaks, .inr hpair⟩
  · obtain ⟨r, hr, htarget⟩ := List.mem_flatMap.mp hleader
    by_cases hbreaks : r.flow.breaksBlock = true
    · rw [if_pos hbreaks] at htarget
      exact ⟨r, q, hq, hr, hbreaks, .inl htarget⟩
    · simp [hbreaks] at htarget

/-- The instructions of a part follow each other in the run. -/
theorem infix_of_mem_cut (hpart : part ∈ cut run) : part <:+: run :=
  flatten_cut run ▸ List.infix_of_mem_flatten hpart

/-- Within a part, only the last instruction ends a block. -/
theorem breaksBlock_of_mem_dropLast {p : Placed} (hpart : part ∈ cut run) (hp : p ∈ part.dropLast) :
    p.flow.breaksBlock = false := by
  rcases List.eq_nil_or_concat' part with rfl | ⟨front, last, rfl⟩
  · simp at hp
  rw [List.dropLast_concat] at hp
  obtain ⟨before, after, rfl⟩ := List.append_of_mem hp
  obtain ⟨q, others, hbehind⟩ : ∃ q others, after ++ [last] = q :: others :=
    List.exists_cons_of_ne_nil (by simp)
  have hpair : [p, q] <:+: before ++ p :: after ++ [last] := ⟨before, others, by simp [hbehind]⟩
  exact (whole_pair hpart hpair).1

/-- Within a part, only the first instruction is a target of one that ends a block. -/
theorem notMem_leaders_of_mem_tail {q : Placed} (hpart : part ∈ cut run) (hq : q ∈ part.tail) :
    q.address ∉ leaders run := by
  cases part with
  | nil => simp at hq
  | cons first rest =>
    obtain ⟨before, after, hsplit⟩ := List.append_of_mem hq
    rw [List.tail_cons] at hsplit
    obtain ⟨front, p, hfront⟩ : ∃ front p, first :: before = front ++ [p] :=
      ⟨_, _, (List.dropLast_concat_getLast (List.cons_ne_nil first before)).symm⟩
    have hpair : [p, q] <:+: first :: rest := by
      refine ⟨front, after, ?_⟩
      rw [hsplit, ← List.cons_append, hfront]
      simp
    exact (whole_pair hpart hpair).2

end Graph

/-- Where an instruction of a run ends, the next one starts. -/
theorem Placed.Sequent.isChain {run : List Placed} (h : Sequent run) :
    run.IsChain fun p q : Placed => q.address = p.address + p.instruction.size := by
  rw [List.isChain_iff_forall_rel_of_append_cons_cons]
  intro p q before after hsplit
  have hpair : [p, q] <:+: run := ⟨before, after, by simp [hsplit]⟩
  exact (h.behind p (hpair.subset (by simp)) q (hpair.subset (by simp))).mpr hpair

namespace Graph

/-! ## Partitions -/

/-- The blocks of a graph are a slice of instructions from `base` on, cut where control may arrive or
leave, and nowhere else. -/
structure Partitions (g : Graph) (slice : List Instruction) (base : Int) : Prop where
  /-- Going through the blocks is going through the slice. -/
  instructions : g.blocks.flatMap (·.instructions) = slice
  nonempty : ∀ b ∈ g.blocks, b.instructions ≠ []
  labels_nodup : (g.blocks.map (·.label)).Nodup
  label : ∀ b ∈ g.blocks, b.label = blockLabel b.address
  /-- Kept by their labels, blocks do not take the place of each other. -/
  entered : g.blocks.foldl put ⟨[], g.entry⟩ = g
  addresses : ∀ first, slice.head? = some first → ∀ b ∈ g.blocks,
    b.addresses = b.instructions.map fun i => base + i.offset - first.offset
  /-- A block ends where the next one starts, and the last one where the slice does. -/
  stop : g.blocks.IsChain fun b c => b.stop = c.address
  stop_last : ∀ b, g.blocks.getLast? = some b → b.stop = base + Instruction.totalSize slice
  /-- Only the last instruction of a block ends it. -/
  inside : ∀ b ∈ g.blocks, ∀ p ∈ b.placed.dropLast, p.flow.breaksBlock = false
  /-- Only the first instruction of a block is a target of one that ends a block. -/
  targets : ∀ p ∈ Placed.run base slice, p.flow.breaksBlock = true →
    ∀ b ∈ g.blocks, ∀ q ∈ b.placed.tail, q.address ∉ p.flow.targets
  /-- Each block but the entry starts at such a target or behind an instruction that ends a block. -/
  starts : ∀ b ∈ g.blocks, b.label ≠ g.entry → ∃ p q, b.placed.head? = some q ∧
    p ∈ Placed.run base slice ∧ p.flow.breaksBlock = true ∧
      (q.address ∈ p.flow.targets ∨ [p, q] <:+: Placed.run base slice)
  /-- The entry is the first block, and starts at the base. -/
  entry : g.entry = blockLabel base ∧ g.blocks.head?.map (·.label) = some g.entry

variable {slice : List Instruction} {base : Int}

section

variable (h : Placed.Sequent (Placed.run base slice))

include h

/-- The block of a part ends where the last instruction of the part does. -/
theorem stop_blockOf {part : List Placed} {last : Placed}
    (hpart : part ∈ cut (Placed.run base slice)) (hlast : part.getLast? = some last) :
    (blockOf (cut (Placed.run base slice)) part).stop = last.address + last.instruction.size := by
  have hchain := h.isChain.infix (infix_of_mem_cut hpart)
  exact startOf_add_totalSize hchain hlast

/-- Each block ends where the next one starts. -/
theorem isChain_stop_build :
    (build slice base).blocks.IsChain fun b c : Block => b.stop = c.address := by
  rw [blocks_build, List.isChain_map, List.isChain_iff_forall_rel_of_append_cons_cons]
  intro u v front back hsplit
  obtain ⟨p, q, hlast, hfirst, hpair, -⟩ := border_of_cut hsplit
  have hu : u ∈ cut (Placed.run base slice) := hsplit ▸ by simp
  have hnext := (h.behind p (hpair.subset (by simp)) q (hpair.subset (by simp))).mpr hpair
  rw [stop_blockOf h hu hlast, ← hnext]
  exact (startOf_of_head? hfirst).symm

/-- The last block ends where the slice does. -/
theorem stop_last_build {b : Block} (hb : (build slice base).blocks.getLast? = some b) :
    b.stop = base + Instruction.totalSize slice := by
  rw [blocks_build, List.getLast?_map] at hb
  obtain ⟨part, hpart, rfl⟩ := Option.map_eq_some_iff.mp hb
  obtain ⟨front, hcut⟩ := List.getLast?_eq_some_iff.mp hpart
  have hmem : part ∈ cut (Placed.run base slice) := List.mem_of_getLast? hpart
  obtain ⟨others, last, rfl⟩ :=
    (List.eq_nil_or_concat' part).resolve_left (ne_of_mem_of_not_mem hmem (nil_notMem_cut _))
  have hrun : (Placed.run base slice).getLast? = some last := by
    rw [← flatten_cut (Placed.run base slice), hcut]
    simp
  rw [stop_blockOf h hmem List.getLast?_concat, ← startOf_add_totalSize h.isChain hrun,
    Placed.map_instruction_run]
  cases slice with
  | nil => simp [Placed.run] at hrun
  | cons first rest => simp [startOf, Placed.run]

end

/-- The first part starts at the base. -/
theorem exists_cut_eq_cons (hne : slice ≠ []) (base : Int) : ∃ part parts,
    cut (Placed.run base slice) = part :: parts ∧ startOf part = base := by
  obtain ⟨first, rest, rfl⟩ := List.exists_cons_of_ne_nil hne
  have hhead : (Placed.run base (first :: rest)).head? = some ⟨base, first⟩ := by
    simp [Placed.run]
  have hflatten := flatten_cut (Placed.run base (first :: rest))
  have hnonempty := nil_notMem_cut (Placed.run base (first :: rest))
  cases hcut : cut (Placed.run base (first :: rest)) with
  | nil =>
    rw [hcut] at hflatten
    simp [← hflatten] at hhead
  | cons part parts =>
    rw [hcut] at hflatten hnonempty
    obtain ⟨p, others, rfl⟩ := List.exists_cons_of_ne_nil (List.ne_of_not_mem_cons hnonempty).symm
    rw [← hflatten] at hhead
    obtain rfl := Option.some.inj hhead
    exact ⟨_, parts, rfl, rfl⟩

/-- The blocks of a slice partition it, if its instructions stand one behind the other. -/
theorem partitions_build (hne : slice ≠ []) (h : Placed.Sequent (Placed.run base slice)) :
    (build slice base).Partitions slice base := by
  have hlabels := labels_nodup_build h
  obtain ⟨entry, parts, hcut, hstart⟩ := exists_cut_eq_cons hne base
  have hentry : (build slice base).entry = blockLabel base := by
    rw [build, if_neg (by simpa using hne)]
  constructor
  case instructions => exact flatMap_instructions_build
  case nonempty =>
    intro b hb hnil
    have hplaced := placed_ne_nil hb
    rw [Block.placed, hnil] at hplaced
    exact hplaced rfl
  case labels_nodup => exact hlabels
  case label =>
    intro b hb
    obtain ⟨part, -, rfl⟩ := exists_part_of_mem_build hb
    rfl
  case entered => exact foldl_put hlabels
  case addresses =>
    intro first hfirst b hb
    obtain ⟨part, hpart, rfl⟩ := exists_part_of_mem_build hb
    rw [Block.addresses, placed_blockOf hpart, blockOf, List.map_map]
    refine List.map_congr_left fun p hp => ?_
    rw [Placed.address_eq_of_mem_run (mem_run_of_mem hpart hp), hfirst]
    simp only [Option.map_some, Option.getD_some, Function.comp_apply]
    omega
  case stop => exact isChain_stop_build h
  case stop_last => exact fun b hb => stop_last_build h hb
  case inside =>
    intro b hb p hp
    obtain ⟨part, hpart, rfl⟩ := exists_part_of_mem_build hb
    rw [placed_blockOf hpart] at hp
    exact breaksBlock_of_mem_dropLast hpart hp
  case targets =>
    intro p hp hbreaks b hb q hq htarget
    obtain ⟨part, hpart, rfl⟩ := exists_part_of_mem_build hb
    rw [placed_blockOf hpart] at hq
    refine notMem_leaders_of_mem_tail hpart hq (List.mem_flatMap.mpr ⟨p, hp, ?_⟩)
    rwa [if_pos hbreaks]
  case starts =>
    intro b hb hother
    obtain ⟨part, hpart, rfl⟩ := exists_part_of_mem_build hb
    rw [placed_blockOf hpart]
    refine exists_breaksBlock hpart ?_
    -- The first part starts at the base, and so has the label of the entry.
    rw [hcut]
    rintro hsame
    obtain rfl := Option.some.inj hsame
    exact hother (by rw [hentry, ← hstart, blockOf])
  case entry =>
    refine ⟨hentry, ?_⟩
    rw [hentry, blocks_build, hcut, ← hstart]
    rfl

end Graph

namespace Module

/-- In every function of a loaded module, the graph of any slice that is not empty, wherever it is placed,
partitions the slice into blocks that are as long as control flow allows. -/
theorem loaded_partitions {config : Config} {data : Bytes} {m : Module} (h : Loads config data m)
    {f : Entry FunctionDef} (hf : f ∈ m.internalFunctions) {before slice after : List Instruction}
    (hslice : f.record.code.instructions = before ++ slice ++ after) (hne : slice ≠ [])
    (base : Int) : (Graph.build slice base).Partitions slice base := by
  obtain ⟨frame, -, -, hsound⟩ :=
    (h.decoded.1.entries f (mem_functionEntries hf)).body.exists_frame
  have hscan := hsound.scanned
  rw [hslice] at hscan
  exact Graph.partitions_build hne (hscan.sequent_slice base)

/-- Without its first instruction, and placed across zero, the body of a script is cut in front of the
target of its first branch and behind that of its second one, whose own target is not in the slice. -/
theorem twoBranchSample_partitions : ∃ m f first rest, load .standard twoBranchSample = .ok m ∧
    f ∈ m.internalFunctions ∧ f.record.code.instructions = first :: rest ∧
    (Graph.build rest (-2)).blocks.map (fun b => (b.label, b.addresses)) =
      [("loc_-2", [-2]), ("loc_1", [1, 2]), ("loc_5", [5])] ∧
    (Graph.build rest (-2)).Partitions rest (-2) := by
  have check : (load .standard twoBranchSample).toOption.any (fun m =>
      decide (∃ f ∈ m.internalFunctions, f.record.code.instructions.tail ≠ [] ∧
        (Graph.build f.record.code.instructions.tail (-2)).blocks.map
          (fun b => (b.label, b.addresses)) =
            [("loc_-2", [-2]), ("loc_1", [1, 2]), ("loc_5", [5])])) = true := by
    decide +kernel
  obtain ⟨m, hload, hcheck⟩ := exists_of_any_toOption check
  obtain ⟨f, hf, hne, hblocks⟩ := of_decide_eq_true hcheck
  obtain ⟨first, rest, hbody⟩ :=
    List.exists_cons_of_ne_nil (List.ne_nil_of_mem (List.mem_of_mem_tail
      (List.head_mem hne)))
  rw [hbody, List.tail_cons] at hne hblocks
  have hslice : f.record.code.instructions = [first] ++ rest ++ [] := by simp [hbody]
  exact ⟨m, f, first, rest, hload, hf, hbody, hblocks,
    loaded_partitions (.inl hload) hf hslice hne (-2)⟩

end Module

end MoveBytecode
