import Mathlib.Data.List.Chain
import MoveBytecode.Flow.Mermaid
import MoveBytecode.Proofs.Flow.Edges

/-!
# Lines of flowcharts

A flowchart is read line by line, and a line with an arrow is an edge. The text of an instruction cannot be
taken for one, as the characters that an arrow ends with are spelt out in it, and it does not end its line
either. So the lines with arrows are those that are written for the edges (`edgeLines_render`).
-/

namespace MoveBytecode.Mermaid

/-- The lines of a text. -/
def linesOf (text : String) : List String := (text.split '\n').toList.map (·.copy)

/-- A line shows an edge if it has an arrow. -/
def IsEdge (line : String) : Prop := "-->".toList <:+: line.toList

/-- Whether a line shows an edge can be decided. -/
instance (line : String) : Decidable (IsEdge line) :=
  inferInstanceAs (Decidable ("-->".toList <:+: line.toList))

/-- The lines of a text that show edges. -/
def edgeLines (text : String) : List String := (linesOf text).filter fun line => IsEdge line

/-! ## Texts without arrows -/

/-- A text that neither ends a line nor has an arrow, wherever it is put. -/
structure Quiet (text : String) : Prop where
  breaks : '\n' ∉ text.toList
  head : text.toList.head? ≠ some '>'
  chain : text.toList.IsChain fun c d => c ≠ '-' ∨ d ≠ '>'

/-- Whether a text is quiet can be decided. -/
instance (text : String) : Decidable (Quiet text) :=
  decidable_of_iff ('\n' ∉ text.toList ∧ text.toList.head? ≠ some '>' ∧
    text.toList.IsChain fun c d => c ≠ '-' ∨ d ≠ '>')
    ⟨fun ⟨hbreaks, hhead, hchain⟩ => ⟨hbreaks, hhead, hchain⟩,
      fun h => ⟨h.breaks, h.head, h.chain⟩⟩

namespace Quiet

variable {s t : String}

/-- A text without line breaks and arrow heads is quiet. -/
theorem of_notMem (hbreaks : '\n' ∉ s.toList) (hhead : '>' ∉ s.toList) : Quiet s where
  breaks := hbreaks
  head h := hhead (List.mem_of_head? h)
  chain := by
    refine List.Pairwise.isChain (List.pairwise_of_forall_mem_list fun c _ d hd => .inr ?_)
    exact ne_of_mem_of_not_mem hd hhead

/-- Two quiet texts are quiet together. -/
theorem append (hs : Quiet s) (ht : Quiet t) : Quiet (s ++ t) where
  breaks := by simp [hs.breaks, ht.breaks]
  head := by
    rw [String.toList_append, List.head?_append]
    cases hhead : s.toList.head? with
    | none => simpa using ht.head
    | some c => simpa [hhead] using hs.head
  chain := by
    rw [String.toList_append, List.isChain_append]
    refine ⟨hs.chain, ht.chain, fun c _ d hd => .inr ?_⟩
    rintro rfl
    exact ht.head hd

/-- Quiet texts with a quiet text between them are quiet together. -/
theorem intercalate (hs : Quiet s) {texts : List String} (h : ∀ text ∈ texts, Quiet text) :
    Quiet (String.intercalate s texts) := by
  induction texts with
  | nil =>
    rw [String.intercalate_nil]
    decide
  | cons text rest ih =>
    obtain ⟨htext, hrest⟩ := List.forall_mem_cons.mp h
    cases rest with
    | nil => simpa using htext
    | cons next rest =>
      rw [String.intercalate_cons_cons]
      exact (htext.append hs).append (ih hrest)

/-- A quiet text does not show an edge. -/
theorem not_isEdge (h : Quiet s) : ¬ IsEdge s := by
  intro hedge
  have hchain := h.chain.infix hedge
  revert hchain
  decide

end Quiet

/-! ## Lines -/

/-- The digits of a number are quiet. -/
theorem quiet_toString (n : Nat) : Quiet (toString n) := by
  have hdigits {c : Char} (hc : c.isDigit = false) : c ∉ (toString n).toList := by
    rw [Nat.toString_eq_repr, Nat.toList_repr]
    intro hmem
    simp [Nat.isDigit_of_mem_toDigits (by decide) (by decide) hmem] at hc
  exact .of_notMem (hdigits rfl) (hdigits rfl)

/-- The label of a block is quiet. -/
theorem quiet_blockLabel (address : Int) : Quiet (blockLabel address) := by
  have hhex {c : Char} (hc : ∀ n < 16, Text.hexDigit n ≠ c) (hsign : c ≠ '-') :
      c ∉ (Text.hex address).toList := Text.notMem_hex hc hsign address
  refine Quiet.append (by decide) (.of_notMem (hhex (by decide) (by decide)) ?_)
  exact hhex (by decide) (by decide)

/-- The mnemonic of an opcode is quiet. -/
theorem quiet_mnemonic (opcode : Opcode) : Quiet opcode.mnemonic := by
  cases opcode <;> decide

/-- The text of an instruction is quiet. -/
theorem quiet_text (i : Instruction) : Quiet i.text := by
  unfold Instruction.text
  split
  · exact quiet_mnemonic _
  · exact ((quiet_mnemonic _).append (by decide)).append (quiet_toString _)

/-- A text without line breaks is quiet when it is escaped. -/
theorem quiet_escape {text : String} (h : '\n' ∉ text.toList) : Quiet (escape text) := by
  have hescape {c : Char} (hc : ∀ d ∈ text.toList, c ∉ escapeChar d) : c ∉ (escape text).toList := by
    rw [escape, String.toList_ofList, List.mem_flatMap]
    rintro ⟨d, hd, hmem⟩
    exact hc d hd hmem
  refine .of_notMem (hescape fun d hd => ?_) (hescape fun d _ => ?_)
  · unfold escapeChar
    split
    · decide
    · decide
    · decide
    · rw [List.mem_singleton]
      exact ne_of_mem_of_not_mem hd h |>.symm
  · unfold escapeChar
    split
    · decide
    · decide
    · decide
    · rw [List.mem_singleton]
      exact Ne.symm ‹_›

/-- Leaving out lines in the middle leaves quiet lines. -/
theorem quiet_collapse {lines : List String} (h : ∀ line ∈ lines, Quiet line) :
    ∀ line ∈ collapse lines, Quiet line := by
  unfold collapse
  split
  · exact h
  · intro line hline
    simp only [List.mem_append, List.mem_singleton] at hline
    obtain (htake | rfl) | hlast := hline
    · exact h line (List.mem_of_mem_take htake)
    · exact (Quiet.append (by decide) (quiet_toString _)).append (by decide)
    · exact h line (List.mem_of_getLast? (Option.mem_toList.mp hlast))

/-- The node of a block is quiet if the label of the block is. -/
theorem quiet_node {b : Block} (hlabel : Quiet b.label) (isEntry : Bool) : Quiet (node b isEntry) := by
  have hbody : ∀ line ∈ collapse (b.instructions.map fun i => escape i.text), Quiet line := by
    refine quiet_collapse fun line hline => ?_
    obtain ⟨i, -, rfl⟩ := List.mem_map.mp hline
    exact quiet_escape (quiet_text i).breaks
  have hbrackets : Quiet (brackets b isEntry).1 ∧ Quiet (brackets b isEntry).2 := by
    unfold brackets
    split
    · decide
    · split
      · decide
      · decide
  obtain ⟨hopening, hclosing⟩ := hbrackets
  have hinner : Quiet
      (if (collapse (b.instructions.map fun i => escape i.text)).isEmpty then "(empty)"
      else String.intercalate "<br/>" (collapse (b.instructions.map fun i => escape i.text))) := by
    split
    · decide
    · exact Quiet.intercalate (by decide) hbody
  exact ((((((Quiet.append (by decide) hlabel).append hopening).append (by decide)).append
    hlabel).append (by decide)).append hinner).append hclosing

/-- A text that shows an edge shows it behind any text. -/
theorem IsEdge.append_left {text : String} (h : IsEdge text) (front : String) :
    IsEdge (front ++ text) := by
  rw [IsEdge, String.toList_append]
  exact h.trans (List.suffix_append _ _).isInfix

/-- A text that shows an edge shows it in front of any text. -/
theorem IsEdge.append_right {text : String} (h : IsEdge text) (back : String) :
    IsEdge (text ++ back) := by
  rw [IsEdge, String.toList_append]
  exact h.trans (List.prefix_append _ _).isInfix

/-- The lines of the edges of a block have arrows, and none of them ends within. -/
theorem isEdge_of_mem_edges {b : Block} (hlabel : Quiet b.label)
    (hsuccessors : ∀ label ∈ b.successors, Quiet label) {line : String} (h : line ∈ edges b) :
    IsEdge line ∧ '\n' ∉ line.toList := by
  -- An edge has its arrow between quiet texts; only a conditional branch marks its two edges.
  have hplain {target : String} (htarget : target ∈ b.successors) :
      IsEdge (plainEdge b.label target) ∧ '\n' ∉ (plainEdge b.label target).toList := by
    have harrow : IsEdge " --> " := by decide
    refine ⟨(harrow.append_left _).append_right _, ?_⟩
    simp [plainEdge, hlabel.breaks, (hsuccessors target htarget).breaks]
  have hmarked {mark target : String} (hmark : Quiet mark) (htarget : target ∈ b.successors) :
      IsEdge (markedEdge b.label mark target) ∧
        '\n' ∉ (markedEdge b.label mark target).toList := by
    have harrow : IsEdge " -->|\"" := by decide
    refine ⟨(((harrow.append_left _).append_right _).append_right _).append_right _, ?_⟩
    simp [markedEdge, hlabel.breaks, hmark.breaks, (hsuccessors target htarget).breaks]
  have hall : line ∈ b.successors.map (plainEdge b.label) →
      IsEdge line ∧ '\n' ∉ line.toList := by
    intro hmem
    obtain ⟨target, htarget, rfl⟩ := List.mem_map.mp hmem
    exact hplain htarget
  unfold edges at h
  split at h
  · rename_i last next target _ htargets
    have hnext : next ∈ b.successors := by simp [htargets]
    have htarget : target ∈ b.successors := by simp [htargets]
    split at h
    · obtain rfl | rfl : line = _ ∨ line = _ := by simpa using h
      · exact hmarked (by decide) htarget
      · exact hmarked (by decide) hnext
    · split at h
      · obtain rfl | rfl : line = _ ∨ line = _ := by simpa using h
        · exact hmarked (by decide) hnext
        · exact hmarked (by decide) htarget
      · exact hall h
  · exact hall h

/-- The lines of a flowchart with arrows are those of the edges, block by block. -/
theorem edgeLines_render {g : Graph}
    (hlabels : ∀ b ∈ g.blocks, Quiet b.label ∧ ∀ label ∈ b.successors, Quiet label)
    (hentry : Quiet g.entry) : edgeLines (render g) = g.blocks.flatMap edges := by
  have hnodes : ∀ line ∈ "flowchart TD" :: g.blocks.map (fun b => node b (b.label == g.entry)),
      Quiet line := by
    refine List.forall_mem_cons.mpr ⟨by decide, fun line hline => ?_⟩
    obtain ⟨b, hb, rfl⟩ := List.mem_map.mp hline
    exact quiet_node (hlabels b hb).1 _
  have hedges : ∀ line ∈ g.blocks.flatMap edges, IsEdge line ∧ '\n' ∉ line.toList := by
    intro line hline
    obtain ⟨b, hb, hmem⟩ := List.mem_flatMap.mp hline
    exact isEdge_of_mem_edges (hlabels b hb).1 (hlabels b hb).2 hmem
  have hstyle : ∀ line ∈ style g.entry, Quiet line := by
    unfold style
    split
    · simp
    · rw [List.forall_mem_singleton]
      exact (Quiet.append (by decide) hentry).append (by decide)
  -- No line ends within, so that the lines are found again.
  have hlines : linesOf (render g) =
      "flowchart TD" :: (g.blocks.map fun b => node b (b.label == g.entry)) ++
        (g.blocks.flatMap edges ++ style g.entry) := by
    refine (String.toList_split_intercalate fun line hline => ?_).trans (if_neg (by simp))
    obtain hnode | hedge | hmark := by simpa only [List.mem_append] using hline
    · exact (hnodes line hnode).breaks
    · exact (hedges line hedge).2
    · exact (hstyle line hmark).breaks
  have hnone {lines : List String} (h : ∀ line ∈ lines, Quiet line) :
      (lines.filter fun line => IsEdge line) = [] :=
    List.filter_eq_nil_iff.mpr fun line hline => by simpa using (h line hline).not_isEdge
  rw [edgeLines, hlines, List.filter_append, List.filter_append, hnone hnodes, hnone hstyle,
    List.nil_append, List.append_nil, List.filter_eq_self]
  exact fun line hline => by simpa using (hedges line hline).1

/-- Labels do not break a flowchart. -/
theorem edgeLines_render_build (instructions : List Instruction) (base : Int) :
    edgeLines (render (Graph.build instructions base)) =
      (Graph.build instructions base).blocks.flatMap edges := by
  refine edgeLines_render (fun b hb => ?_) ?_
  · obtain ⟨part, -, rfl⟩ := Graph.exists_part_of_mem_build hb
    refine ⟨quiet_blockLabel _, fun label hlabel => ?_⟩
    obtain ⟨target, -, rfl⟩ := List.mem_map.mp hlabel
    exact quiet_blockLabel target
  · unfold Graph.build
    split
    · decide
    · exact quiet_blockLabel base

/-! ## Conditional branches -/

/-- Edges are only marked where a conditional branch has two successors. -/
theorem edges_eq_plain {b : Block}
    (h : ∀ i, b.last? = some i → i.opcode.isConditionalBranch = true → b.successors.length ≠ 2) :
    edges b = b.successors.map (plainEdge b.label) := by
  unfold edges
  split
  · rename_i last next target hlast htargets
    have hnot : last.opcode.isConditionalBranch ≠ true := fun hconditional =>
      h last hlast hconditional (by rw [htargets]; rfl)
    rw [if_neg, if_neg]
    · intro hop
      simp [Opcode.isConditionalBranch, beq_iff_eq.mp hop] at hnot
    · intro hop
      simp [Opcode.isConditionalBranch, beq_iff_eq.mp hop] at hnot
  · rfl

/-- A branch on truth goes to its target on truth, and one on falsehood on falsehood. -/
theorem edges_eq_marked {b : Block} {last : Instruction} {next target : String} {truth : Bool}
    (hlast : b.last? = some last) (hop : last.opcode = if truth then .brTrue else .brFalse)
    (hsuccessors : b.successors = [next, target]) :
    edges b = [markedEdge b.label "T" (if truth then target else next),
      markedEdge b.label "F" (if truth then next else target)] := by
  rw [edges, hlast, hsuccessors]
  cases truth with
  | true => simp [hop]
  | false => simp [hop]

end MoveBytecode.Mermaid

namespace MoveBytecode.Graph

variable {instructions : List Instruction} {base : Int}

/-- Of two addresses as many as two edges come only if they are different and blocks start at both. -/
theorem outgoing_of_length {parts : List (List Placed)} {part : List Placed} {p : Placed} {x y : Int}
    (hlast : part.getLast? = some p) (htargets : p.flow.targets = [x, y])
    (htwo : (outgoing parts part).length = 2) :
    outgoing parts part = [x, y] ∧ x ≠ y ∧ x ∈ parts.map startOf ∧ y ∈ parts.map startOf := by
  have hedges : outgoing parts part =
      ([x, y].filter (parts.map startOf).contains).eraseDups := by
    rw [outgoing, edges, hlast, ← htargets]
  have hsome {address : Int} (h : address ∈ outgoing parts part) : address ∈ parts.map startOf :=
    (mem_outgoing.mp h).2
  have hpair : outgoing parts part = [x, y] := by
    rw [hedges, List.filter_cons, List.filter_cons, List.filter_nil] at htwo ⊢
    split at htwo <;> split at htwo <;> rename_i hx hy
    · rw [if_pos hx, if_pos hy]
      by_cases hxy : y = x
      · simp [List.eraseDups_cons, hxy] at htwo
      · simp [List.eraseDups_cons, hxy]
    · simp [List.eraseDups_cons] at htwo
    · simp [List.eraseDups_cons] at htwo
    · simp at htwo
  have hnodup := nodup_outgoing parts part
  rw [hpair] at hnodup hsome
  exact ⟨hpair, by simpa using hnodup, hsome (by simp), hsome (by simp)⟩

/-- A conditional branch with two successors leads to two different blocks: the one behind it and the one
that it jumps to. -/
theorem exists_arms {u : Block} (hu : u ∈ (build instructions base).blocks) {p : Placed}
    (hlast : u.placed.getLast? = some p) (hconditional : p.instruction.opcode.isConditionalBranch = true)
    (htwo : u.successors.length = 2) :
    ∃ next ∈ (build instructions base).blocks, ∃ target ∈ (build instructions base).blocks,
      next ≠ target ∧ u.successors = [next.label, target.label] ∧
      next.address = p.address + p.instruction.size ∧
      target.address = p.address + p.instruction.jump := by
  obtain ⟨part, hpart, rfl⟩ := exists_part_of_mem_build hu
  rw [placed_blockOf hpart] at hlast
  have htargets : p.flow.targets =
      [p.address + p.instruction.size, p.address + p.instruction.jump] := by
    unfold Placed.flow Instruction.flow
    revert hconditional
    cases p.instruction.opcode <;> simp [Opcode.isConditionalBranch]
  obtain ⟨hedges, hne, hnext, htarget⟩ :=
    outgoing_of_length hlast htargets ((List.length_map _).symm.trans htwo)
  -- A block starts at either address, and is labelled by it.
  have hblock {address : Int} (h : address ∈ (cut (Placed.run base instructions)).map startOf) :
      ∃ b ∈ (build instructions base).blocks, b.address = address ∧ b.label = blockLabel address := by
    obtain ⟨other, hother, rfl⟩ := List.mem_map.mp h
    exact ⟨blockOf _ other, by rw [blocks_build]; exact List.mem_map_of_mem hother, rfl, rfl⟩
  obtain ⟨next, hnextMem, hnextAddress, hnextLabel⟩ := hblock hnext
  obtain ⟨target, htargetMem, htargetAddress, htargetLabel⟩ := hblock htarget
  refine ⟨next, hnextMem, target, htargetMem, ?_, ?_, hnextAddress, htargetAddress⟩
  · rintro rfl
    exact hne (hnextAddress.symm.trans htargetAddress)
  · rw [hnextLabel, htargetLabel, blockOf, hedges]
    rfl

end MoveBytecode.Graph
