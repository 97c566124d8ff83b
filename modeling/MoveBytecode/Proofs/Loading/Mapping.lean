import Mathlib.Data.List.Induction
import Mathlib.Data.List.Nodup
import Mathlib.Data.List.Range
import MoveBytecode.Proofs.Loading.Decode

/-!
# Where functions and their handles are mapped

A layout maps the bodies one behind the other, the handle of a function with a body to one of the
functions that have it, and each other handle to a slot of its own. The slots of two handles differ, and
in the standard layout no slot is where a body is.
-/

namespace MoveBytecode

variable {α : Type}

namespace Pool

/-- The entry that is mapped anew has its new mapping; all others keep theirs. -/
theorem getElem?_remap (p : Pool α) (index : Nat) (mapping : Extent) (n : Nat) :
    (p.remap index mapping).entries[n]? =
      if index = n then p.entries[n]?.map fun e => { e with mapping } else p.entries[n]? := by
  rw [remap, Array.getElem?_modify]

/-- The pool with entries mapped one after the other. -/
def remapAll (p : Pool α) (places : List (Nat × Extent)) : Pool α :=
  places.foldl (fun p place => p.remap place.1 place.2) p

/-- An entry is mapped at one of the places that it is given, or where it was if it is given none. -/
theorem mapping_remapAll {p : Pool α} {places : List (Nat × Extent)} {n : Nat} {e : Entry α}
    (h : (p.remapAll places).entries[n]? = some e) :
    (n, e.mapping) ∈ places ∨ (∀ place ∈ places, place.1 ≠ n) ∧ p.entries[n]? = some e := by
  induction places using List.reverseRecOn generalizing e with
  | nil => exact .inr ⟨by simp, h⟩
  | append_singleton front place ih =>
    have hremap : p.remapAll (front ++ [place]) = (p.remapAll front).remap place.1 place.2 := by
      rw [remapAll, List.foldl_append]
      rfl
    rw [hremap, getElem?_remap] at h
    split at h
    · rename_i heq
      obtain ⟨e', -, rfl⟩ := Option.map_eq_some_iff.mp h
      exact .inl (List.mem_append_right _ (by simp [← heq]))
    · rename_i hne
      rcases ih h with hmem | ⟨hnone, he⟩
      · exact .inl (List.mem_append_left _ hmem)
      · refine .inr ⟨fun q hq => ?_, he⟩
        rcases List.mem_append.mp hq with hq | hq
        · exact hnone q hq
        · rw [List.mem_singleton.mp hq]
          exact hne

/-- The numbers of the entries of a pool are those from zero on. -/
theorem Indexed.map_index {p : Pool α} (h : p.Indexed) :
    p.toList.map (·.index) = List.range p.size := by
  refine List.ext_getElem (by simp [toList, size]) fun n hn _ => ?_
  simp only [List.length_map, toList, Array.length_toList] at hn
  rw [List.getElem_map, List.getElem_range]
  exact h n _ (Array.getElem?_eq_getElem hn)

end Pool

namespace Module

/-! ## Slots -/

/-- The slots of `size` addresses each from `base` on for handles one after the other. -/
def slots (base size : Int) : List (Entry FunctionHandle) → List (Nat × Extent)
  | [] => []
  | h :: rest => (h.index, ⟨base, size⟩) :: slots (base + size) size rest

/-- There is one slot for each handle, in order. -/
theorem map_fst_slots (base size : Int) (hs : List (Entry FunctionHandle)) :
    (slots base size hs).map Prod.fst = hs.map (·.index) := by
  induction hs generalizing base with
  | nil => rfl
  | cons h rest ih => rw [slots, List.map_cons, ih, List.map_cons]

/-- The slot of a handle is the one of its position. -/
theorem exists_of_mem_slots {base size : Int} {hs : List (Entry FunctionHandle)} {n : Nat}
    {place : Extent} (h : (n, place) ∈ slots base size hs) :
    ∃ i : Nat, (hs.map (·.index))[i]? = some n ∧ place = ⟨base + i * size, size⟩ := by
  induction hs generalizing base with
  | nil => simp [slots] at h
  | cons first rest ih =>
    rcases List.mem_cons.mp h with h | h
    · obtain ⟨rfl, rfl⟩ := Prod.mk.inj h
      exact ⟨0, rfl, by simp⟩
    · obtain ⟨i, hi, rfl⟩ := ih h
      refine ⟨i + 1, hi, ?_⟩
      simp only [Extent.mk.injEq, and_true]
      rw [Int.natCast_succ, Int.add_mul, Int.one_mul]
      omega

/-- Giving handles the mappings of their functions maps them one after the other. -/
theorem functionHandles_mapHandles (m : Module) :
    m.mapHandles.functionHandles = m.functionHandles.remapAll
      (m.internalFunctions.map fun f => (f.record.handle, f.mapping)) := by
  rw [Pool.remapAll, List.foldl_map]
  rfl

/-- Giving slots to handles maps them one after the other. -/
theorem functionHandles_mapImports (m : Module) (base size : Int) :
    (m.mapImports base size).1.functionHandles =
      m.functionHandles.remapAll (slots base size m.externalHandles) := by
  have general : ∀ (hs : List (Entry FunctionHandle)) (p : Pool FunctionHandle) (base : Int),
      (hs.foldl (fun laid h => (laid.1.remap h.index ⟨laid.2, size⟩, laid.2 + size))
        (p, base)).1 = p.remapAll (slots base size hs) := by
    intro hs
    induction hs with
    | nil => exact fun _ _ => rfl
    | cons h rest ih => exact fun p base => ih _ _
  exact general _ _ _

/-! ## Handles with and without a body -/

/-- Whether a handle has a body depends on the records of a module alone. -/
theorem map_index_externalHandles {m n : Module} (hhandles : m.functionHandles.Same n.functionHandles)
    (hfunctions : m.internalFunctions.map (·.record.handle) =
      n.internalFunctions.map (·.record.handle)) :
    m.externalHandles.map (·.index) = n.externalHandles.map (·.index) := by
  have hindex := congrArg (List.map (·.index)) hhandles.2
  simp only [Pool.unmapped, List.map_map] at hindex
  replace hindex : m.functionHandles.toList.map (·.index) = n.functionHandles.toList.map (·.index) :=
    hindex
  have hfilter : ∀ o : Module, o.externalHandles.map (·.index) =
      (o.functionHandles.toList.map (·.index)).filter fun index =>
        !(o.internalFunctions.map (·.record.handle)).contains index := by
    intro o
    rw [List.filter_map]
    rfl
  rw [hfilter m, hfilter n, hindex, hfunctions]

/-- A handle is without a body iff it is that of no function with a body. -/
theorem mem_externalHandles {m : Module} {e : Entry FunctionHandle} :
    e ∈ m.externalHandles ↔ e ∈ m.functionHandles.toList ∧
      ∀ f ∈ m.internalFunctions, f.record.handle ≠ e.index := by
  simp [externalHandles, List.mem_filter]

/-- The handles without a body are different. -/
theorem nodup_externalHandles {m : Module} (h : m.functionHandles.Indexed) :
    (m.externalHandles.map (·.index)).Nodup := by
  have hsublist := (List.filter_sublist (l := m.functionHandles.toList) (p := fun h =>
    !(m.internalFunctions.map (·.record.handle)).contains h.index)).map (·.index)
  refine hsublist.nodup ?_
  rw [h.map_index]
  exact List.nodup_range

/-- A handle with a body has no slot. -/
theorem not_mem_slots {m : Module} {base size : Int} {f : Entry FunctionDef}
    (hf : f ∈ m.internalFunctions) (place : Extent) :
    (f.record.handle, place) ∉ slots base size m.externalHandles := by
  intro hmem
  have hexternal := List.mem_map_of_mem (f := Prod.fst) hmem
  rw [map_fst_slots] at hexternal
  obtain ⟨e, he, hindex⟩ := List.mem_map.mp hexternal
  exact (mem_externalHandles.mp he).2 f hf hindex.symm

/-! ## Where a layout maps them -/

section

variable {config : Config} {m : Module}

/-- A function that is laid out is mapped from the base of the code on, within the size of all code. -/
theorem Loads.mapping {data : Bytes} (h : Loads config data m) {f : Entry FunctionDef}
    (hf : f ∈ m.internalFunctions) :
    f.mapping.size = f.record.code.size ∧ config.codeBase ≤ f.mapping.start ∧
      f.mapping.start + f.record.code.size ≤
        config.codeBase + ((m.internalFunctions.map fun f => f.record.code.size).sum : Nat) := by
  obtain ⟨n, -, rfl⟩ := h.exists_decode
  have hrecords := congrArg (List.map fun f : FunctionDef => f.code.size)
    (Entry.map_record_placedFrom (·.code.size) config.codeBase n.internalFunctions)
  rw [List.map_map, List.map_map] at hrecords
  rw [internalFunctions_layOut] at hf ⊢
  obtain ⟨hsize, hstart, hstop⟩ := Entry.mapping_of_mem_placedFrom hf
  refine ⟨hsize, hstart, ?_⟩
  rw [Extent.stop, hsize] at hstop
  have hsum : ((Entry.placedFrom (·.code.size) config.codeBase n.internalFunctions).map
      fun f => f.record.code.size).sum = (n.internalFunctions.map fun f => f.record.code.size).sum :=
    congrArg List.sum hrecords
  rw [hsum]
  exact hstop

/-- The functions of a module are mapped one behind the other. -/
theorem Loads.pairwise_internalFunctions {data : Bytes} (h : Loads config data m) :
    m.internalFunctions.Pairwise fun f g => f.mapping.stop ≤ g.mapping.start := by
  obtain ⟨n, -, rfl⟩ := h.exists_decode
  rw [internalFunctions_layOut]
  exact Entry.pairwise_placedFrom _ _ _

/-- The handles of a module that has been laid out, as a module with its bodies mapped has them mapped
one after the other. -/
theorem exists_functionHandles_layOut (config : Config) (n : Module) :
    ∃ m : Module, m.functionHandles.Same n.functionHandles ∧
      m.internalFunctions = (n.layOut config).1.internalFunctions ∧
      (n.layOut config).1.functionHandles =
        (m.functionHandles.remapAll
          (m.internalFunctions.map fun f => (f.record.handle, f.mapping))).remapAll
            (slots config.importsBase config.pointerSize m.mapHandles.externalHandles) := by
  refine ⟨((n.mapData config.dataBase).1.mapFunctions config.codeBase).1, ?_, rfl, ?_⟩
  · exact ((sameRecords_mapFunctions _ _).trans (sameRecords_mapData n _)).functionHandles
  · rw [← functionHandles_mapHandles]
    exact functionHandles_mapImports _ _ _

/-- The handle of a function with a body is mapped where one of its functions is. -/
theorem Loads.mapping_of_internal {data : Bytes} (h : Loads config data m)
    {e : Entry FunctionHandle} (he : e ∈ m.functionHandles.toList)
    (hbody : ∃ f ∈ m.internalFunctions, f.record.handle = e.index) :
    ∃ f ∈ m.internalFunctions, f.record.handle = e.index ∧ e.mapping = f.mapping := by
  have hindexed := h.decoded.1.handles
  obtain ⟨n, -, rfl⟩ := h.exists_decode
  obtain ⟨m, hsame, hfunctions, hhandles⟩ := exists_functionHandles_layOut config n
  obtain ⟨f, hf, hhandle⟩ := hbody
  obtain ⟨k, hk⟩ := List.mem_iff_getElem?.mp he
  rw [Pool.toList, Array.getElem?_toList] at hk
  obtain rfl := hindexed k e hk
  rw [hhandles] at hk
  rw [← hfunctions] at hf ⊢
  rcases Pool.mapping_remapAll hk with hmem | ⟨-, hk⟩
  · exact absurd hmem (hhandle ▸ not_mem_slots (m := m.mapHandles) hf e.mapping)
  · rcases Pool.mapping_remapAll hk with hmem | ⟨hnone, -⟩
    · obtain ⟨g, hg, hgmapping⟩ := List.mem_map.mp hmem
      obtain ⟨hgindex, hgmapping⟩ := Prod.mk.inj hgmapping
      exact ⟨g, hg, hgindex, hgmapping.symm⟩
    · exact absurd hhandle (hnone _ (List.mem_map_of_mem hf))

/-- A handle without a body is mapped to the slot of its position among those handles. -/
theorem Loads.mapping_of_external {data : Bytes} (h : Loads config data m)
    {e : Entry FunctionHandle} (he : e ∈ m.externalHandles) :
    ∃ i : Nat, (m.externalHandles.map (·.index))[i]? = some e.index ∧
      e.mapping = ⟨config.importsBase + i * config.pointerSize, config.pointerSize⟩ := by
  have hindexed := h.decoded.1.handles
  obtain ⟨n, -, rfl⟩ := h.exists_decode
  obtain ⟨m, hsame, hfunctions, hhandles⟩ := exists_functionHandles_layOut config n
  have hsame' : m.mapHandles.functionHandles.Same (n.layOut config).1.functionHandles :=
    (sameRecords_mapHandles m).functionHandles.trans
      (hsame.trans (sameRecords_layOut config n).functionHandles.symm)
  have hexternal : m.mapHandles.externalHandles.map (·.index) =
      (n.layOut config).1.externalHandles.map (·.index) :=
    map_index_externalHandles hsame' (congrArg (List.map (·.record.handle)) hfunctions)
  obtain ⟨k, hk⟩ := List.mem_iff_getElem?.mp (mem_externalHandles.mp he).1
  rw [Pool.toList, Array.getElem?_toList] at hk
  obtain rfl := hindexed k e hk
  rw [hhandles] at hk
  rcases Pool.mapping_remapAll hk with hmem | ⟨hnone, -⟩
  · obtain ⟨i, hi, hmapping⟩ := exists_of_mem_slots hmem
    exact ⟨i, hexternal ▸ hi, hmapping⟩
  · -- The handle is one of those that are given slots.
    have hindex := List.mem_map_of_mem (f := fun h : Entry FunctionHandle => h.index) he
    rw [← hexternal, ← map_fst_slots config.importsBase config.pointerSize] at hindex
    obtain ⟨place, hplace, hfirst⟩ := List.mem_map.mp hindex
    exact absurd hfirst (hnone place hplace)

/-- Handles without a body have slots of their own, from the base of the slots on. -/
theorem Loads.pairwise_externalHandles {data : Bytes} (h : Loads config data m)
    (hsize : 0 < config.pointerSize) :
    (∀ e ∈ m.externalHandles, config.importsBase ≤ e.mapping.start) ∧
      m.externalHandles.Pairwise fun e e' => e.mapping.start ≠ e'.mapping.start := by
  constructor
  · intro e he
    obtain ⟨i, -, hmapping⟩ := h.mapping_of_external he
    have hnonneg : 0 ≤ (i : Int) * config.pointerSize :=
      Int.mul_nonneg (Int.natCast_nonneg i) (Int.le_of_lt hsize)
    simp only [hmapping]
    omega
  · have hnodup := List.pairwise_map.mp (nodup_externalHandles h.decoded.1.handles)
    refine hnodup.imp_of_mem fun {e e'} he he' hne hstart => hne ?_
    obtain ⟨i, hi, hmapping⟩ := h.mapping_of_external he
    obtain ⟨j, hj, hmapping'⟩ := h.mapping_of_external he'
    -- Equal slots have equal positions, where there is one handle.
    simp only [hmapping, hmapping'] at hstart
    have hij : (i : Int) = j := Int.eq_of_mul_eq_mul_right (Int.ne_of_gt hsize) (by omega)
    obtain rfl : i = j := by omega
    exact Option.some.inj (hi.symm.trans hj)

end

end Module

end MoveBytecode
