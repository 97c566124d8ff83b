import Mathlib.Algebra.BigOperators.Group.List.Defs
import Mathlib.Algebra.Ring.Int.Defs
import MoveBytecode.Proofs.Loading.Layout

/-!
# The memory of a new host

A module is published to a new host as the segments of its data, its code and its slots, each if it has
addresses at all. Contents are written one behind the other into the segment that was added last; where
the three ranges of addresses have none in common, no write finds a segment in front of it, and no read
another one than that of its range (`Module.segments_publish`). So every constant, body and slot is read
as what it stands for, and nothing is read elsewhere (`Module.loaded_image`).
-/

namespace MoveBytecode

/-! ## Ranges of addresses -/

namespace Extent

/-- An address of an extent. -/
def Has (e : Extent) (address : Int) : Prop := e.start ≤ address ∧ address < e.stop

/-- An extent that has all of `size` addresses from `address` on. -/
def Spans (e : Extent) (address size : Int) : Prop := e.start ≤ address ∧ address + size ≤ e.stop

/-- Two extents without a common address. -/
def Apart (e e' : Extent) : Prop := ∀ address, ¬(e.Has address ∧ e'.Has address)

/-- Being apart does not depend on the order. -/
theorem Apart.symm {e e' : Extent} (h : e.Apart e') : e'.Apart e :=
  fun address haddress => h address haddress.symm

/-- Extents one behind the other have no common address. -/
theorem apart_of_le {e e' : Extent} (h : e.stop ≤ e'.start) : e.Apart e' := by
  rintro address ⟨⟨-, hlt⟩, hle, -⟩
  omega

/-- Of two extents without a common address, one alone can have all of some addresses. -/
theorem Apart.not_spans {e e' : Extent} (h : e.Apart e') {address size : Int} (hsize : 0 < size)
    (he : e.Spans address size) : ¬e'.Spans address size := by
  rintro ⟨hstart, hstop⟩
  obtain ⟨hstart', hstop'⟩ := he
  exact h address ⟨⟨hstart', by omega⟩, hstart, by omega⟩

end Extent

namespace Segment

/-- The addresses of a segment. -/
def extent (s : Segment) : Extent := ⟨s.base, s.size⟩

/-- A segment contains the addresses that its extent spans. -/
theorem contains_iff {s : Segment} {address size : Int} :
    s.contains address size = true ↔ s.extent.Spans address size := by
  rw [contains, Bool.and_eq_true, decide_eq_true_eq, decide_eq_true_eq]
  rfl

end Segment

/-! ## Contents one behind the other -/

namespace Bytes

/-- Byte strings one behind the other. -/
def concat : List Bytes → Bytes
  | [] => #[]
  | b :: rest => b ++ concat rest

/-- Byte strings one behind the other have the sizes of all of them together. -/
@[simp] theorem size_concat (parts : List Bytes) :
    (concat parts).size = (parts.map Array.size).sum := by
  induction parts with
  | nil => rfl
  | cons b rest ih => simp [concat, ih]

/-- Byte strings are put one behind the other part by part. -/
theorem concat_append (first second : List Bytes) :
    concat (first ++ second) = concat first ++ concat second := by
  induction first with
  | nil => simp [concat]
  | cons b rest ih => simp [concat, ih, Array.append_assoc]

/-- Behind the parts in front of it a part stands as it is. -/
theorem extract_concat {parts : List Bytes} {k : Nat} {b : Bytes} (h : parts[k]? = some b) :
    (concat parts).extract (concat (parts.take k)).size
      ((concat (parts.take k)).size + b.size) = b := by
  have hsplit := congrArg concat (eq_take_append_cons_drop h)
  rw [concat_append, concat, ← Array.append_assoc] at hsplit
  rw [hsplit]
  generalize concat (parts.take k) = before
  generalize concat (parts.drop (k + 1)) = after
  rw [Array.extract_append, Array.extract_append]
  simp

/-- Zeros one behind the other. -/
theorem concat_zeros {α : Type} (l : List α) (size : Nat) :
    concat (l.map fun _ => Array.replicate size 0) =
      Array.replicate (l.map fun _ => size).sum 0 := by
  induction l with
  | nil => rfl
  | cons a rest ih =>
    rw [List.map_cons, concat, ih, Array.replicate_append_replicate, List.map_cons, List.sum_cons]

end Bytes

/-- Contents of a segment that stand one behind the other from `base` on. -/
def Tiles (base : Int) : List (Int × Bytes) → Prop
  | [] => True
  | (address, bytes) :: rest => address = base ∧ Tiles (base + bytes.size) rest

/-- Entries that are placed one behind the other tile the addresses that they are placed at. -/
theorem tiles_placedFrom {α : Type} {size : α → Nat} {bytes : α → Bytes}
    (hsize : ∀ a, (bytes a).size = size a) (base : Int) (entries : List (Entry α)) :
    Tiles base ((Entry.placedFrom size base entries).map fun e =>
      (e.mapping.start, bytes e.record)) := by
  induction entries generalizing base with
  | nil => trivial
  | cons e rest ih =>
    refine ⟨rfl, ?_⟩
    rw [hsize]
    exact ih _

/-! ## Writing -/

/-- A write behind what has been written so far. -/
theorem Segment.write_behind {s : Segment} {done bytes : Bytes} {left : Nat}
    (hdata : s.data = done ++ Array.replicate left 0) :
    s.write (s.base + done.size) bytes =
      { s with data := done ++ bytes ++ Array.replicate (left - bytes.size) 0 } := by
  have hfirst : (s.base + done.size - s.base).toNat = done.size := by omega
  simp only [write, hfirst, hdata, Segment.mk.injEq, true_and]
  have hpast (n : Nat) : done.extract (done.size + bytes.size) n = #[] :=
    Array.extract_empty_of_size_le_start (by omega)
  rw [Array.extract_append, Array.extract_append, hpast]
  simp

namespace Host

/-- A write goes past the segments that do not have its addresses. -/
theorem writeFirst_append {address : Int} {bytes : Bytes} {front : List Segment}
    (hfront : ∀ t ∈ front, t.contains address bytes.size = false) (rest : List Segment) :
    writeFirst address bytes (front ++ rest) = (writeFirst address bytes rest).map (front ++ ·) := by
  induction front with
  | nil => simp
  | cons t front ih =>
    rw [List.cons_append, writeFirst, hfront t List.mem_cons_self,
      ih fun t ht => hfront t (List.mem_cons_of_mem _ ht)]
    simp [Function.comp_def]

/-- What is written behind the part of the last segment that is filled is written there. -/
theorem write_behind {front : List Segment} {s : Segment} {done bytes : Bytes} {left : Nat} {h : Host}
    (hsegments : h.segments = front ++ [s]) (hfront : ∀ t ∈ front, t.extent.Apart s.extent)
    (hdata : s.data = done ++ Array.replicate left 0) (hsize : s.size = done.size + left)
    (hpos : 0 < bytes.size) (hleft : bytes.size ≤ left) :
    h.write (s.base + done.size) bytes = .ok { h with
      segments := front ++ [{ s with
        data := done ++ bytes ++ Array.replicate (left - bytes.size) 0 }] } := by
  have hspans : s.extent.Spans (s.base + done.size) bytes.size := by
    simp only [Extent.Spans, Segment.extent, Extent.stop]
    omega
  have hmiss : ∀ t ∈ front, t.contains (s.base + done.size) bytes.size = false := by
    intro t ht
    rw [Bool.eq_false_iff, Ne, Segment.contains_iff]
    exact (hfront t ht).symm.not_spans (by omega) hspans
  rw [write, hsegments, writeFirst_append hmiss, writeFirst,
    if_pos (Segment.contains_iff.mpr hspans), Segment.write_behind hdata]
  rfl

/-- Contents one behind the other fill the last segment up from where it has zeros. -/
theorem segments_of_foldlM_write {front : List Segment} {s : Segment} {done : Bytes} (left : Nat)
    {contents : List (Int × Bytes)} {h h' : Host} (hsegments : h.segments = front ++ [s])
    (hfront : ∀ t ∈ front, t.extent.Apart s.extent)
    (hdata : s.data = done ++ Array.replicate left 0) (hsize : s.size = done.size + left)
    (htiles : Tiles (s.base + done.size) contents)
    (hleft : (Bytes.concat (contents.map (·.2))).size ≤ left)
    (hfold : contents.foldlM (fun h content => if content.2.isEmpty then .ok h
      else h.write content.1 content.2) h = .ok h') :
    h'.segments = front ++ [{ s with
      data := done ++ Bytes.concat (contents.map (·.2)) ++
        Array.replicate (left - (Bytes.concat (contents.map (·.2))).size) 0 }] := by
  induction contents generalizing h s done left with
  | nil =>
    obtain rfl := pure_eq_ok.mp hfold
    simp [hsegments, Bytes.concat, ← hdata]
  | cons content rest ih =>
    obtain ⟨address, bytes⟩ := content
    obtain ⟨rfl, htiles⟩ := htiles
    rw [List.foldlM_cons] at hfold
    obtain ⟨g, hg, hfold⟩ := bind_eq_ok.mp hfold
    simp only [List.map_cons, Bytes.concat, Array.size_append] at hleft ⊢
    dsimp only at hg
    split at hg
    · -- Nothing is written for what is empty.
      rename_i hempty
      obtain rfl := Except.ok.inj hg
      obtain rfl := Array.isEmpty_iff.mp hempty
      simp only [List.size_toArray, List.length_nil, Int.natCast_zero, Int.add_zero,
        Nat.zero_add] at htiles hleft
      simpa using ih left hsegments hfront hdata hsize htiles hleft hfold
    · rename_i hempty
      have hpos : 0 < bytes.size := by
        rw [Array.isEmpty_iff_size_eq_zero] at hempty
        omega
      have hwrite := write_behind hsegments hfront hdata hsize hpos (by omega)
      obtain rfl := Except.ok.inj (hwrite.symm.trans hg)
      let t : Segment := { s with data := done ++ bytes ++ Array.replicate (left - bytes.size) 0 }
      have ht : t.data = (done ++ bytes) ++ Array.replicate (left - bytes.size) 0 := rfl
      have htsize : t.size = (done ++ bytes).size + (left - bytes.size : Nat) := by
        rw [Array.size_append]
        change s.size = _
        omega
      have hrest := ih (s := t) (left - bytes.size) rfl hfront ht htsize
        (by simpa only [Array.size_append, Int.natCast_add, Int.add_assoc] using htiles)
        (by omega) hfold
      simpa only [Array.append_assoc, Nat.sub_sub] using hrest

end Host

/-! ## Publishing -/

/-- The segment of a range of addresses with these contents; a range without addresses has none. -/
def Segment.ofRange (name : String) (range : Extent) (contents : Bytes) : List Segment :=
  if range.size ≤ 0 then []
  else [⟨name, .unplaced, range.start, range.size, Segment.allAccess, contents⟩]

namespace Module

/-- Contents are published as the segment of their range, with zeros behind them, and stand behind the
segments that have no address of the range. -/
theorem segments_publishSegment {name : String} {range : Extent} {contents : List (Int × Bytes)}
    {h h' : Host} (hfront : ∀ t ∈ h.segments, t.extent.Apart range)
    (htiles : Tiles range.start contents) (left : Nat)
    (hsize : range.size = (Bytes.concat (contents.map (·.2))).size + left)
    (hpublish : publishSegment name range.start range.stop contents h = .ok h') :
    h'.segments = h.segments ++ Segment.ofRange name range
      (Bytes.concat (contents.map (·.2)) ++ Array.replicate left 0) := by
  unfold publishSegment at hpublish
  unfold Segment.ofRange
  have hstop : range.stop - range.start = range.size := by
    rw [Extent.stop]
    omega
  split at hpublish
  · rename_i hempty
    obtain rfl := Except.ok.inj hpublish
    rw [if_pos (by omega), List.append_nil]
  · rename_i hne
    rw [hstop] at hpublish
    -- A new segment is zero throughout, and the contents are written over its front one by one.
    have hzeros : (Segment.make name .unplaced range.start range.size Segment.allAccess).data =
        #[] ++ Array.replicate ((Bytes.concat (contents.map (·.2))).size + left) 0 := by
      rw [Segment.make, hsize, ← Int.natCast_add, Int.toNat_natCast, Array.empty_append]
    have hfill := Host.segments_of_foldlM_write _ rfl hfront hzeros
      (by simpa [Segment.make] using hsize) (by simpa [Segment.make] using htiles)
      (Nat.le_add_right _ _) hpublish
    rw [if_neg (by omega), hfill]
    simp [Segment.make]

/-- The addresses of the constants. -/
def dataRange (config : Config) (m : Module) : Extent :=
  ⟨config.dataBase, (m.dataEntries.map (·.mapping.size)).sum⟩

/-- The addresses of the bodies. -/
def codeRange (config : Config) (m : Module) : Extent :=
  ⟨config.codeBase, (m.internalFunctions.map (·.mapping.size)).sum⟩

/-- The addresses of the slots. -/
def slotRange (config : Config) (m : Module) : Extent :=
  ⟨config.importsBase, (m.externalHandles.map (·.mapping.size)).sum⟩

/-- The ranges of addresses that a module is mapped to. -/
def ranges (config : Config) (m : Module) : List Extent :=
  [m.dataRange config, m.codeRange config, m.slotRange config]

/-- The memory of a module: the bytes of the constants, the bodies, and zeros in the slots. -/
def image (config : Config) (m : Module) : List Segment :=
  Segment.ofRange ".data" (m.dataRange config)
      (Bytes.concat (m.dataEntries.map fun e => e.record.bytes)) ++
    (Segment.ofRange ".code" (m.codeRange config)
        (Bytes.concat (m.internalFunctions.map fun f => f.record.code.bytes)) ++
      Segment.ofRange ".imports" (m.slotRange config)
        (Bytes.concat (m.externalHandles.map fun _ =>
          Array.replicate config.pointerSize.toNat 0)))

variable {config : Config} {data : Bytes} {m : Module}

/-- The slots end as many pointer sizes behind their base as there are handles without a body. -/
theorem mapImports_snd (m : Module) (base size : Int) :
    (m.mapImports base size).2 = base + m.externalHandles.length * size := by
  have general : ∀ (hs : List (Entry FunctionHandle)) (p : Pool FunctionHandle) (base : Int),
      (hs.foldl (fun laid h => (laid.1.remap h.index ⟨laid.2, size⟩, laid.2 + size))
        (p, base)).2 = base + hs.length * size := by
    intro hs
    induction hs with
    | nil => simp
    | cons h rest ih =>
      intro p base
      rw [List.foldl_cons, ih, List.length_cons, Int.natCast_succ, Int.add_mul, Int.one_mul]
      omega
  exact general _ _ _

/-- Sizes of mappings that are numbers of bytes add up to their number of bytes. -/
theorem sum_sizes {α : Type} {entries : List (Entry α)} (size : Entry α → Nat)
    (h : ∀ e ∈ entries, e.mapping.size = size e) :
    (entries.map (·.mapping.size)).sum = ((entries.map size).sum : Nat) := by
  induction entries with
  | nil => rfl
  | cons e rest ih =>
    rw [List.map_cons, List.map_cons, List.sum_cons, List.sum_cons, Int.natCast_add,
      h e List.mem_cons_self, ih fun e he => h e (List.mem_cons_of_mem _ he)]

/-- The constants take up as many addresses as they have bytes. -/
theorem Loads.size_mapping_datum (h : Loads config data m) {e : Entry Datum}
    (he : e ∈ m.dataEntries) : e.mapping.size = e.record.bytes.size := by
  obtain ⟨entries, hentries⟩ := h.exists_dataEntries
  rw [hentries] at he
  exact (Entry.mapping_of_mem_placedFrom he).1

/-- The bodies take up as many addresses as they have bytes. -/
theorem Loads.size_mapping_body (h : Loads config data m) {f : Entry FunctionDef}
    (hf : f ∈ m.internalFunctions) : f.mapping.size = f.record.code.bytes.size := by
  rw [(h.mapping hf).1, CodeUnit.size_bytes]

/-- A slot has the size of a pointer. -/
theorem Loads.size_mapping_slot (h : Loads config data m) {e : Entry FunctionHandle}
    (he : e ∈ m.externalHandles) : e.mapping.size = config.pointerSize := by
  obtain ⟨i, -, hmapping⟩ := h.mapping_of_external he
  rw [hmapping]

/-- Entries that are placed take up as many addresses as their records have bytes. -/
theorem sum_size_placedFrom {α : Type} (size : α → Nat) (base : Int) (entries : List (Entry α)) :
    ((Entry.placedFrom size base entries).map (·.mapping.size)).sum =
      ((entries.map fun e => size e.record).sum : Nat) := by
  induction entries generalizing base with
  | nil => rfl
  | cons e rest ih =>
    rw [Entry.placedFrom, List.map_cons, List.map_cons, List.sum_cons, List.sum_cons, ih,
      Int.natCast_add]

/-- The constants end as many addresses behind their base as they have bytes. -/
theorem mapData_snd (m : Module) (base : Int) : (m.mapData base).2 =
    base + ((m.dataEntries.map fun e => e.record.bytes.size).sum : Nat) := by
  simp only [mapData, Pool.mapFrom_snd, dataEntries, List.map_append, List.sum_append, List.map_map,
    Int.natCast_add, Int.add_assoc]
  rfl

/-- The ranges end where the layout does. -/
theorem stop_ranges (config : Config) {n : Module} (hn : decode data = .ok n) :
    ((n.layOut config).1.dataRange config).stop = (n.layOut config).2.data ∧
      ((n.layOut config).1.codeRange config).stop = (n.layOut config).2.code ∧
        ((n.layOut config).1.slotRange config).stop = (n.layOut config).2.imports := by
  have hloads : Loads config data (n.layOut config).1 := .inl (exists_loadInto config hn .new).1
  refine ⟨?_, ?_, ?_⟩
  · rw [dataRange, Extent.stop, dataEntries_layOut, dataEntries_mapData, sum_size_placedFrom]
    exact (mapData_snd n config.dataBase).symm
  · rw [codeRange, Extent.stop, internalFunctions_layOut, sum_size_placedFrom]
    exact (mapFunctions_snd (n.mapData config.dataBase).1 config.codeBase).symm
  · -- As many handles have no body as before their slots were mapped.
    have hindex : (((n.mapData config.dataBase).1.mapFunctions
        config.codeBase).1.mapHandles.externalHandles.map (·.index)).length =
          ((n.layOut config).1.externalHandles.map (·.index)).length :=
      congrArg List.length (map_index_externalHandles
        (sameRecords_mapImports _ config.importsBase config.pointerSize).functionHandles.symm rfl)
    rw [List.length_map, List.length_map] at hindex
    have hsum : ((n.layOut config).1.externalHandles.map (·.mapping.size)).sum =
        (n.layOut config).1.externalHandles.length * config.pointerSize := by
      rw [List.sum_eq_card_nsmul _ config.pointerSize fun size hmem => ?_, List.length_map,
        Int.nsmul_eq_mul]
      obtain ⟨e, he, rfl⟩ := List.mem_map.mp hmem
      exact hloads.size_mapping_slot he
    rw [slotRange, Extent.stop, hsum, ← hindex]
    exact (mapImports_snd _ _ _).symm

/-- A segment is that of the range that it was made of. -/
theorem extent_of_mem_ofRange {name : String} {range : Extent} {contents : Bytes} {s : Segment}
    (h : s ∈ Segment.ofRange name range contents) : s.extent = range := by
  unfold Segment.ofRange at h
  split at h
  · simp at h
  · rw [List.mem_singleton.mp h]
    rfl

/-- Adding a symbol leaves the segments of a host as they are. -/
theorem segments_addSymbol (h : Host) (kind : SymbolKind) (flags : Flags) (poolIndex : Int)
    (name : String) (address size : Int) (dataType : Option String) :
    (h.addSymbol kind flags poolIndex name address size dataType).2.segments = h.segments := by
  cases kind <;> rfl

/-- Publishing the symbols of constants leaves the segments of a host as they are. -/
theorem segments_foldl_publishDatum (entries : List (Entry Datum)) (h : Host) :
    (entries.foldl publishDatum h).segments = h.segments := by
  refine List.foldlRecOn (motive := fun g => g.segments = h.segments) entries publishDatum rfl
    fun g hg e _ => ?_
  rw [publishDatum]
  split
  · exact hg
  · exact (segments_addSymbol ..).trans hg

variable {h h' : Host}

/-- Publishing constants adds the data segment, if no other segment is in its range. -/
theorem segments_publishData (hloads : Loads config data m)
    (hfront : ∀ t ∈ h.segments, t.extent.Apart (m.dataRange config))
    (hpublish : m.publishData config.dataBase (m.dataRange config).stop h = .ok h') :
    h'.segments = h.segments ++ Segment.ofRange ".data" (m.dataRange config)
      (Bytes.concat (m.dataEntries.map fun e => e.record.bytes)) := by
  have htiles : Tiles config.dataBase (m.dataEntries.map fun e =>
      (e.mapping.start, e.record.bytes)) := by
    obtain ⟨entries, hentries⟩ := hloads.exists_dataEntries
    rw [hentries]
    exact tiles_placedFrom (fun _ => rfl) _ _
  have hsize := sum_sizes _ fun e (he : e ∈ m.dataEntries) => hloads.size_mapping_datum he
  have hsegments := segments_foldl_publishDatum m.dataEntries h
  rw [← hsegments] at hfront
  have hpublished := segments_publishSegment hfront htiles 0
    (by simpa [Function.comp_def, dataRange] using hsize) hpublish
  simpa [hsegments, Function.comp_def] using hpublished

/-- Publishing functions adds the code segment, if no other segment is in its range. -/
theorem segments_publishCode (hloads : Loads config data m)
    (hfront : ∀ t ∈ h.segments, t.extent.Apart (m.codeRange config))
    (hpublish : m.publishCode config.codeBase (m.codeRange config).stop h = .ok h') :
    h'.segments = h.segments ++ Segment.ofRange ".code" (m.codeRange config)
      (Bytes.concat (m.internalFunctions.map fun f => f.record.code.bytes)) := by
  have htiles : Tiles config.codeBase (m.internalFunctions.map fun f =>
      (f.mapping.start, f.record.code.bytes)) := by
    obtain ⟨functions, hfunctions⟩ := hloads.exists_internalFunctions
    rw [hfunctions]
    exact tiles_placedFrom (fun f : FunctionDef => f.code.size_bytes) _ _
  have hsize := sum_sizes _ fun f (hf : f ∈ m.internalFunctions) => hloads.size_mapping_body hf
  obtain ⟨g, hg, hpublish⟩ := bind_eq_ok.mp hpublish
  have hsegments : g.segments = h.segments :=
    foldlM_invariant (I := fun k : Host => k.segments = h.segments) (fun f _ k k' hstep hk => by
      obtain ⟨name, -, hstep⟩ := bind_eq_ok.mp hstep
      obtain rfl := pure_eq_ok.mp hstep
      exact (segments_addSymbol ..).trans hk) hg rfl
  rw [← hsegments] at hfront
  have hpublished := segments_publishSegment hfront htiles 0
    (by simpa [Function.comp_def, codeRange] using hsize) hpublish
  simpa [hsegments, Function.comp_def] using hpublished

/-- Publishing imports adds the segment of the slots, if no other segment is in its range. -/
theorem segments_publishImports (hloads : Loads config data m) (hsize : 0 ≤ config.pointerSize)
    (hfront : ∀ t ∈ h.segments, t.extent.Apart (m.slotRange config))
    (hpublish : m.publishImports config.importsBase (m.slotRange config).stop h = .ok h') :
    h'.segments = h.segments ++ Segment.ofRange ".imports" (m.slotRange config)
      (Bytes.concat (m.externalHandles.map fun _ =>
        Array.replicate config.pointerSize.toNat 0)) := by
  have hslots := sum_sizes (fun _ => config.pointerSize.toNat)
    fun e (he : e ∈ m.externalHandles) => by rw [hloads.size_mapping_slot he, Int.toNat_of_nonneg hsize]
  obtain ⟨g, hg, hpublish⟩ := bind_eq_ok.mp hpublish
  have hsegments : g.segments = h.segments :=
    foldlM_invariant (I := fun k : Host => k.segments = h.segments) (fun e _ k k' hstep hk => by
      obtain ⟨name, -, hstep⟩ := bind_eq_ok.mp hstep
      obtain rfl := pure_eq_ok.mp hstep
      exact (segments_addSymbol ..).trans hk) hg rfl
  rw [← hsegments] at hfront
  -- Nothing is written to the slots.
  have htiles : Tiles config.importsBase [] := trivial
  have hpublished := segments_publishSegment hfront htiles
    (m.externalHandles.map fun _ => config.pointerSize.toNat).sum
    (by simpa [Bytes.concat, slotRange] using hslots) hpublish
  rw [hpublished, hsegments, Bytes.concat_zeros]
  simp [Bytes.concat]

/-- The segments of a module that is published to a new host are its image, if the ranges of its
addresses have none in common. -/
theorem segments_publish {n : Module} (hn : decode data = .ok n) (hsize : 0 ≤ config.pointerSize)
    (hapart : ((n.layOut config).1.ranges config).Pairwise Extent.Apart)
    (hpublish : (n.layOut config).1.publish config (n.layOut config).2 .new = .ok h) :
    h.segments = (n.layOut config).1.image config := by
  have hloads : Loads config data (n.layOut config).1 := .inl (exists_loadInto config hn .new).1
  obtain ⟨hdataStop, hcodeStop, hslotStop⟩ := stop_ranges config hn
  simp only [ranges, List.pairwise_cons, List.mem_cons, List.not_mem_nil, or_false, forall_eq_or_imp,
    forall_eq, IsEmpty.forall_iff, implies_true, List.Pairwise.nil, and_true] at hapart
  obtain ⟨⟨hdataCode, hdataSlot⟩, hcodeSlot⟩ := hapart
  obtain ⟨h₁, hdata, hpublish⟩ := bind_eq_ok.mp hpublish
  obtain ⟨h₂, hcode, himports⟩ := bind_eq_ok.mp hpublish
  rw [← hdataStop] at hdata
  rw [← hcodeStop] at hcode
  rw [← hslotStop] at himports
  have hsegments := segments_publishData hloads (by simp [Host.withMoveTypes, Host.new]) hdata
  rw [Host.withMoveTypes, Host.new, List.nil_append] at hsegments
  -- No segment that is there already reaches into the range of the next one.
  have hsegments' := segments_publishCode hloads (fun t ht => by
    rw [hsegments] at ht
    rw [extent_of_mem_ofRange ht]
    exact hdataCode) hcode
  have hsegments'' := segments_publishImports hloads hsize (fun t ht => by
    rw [hsegments', hsegments] at ht
    obtain ht | ht := List.mem_append.mp ht
    · rw [extent_of_mem_ofRange ht]
      exact hdataSlot
    · rw [extent_of_mem_ofRange ht]
      exact hcodeSlot) himports
  rw [hsegments'', hsegments', hsegments, List.append_assoc]
  rfl

end Module

/-! ## Reading -/

/-- Within a segment that holds the bytes of entries one behind the other, the addresses of an entry are
read as its bytes. -/
theorem Segment.read_entry {α : Type} {entries : List (Entry α)} {bytes : Entry α → Bytes}
    {s : Segment} (hdata : s.data = Bytes.concat (entries.map bytes))
    (hsize : ∀ e ∈ entries, e.mapping.size = (bytes e).size)
    {k : Nat} {e : Entry α} (he : entries[k]? = some e)
    (hstart : e.mapping.start = s.base + ((entries.take k).map (·.mapping.size)).sum) :
    s.read e.mapping.start e.mapping.size = bytes e := by
  have hpart : (entries.map bytes)[k]? = some (bytes e) := by simp [he]
  have hbefore : ((entries.take k).map (·.mapping.size)).sum =
      (Bytes.concat ((entries.map bytes).take k)).size := by
    rw [Module.sum_sizes _ fun e he => hsize e (List.mem_of_mem_take he), Bytes.size_concat,
      ← List.map_take, List.map_map]
    rfl
  have hfirst : e.mapping.start - s.base = (Bytes.concat ((entries.map bytes).take k)).size := by
    omega
  have hlast : e.mapping.start - s.base + e.mapping.size =
      ((Bytes.concat ((entries.map bytes).take k)).size + (bytes e).size : Nat) := by
    rw [hfirst, hsize e (List.mem_of_getElem? he), Int.natCast_add]
  unfold Segment.read
  dsimp only
  rw [hlast, if_neg (by omega), hfirst, hdata, Int.toNat_natCast, Int.toNat_natCast]
  exact Bytes.extract_concat hpart

namespace Host

/-- Where the segments have no address in common, a range of addresses is read from the segment that has
all of it. -/
theorem read_of_mem {h : Host} (hapart : h.segments.Pairwise fun s t => s.extent.Apart t.extent)
    {s : Segment} (hs : s ∈ h.segments) {address size : Int} (hsize : 0 < size)
    (hspans : s.extent.Spans address size) : h.read address size = .ok (s.read address size) := by
  have hfind : h.segmentAt? address size = some s := by
    unfold segmentAt?
    cases hfound : h.segments.find? (·.contains address size) with
    | none =>
      have hmiss := List.find?_eq_none.mp hfound s hs
      exact absurd (Segment.contains_iff.mpr hspans) hmiss
    | some t =>
      have hcontains := List.find?_some hfound
      rw [Segment.contains_iff] at hcontains
      have : Std.Symm fun s t : Segment => s.extent.Apart t.extent := ⟨fun _ _ hst => hst.symm⟩
      by_contra hne
      have hst : s.extent.Apart t.extent :=
        hapart.forall hs (List.mem_of_find?_eq_some hfound) fun heq => hne (by rw [heq])
      exact hst.not_spans hsize hspans hcontains
  rw [read, hfind]

/-- Nothing is read where no segment has all of the addresses. -/
theorem read_of_not_spans {h : Host} {address size : Int}
    (hmiss : ∀ s ∈ h.segments, ¬s.extent.Spans address size) :
    h.read address size = .error (.noSegment address size) := by
  have hnone : h.segmentAt? address size = none :=
    List.find?_eq_none.mpr fun s hs hcontains => hmiss s hs (Segment.contains_iff.mp hcontains)
  rw [read, hnone]

/-- The addresses of an entry are read as its bytes, if a segment holds the bytes of the entries one behind
the other. -/
theorem read_entry {α : Type} (name : String) (range : Extent) (bytes : Entry α → Bytes)
    {entries : List (Entry α)} {h : Host}
    (hapart : h.segments.Pairwise fun s t => s.extent.Apart t.extent)
    (hmem : ∀ s ∈ Segment.ofRange name range (Bytes.concat (entries.map bytes)), s ∈ h.segments)
    (hrange : range.size = (entries.map (·.mapping.size)).sum)
    (hsize : ∀ e ∈ entries, e.mapping.size = (bytes e).size)
    {k : Nat} {e : Entry α} (he : entries[k]? = some e)
    (hstart : e.mapping.start = range.start + ((entries.take k).map (·.mapping.size)).sum)
    (hpos : e.mapping.size ≠ 0) : h.read e.mapping.start e.mapping.size = .ok (bytes e) := by
  have hbytes := hsize e (List.mem_of_getElem? he)
  -- The entries before this one, itself and those behind it fill the range.
  have hfront := Module.sum_sizes _ fun e (he : e ∈ entries.take k) => hsize e (List.mem_of_mem_take he)
  have hback := Module.sum_sizes _ fun e (he : e ∈ entries.drop (k + 1)) =>
    hsize e (List.mem_of_mem_drop he)
  have hsplit := congrArg (fun l => (l.map (·.mapping.size)).sum) (eq_take_append_cons_drop he)
  simp only [List.map_append, List.map_cons, List.sum_append, List.sum_cons] at hsplit
  let s : Segment := ⟨name, .unplaced, range.start, range.size, Segment.allAccess,
    Bytes.concat (entries.map bytes)⟩
  have hs : s ∈ h.segments := by
    refine hmem s ?_
    rw [Segment.ofRange, if_neg (by omega)]
    exact List.mem_singleton_self s
  have hspans : s.extent.Spans e.mapping.start e.mapping.size := by
    simp only [s, Segment.extent, Extent.Spans, Extent.stop]
    omega
  rw [read_of_mem hapart hs (by omega) hspans, Segment.read_entry rfl hsize he hstart]

end Host

namespace Module

variable {config : Config} {data : Bytes} {m : Module} {h : Host}

/-- The segment of a range has the range as its extent; an empty range has none. -/
theorem map_extent_ofRange (name : String) (range : Extent) (contents : Bytes) :
    (Segment.ofRange name range contents).map Segment.extent = [range].filter (0 < ·.size) := by
  unfold Segment.ofRange
  split
  · rename_i hle
    rw [List.filter_singleton, decide_eq_false (by omega)]
    rfl
  · rename_i hlt
    rw [List.filter_singleton, decide_eq_true (by omega)]
    rfl

/-- The segments have the ranges with addresses. -/
theorem map_extent_image (config : Config) (m : Module) :
    (m.image config).map Segment.extent = (m.ranges config).filter (0 < ·.size) := by
  simp only [image, List.map_append, map_extent_ofRange, ← List.filter_append]
  rfl

/-- A host that holds the memory of a module as it was mapped. -/
structure Imaged (config : Config) (data : Bytes) (m : Module) (h : Host) : Prop where
  /-- The addresses of a constant are read as its payload in the file, a text with a zero behind it. -/
  constants : ∀ e ∈ m.dataEntries, e.mapping.size ≠ 0 → ∃ payload, e.StandsAs data payload ∧
    h.read e.mapping.start e.mapping.size = .ok (e.record.image payload)
  /-- The addresses of a body are read as the bytes of the body in the file. -/
  bodies : ∀ f ∈ m.internalFunctions, f.mapping.size ≠ 0 →
    h.read f.mapping.start f.mapping.size =
      .ok (data.extract f.record.code.start f.record.code.stop)
  /-- A slot is read as zeros. -/
  slots : ∀ e ∈ m.externalHandles, h.read e.mapping.start config.pointerSize =
    .ok (Array.replicate config.pointerSize.toNat 0)
  /-- There is a segment for each range with addresses. -/
  segments : h.segments.map Segment.extent = (m.ranges config).filter (0 < ·.size)
  /-- Nothing is read that no segment has. -/
  elsewhere : ∀ address size, 0 < size → (∀ s ∈ h.segments, ¬s.extent.Spans address size) →
    h.read address size = .error (.noSegment address size) ∧
      (Fault.noSegment address size).kind = .invalidValue

/-- Constants and bodies that are short enough have no address in common in the standard layout. -/
theorem pairwise_ranges_of_standard (hdata : config.dataBase = Config.standard.dataBase)
    (hcode : config.codeBase = Config.standard.codeBase)
    (himports : config.importsBase = Config.standard.importsBase)
    (hdataSize : (m.dataRange config).size < 0x10000000)
    (hcodeSize : (m.codeRange config).size < 0x10000000) :
    (m.ranges config).Pairwise Extent.Apart := by
  have hdataStop : (m.dataRange config).stop ≤ (m.codeRange config).start := by
    simp only [Extent.stop, dataRange, codeRange, hdata, hcode, Config.standard] at hdataSize ⊢
    omega
  have hcodeStop : (m.codeRange config).stop ≤ (m.slotRange config).start := by
    simp only [Extent.stop, slotRange, codeRange, himports, hcode, Config.standard] at hcodeSize ⊢
    omega
  have hslotStart : (m.codeRange config).start ≤ (m.slotRange config).start := by
    simp only [slotRange, codeRange, himports, hcode, Config.standard]
    omega
  simp only [ranges, List.pairwise_cons, List.mem_cons, List.not_mem_nil, or_false, forall_eq_or_imp,
    forall_eq, IsEmpty.forall_iff, implies_true, List.Pairwise.nil, and_true]
  exact ⟨⟨Extent.apart_of_le hdataStop, Extent.apart_of_le (by omega)⟩,
    Extent.apart_of_le hcodeStop⟩

/-! ## The memory of a loaded module -/

/-- A host into which a module was loaded has the memory of the module as its segments, if the ranges are
apart. -/
theorem segments_of_loadInto (hload : loadInto config data .new = .ok (m, h))
    (hsize : 0 ≤ config.pointerSize) (hranges : (m.ranges config).Pairwise Extent.Apart) :
    h.segments = m.image config := by
  have hloads : Loads config data m := .inr ⟨.new, h, hload⟩
  obtain ⟨n, hn, rfl⟩ := hloads.exists_decode
  obtain ⟨-, host, hpublish, hload'⟩ := exists_loadInto config hn .new
  obtain ⟨-, rfl⟩ := Prod.mk.inj (Except.ok.inj (hload.symm.trans hload'))
  exact segments_publish hn hsize hranges hpublish

section

variable (hloads : Loads config data m) (hsegments : h.segments = m.image config)
  (hapart : h.segments.Pairwise fun s t => s.extent.Apart t.extent)

include hloads hsegments hapart

/-- A constant is read as its payload, a text with a zero behind it. -/
theorem read_constant {e : Entry Datum} (he : e ∈ m.dataEntries) (hne : e.mapping.size ≠ 0) :
    ∃ payload, e.StandsAs data payload ∧
      h.read e.mapping.start e.mapping.size = .ok (e.record.image payload) := by
  obtain ⟨k, hk⟩ := List.mem_iff_getElem?.mp he
  obtain ⟨hstart, payload, hpayload, -⟩ := hloads.laidOut.constants k e hk
  refine ⟨payload, hpayload, ?_⟩
  rw [← hpayload.bytes_eq]
  refine Host.read_entry ".data" (m.dataRange config) (fun e => e.record.bytes) hapart (fun s hs => ?_) rfl
    (fun e he => hloads.size_mapping_datum he) hk hstart hne
  rw [hsegments]
  exact List.mem_append_left _ hs

/-- A body is read as the bytes that it has in the file. -/
theorem read_body {f : Entry FunctionDef} (hf : f ∈ m.internalFunctions) (hne : f.mapping.size ≠ 0) :
    h.read f.mapping.start f.mapping.size =
      .ok (data.extract f.record.code.start f.record.code.stop) := by
  obtain ⟨k, hk⟩ := List.mem_iff_getElem?.mp hf
  obtain ⟨hdecoded, rfl⟩ := hloads.decoded
  rw [← (hdecoded.entries f (mem_functionEntries hf)).codeInvariants.bytes]
  refine Host.read_entry ".code" (m.codeRange config) (fun f => f.record.code.bytes) hapart (fun s hs => ?_) rfl
    (fun f hf => hloads.size_mapping_body hf) hk (hloads.laidOut.functions k f hk).1 hne
  rw [hsegments]
  exact List.mem_append_right _ (List.mem_append_left _ hs)

/-- A slot is read as zeros. -/
theorem read_slot (hsize : 0 < config.pointerSize) {e : Entry FunctionHandle}
    (he : e ∈ m.externalHandles) :
    h.read e.mapping.start config.pointerSize =
      .ok (Array.replicate config.pointerSize.toNat 0) := by
  obtain ⟨k, hk⟩ := List.mem_iff_getElem?.mp he
  have hslot := hloads.size_mapping_slot he
  have hstart : e.mapping.start = config.importsBase +
      ((m.externalHandles.take k).map (·.mapping.size)).sum := by
    rw [hloads.laidOut.slots k e hk, List.sum_eq_card_nsmul _ config.pointerSize fun size hmem => ?_,
      List.length_map, List.length_take, Int.nsmul_eq_mul,
      Nat.min_eq_left (Nat.le_of_lt (List.getElem?_eq_some_iff.mp hk).1)]
    obtain ⟨e, he, rfl⟩ := List.mem_map.mp hmem
    exact hloads.size_mapping_slot (List.mem_of_mem_take he)
  rw [← hslot]
  refine Host.read_entry ".imports" (m.slotRange config)
    (fun _ => Array.replicate e.mapping.size.toNat 0) hapart (fun s hs => ?_) rfl
    (fun e' he' => ?_) hk hstart (by omega)
  · rw [hsegments]
    rw [hslot] at hs
    exact List.mem_append_right _ (List.mem_append_right _ hs)
  · rw [hloads.size_mapping_slot he', hslot, Array.size_replicate, Int.toNat_of_nonneg (by omega)]

end

/-- A binary that is loaded to a new host leaves its memory there if its ranges of addresses have none in
common, as they do in the standard layout where constants and bodies are shorter than `0x10000000`
bytes: every constant, body and slot is read as what stands for it in the file, and nothing is read
elsewhere. -/
theorem loaded_image (hload : loadInto config data .new = .ok (m, h)) (hsize : 0 < config.pointerSize)
    (hlayout : (m.ranges config).Pairwise Extent.Apart ∨
      (config.dataBase = Config.standard.dataBase ∧ config.codeBase = Config.standard.codeBase ∧
        config.importsBase = Config.standard.importsBase ∧
        (m.dataRange config).size < 0x10000000 ∧ (m.codeRange config).size < 0x10000000)) :
    m.Imaged config data h := by
  have hranges : (m.ranges config).Pairwise Extent.Apart := by
    obtain hranges | ⟨hdata, hcode, himports, hdataSize, hcodeSize⟩ := hlayout
    · exact hranges
    · exact pairwise_ranges_of_standard hdata hcode himports hdataSize hcodeSize
  have hloads : Loads config data m := .inr ⟨.new, h, hload⟩
  have hsegments := segments_of_loadInto hload (by omega) hranges
  have hextents : h.segments.map Segment.extent = (m.ranges config).filter (0 < ·.size) := by
    rw [hsegments, map_extent_image]
  have hapart : h.segments.Pairwise fun s t => s.extent.Apart t.extent := by
    rw [← List.pairwise_map, hextents]
    exact hranges.filter _
  exact {
    constants := fun e he hne => read_constant hloads hsegments hapart he hne
    bodies := fun f hf hne => read_body hloads hsegments hapart hf hne
    slots := fun e he => read_slot hloads hsegments hapart hsize he
    segments := hextents
    elsewhere := fun address size _ hmiss => ⟨Host.read_of_not_spans hmiss, rfl⟩ }

/-- The sample has its address below zero, its texts behind each other, two bodies and a slot in
memory. -/
theorem poolSample_image : ∃ m h,
    loadInto { Config.standard with dataBase := -32 } poolSample .new = .ok (m, h) ∧
      m.Imaged { Config.standard with dataBase := -32 } poolSample h ∧
      h.read 2 7 = .ok #[0x3C, 0x53, 0x45, 0x4C, 0x46, 0x3E, 0] ∧
      h.read 11 3 = .ok #[0xC3, 0xA9, 0] := by
  have check : (loadInto { Config.standard with dataBase := -32 } poolSample .new).toOption.any
      (fun loaded =>
        decide ((loaded.1.ranges { Config.standard with dataBase := -32 }).Pairwise
          fun e e' => e.stop ≤ e'.start) &&
        decide ((loaded.2.read 2 7).toOption = some #[0x3C, 0x53, 0x45, 0x4C, 0x46, 0x3E, 0]) &&
        decide ((loaded.2.read 11 3).toOption = some #[0xC3, 0xA9, 0])) = true := by
    decide +kernel
  obtain ⟨⟨m, h⟩, hload, hcheck⟩ := exists_of_any_toOption check
  simp only [Bool.and_eq_true, decide_eq_true_eq, toOption_eq_some] at hcheck
  obtain ⟨⟨hranges, hself⟩, haccent⟩ := hcheck
  have himaged := loaded_image hload (by decide) (.inl (hranges.imp Extent.apart_of_le))
  exact ⟨m, h, hload, himaged, hself, haccent⟩

end Module

end MoveBytecode
