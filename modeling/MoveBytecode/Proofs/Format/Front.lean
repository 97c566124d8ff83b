import Mathlib.Data.List.Nodup
import MoveBytecode.Load.Basic
import MoveBytecode.Proofs.Format.Description
import MoveBytecode.Proofs.Reading.Framing

/-!
# Headers and directories

What stands in front of the tables is read back as the magic text and the directory entries
(`Description.IsBinary.readDirectory_eq`), and the encoder of a description writes a binary of it
(`Description.isBinary_encode`).
-/

namespace MoveBytecode

open Format Reader

/-! ## The header -/

namespace Header

/-- The header with the Libra magic text, byte by byte. -/
theorem header_libra :
    header .libra = [0x4C, 0x49, 0x42, 0x52, 0x41, 0x56, 0x4D, 0x0A, 1, 0] := by
  decide

/-- The header with the Diem magic text, byte by byte. -/
theorem header_diem :
    header .diem = [0x44, 0x49, 0x45, 0x4D, 0x56, 0x4D, 0x0A, 0, 1, 0] := by
  decide

/-- A header is as long as every other. -/
@[simp] theorem length_header (magic : Magic) : (header magic).length = size := by
  cases magic with
  | libra => rw [header_libra]; rfl
  | diem => rw [header_diem]; rfl

/-- A header is accepted, with its magic text. -/
theorem check_eq {magic : Magic} {data : Bytes} (h : header magic <+: data.toList) :
    check data = .ok magic := by
  obtain ⟨rest, hrest⟩ := h
  obtain ⟨l⟩ := data
  change header magic ++ rest = l at hrest
  subst hrest
  have hlibra : Magic.bytes .libra = #[0x4C, 0x49, 0x42, 0x52, 0x41, 0x56, 0x4D, 0x0A] := by decide
  have hdiem : Magic.bytes .diem = #[0x44, 0x49, 0x45, 0x4D, 0x56, 0x4D, 0x0A] := by decide
  cases magic with
  | libra =>
    rw [header_libra]
    simp [check, magic?, Magic.starts, size, versionOffset, hlibra, ← Array.isPrefixOf_toList]
  | diem =>
    rw [header_diem]
    simp [check, magic?, Magic.starts, size, versionOffset, hlibra, hdiem,
      ← Array.isPrefixOf_toList]

end Header

/-! ## The directory -/

namespace Directory

/-- A directory entry is read from its bytes if its table lies within the file. -/
theorem runs_readSection_entry {s : Section} {c : Cursor} (hc : c.Faces (entry s))
    (hsize : c.data.size < 2 ^ 31) (hinside : s.offset + s.size ≤ c.data.size) :
    Runs readSection c s (c.moved (entry s).length) := by
  obtain ⟨hcode, hrest⟩ : c.Faces [s.kind.code] ∧
      (c.moved 1).Faces (littleEndian 4 s.offset ++ littleEndian 4 s.size) := hc.append
  obtain ⟨hoffset, hlength⟩ := hrest.append
  have h1 := parses_u31 (show s.offset < 2 ^ 31 by omega) _ hoffset
  have h2 := parses_u31 (show s.size < 2 ^ 31 by omega) _ hlength
  simp only [readSection, runs_bind]
  refine ⟨s.kind.code, _, parses_u8 _ _ hcode, ?_⟩
  simp only [List.length_singleton, TableKind.ofCode?_code, runs_bind, runs_get]
  refine ⟨_, _, h1, _, _, h2, _, _, ⟨rfl, rfl⟩, ?_⟩
  -- A table that ends behind the data would be refused.
  rw [if_neg (by simp only [Cursor.moved_data]; omega)]
  refine runs_pure.mpr ⟨rfl, ?_⟩
  simp [entry]

/-- Directory entries are read one after the other. -/
theorem runs_readMany_entries {sections : List Section} {c : Cursor}
    (hc : c.Faces (sections.flatMap entry)) (hsize : c.data.size < 2 ^ 31)
    (hinside : ∀ s ∈ sections, s.offset + s.size ≤ c.data.size) :
    Runs (readMany sections.length) c sections (c.moved (sections.flatMap entry).length) := by
  induction sections generalizing c with
  | nil => exact runs_pure.mpr ⟨rfl, rfl⟩
  | cons s rest ih =>
    rw [List.flatMap_cons] at hc ⊢
    obtain ⟨hfirst, hrest⟩ := hc.append
    have hentry := runs_readSection_entry hfirst hsize (hinside s List.mem_cons_self)
    have hmany := ih hrest hsize fun t ht => hinside t (List.mem_cons_of_mem _ ht)
    rw [Cursor.moved_moved, ← List.length_append] at hmany
    simp only [List.length_cons, readMany, runs_bind, runs_pure]
    exact ⟨s, _, hentry, rest, _, hmany, rfl, rfl⟩

/-- A directory is read from its bytes. -/
theorem runs_read_directory {sections : List Section} {c : Cursor}
    (hc : c.Faces (directory sections)) (hcount : sections.length ≤ 0xFF)
    (hsize : c.data.size < 2 ^ 31) (hinside : ∀ s ∈ sections, s.offset + s.size ≤ c.data.size) :
    ∃ c', Runs read c sections c' := by
  obtain ⟨hfirst, hrest⟩ : c.Faces [UInt8.ofNat sections.length] ∧
      (c.moved 1).Faces (sections.flatMap entry) := hc.append
  have hbyte : (UInt8.ofNat sections.length).toNat = sections.length := by
    rw [UInt8.toNat_ofNat']
    exact Nat.mod_eq_of_lt (Nat.lt_succ_of_le hcount)
  have hmany := runs_readMany_entries hrest hsize hinside
  rw [← hbyte] at hmany
  exact ⟨_, runs_bind.mpr ⟨_, _, parses_u8 _ c hfirst, hmany⟩⟩

end Directory

namespace Format.Description

variable {d : Description} {magic : Magic} {sections : List Section} {data : Bytes}

/-- No kind of table occurs twice. -/
theorem nodup_kinds (d : Description) : d.kinds.Nodup :=
  List.Nodup.filter _ (by decide)

/-- A binary has no two directory entries of one kind. -/
theorem IsBinary.nodup (h : d.IsBinary magic sections data) : (sections.map (·.kind)).Nodup :=
  h.kinds.nodup_iff.mpr d.nodup_kinds

/-- The number of directory entries of a binary fits into a byte. -/
theorem IsBinary.length_le (h : d.IsBinary magic sections data) : sections.length ≤ 0xFF := by
  have hlength := h.kinds.length_eq
  have hle : d.kinds.length ≤ TableKind.all.length := List.length_filter_le _ _
  have hall : TableKind.all.length = 13 := rfl
  rw [List.length_map] at hlength
  omega

/-- The directory has entries for the tables with records, and for no others. -/
theorem IsBinary.mem_iff (h : d.IsBinary magic sections data) (kind : TableKind) :
    (∃ s ∈ sections, s.kind = kind) ↔ d.items kind ≠ [] := by
  rw [← List.mem_map, h.kinds.mem_iff, Description.kinds, List.mem_filter]
  simp [TableKind.mem_all]

/-- The module of a binary with its directory read. -/
theorem IsBinary.readDirectory_eq (h : d.IsBinary magic sections data) :
    Module.readDirectory data = .ok (.start data magic sections) := by
  obtain ⟨rest, hrest⟩ := h.front
  have hsize : Header.size + (directory sections).length ≤ data.size := by
    have hlength := congrArg List.length hrest
    simp only [List.length_append, Header.length_header, Array.length_toList] at hlength
    omega
  have hcheck := Header.check_eq ((List.prefix_append _ _).trans h.front)
  have hcursor : Cursor.make data Header.size none =
      .ok ⟨data, Header.size, Header.size, data.size⟩ := by
    unfold Cursor.make
    rw [if_neg]
    · rfl
    · simp only [Option.getD_none]
      omega
  have hfaces : (⟨data, Header.size, Header.size, data.size⟩ : Cursor).Faces
      (directory sections) := by
    refine ⟨hsize, Nat.le_refl _, rest, ?_⟩
    rw [← hrest, List.append_assoc, ← Header.length_header magic, List.drop_left]
  obtain ⟨c', hread⟩ := Directory.runs_read_directory hfaces h.length_le h.size
    fun s hs => (h.tables s hs).1
  refine bind_eq_ok.mpr ⟨magic, hcheck, bind_eq_ok.mpr ⟨_, hcursor, bind_eq_ok.mpr
    ⟨sections, ?_, rfl⟩⟩⟩
  exact congrArg Prod.fst (runs_iff_runAt.mp hread)

end Format.Description

/-! ## Assembled binaries -/

namespace Format

/-- There is one directory entry for each table. -/
@[simp] theorem length_sections (start : Nat) (parts : List Part) :
    (sections start parts).length = parts.length := by
  induction parts generalizing start with
  | nil => rfl
  | cons p rest ih => simp [sections, ih]

/-- Each directory entry has the kind of its table. -/
@[simp] theorem map_kind_sections (start : Nat) (parts : List Part) :
    (sections start parts).map (·.kind) = parts.map (·.kind) := by
  induction parts generalizing start with
  | nil => rfl
  | cons p rest ih => simp [sections, ih]

/-- What stands in front of the tables has the length that the first of them stands at. -/
theorem length_front (magic : Magic) (sections : List Section) :
    (header magic ++ directory sections).length = tablesOffset sections.length := by
  have hentry : ∀ s ∈ sections, (entry s).length = 9 := by
    intro s _
    simp [entry]
  rw [List.length_append, Header.length_header, directory, List.length_cons, List.length_flatMap,
    List.map_congr_left hentry]
  simp [tablesOffset]
  omega

/-- A binary is as long as its header, its directory and its tables together. -/
theorem size_assemble (magic : Magic) (parts : List Part) :
    (assemble magic parts).size =
      tablesOffset parts.length + (parts.map (·.bytes.length)).sum := by
  have hfront := length_front magic (sections (tablesOffset parts.length) parts)
  rw [length_sections] at hfront
  simp only [assemble, List.size_toArray]
  rw [List.length_append, hfront, List.length_flatMap]

/-- Tables one behind the other stand where their directory entries say. -/
theorem window_sections {pre : List UInt8} {parts : List Part} {data : Bytes}
    (hdata : pre ++ parts.flatMap (·.bytes) = data.toList) :
    ∀ s ∈ sections pre.length parts, s.offset + s.size ≤ data.size ∧
      ∃ p ∈ parts, p.kind = s.kind ∧ (data.window s.offset s.size).toList = p.bytes := by
  induction parts generalizing pre with
  | nil => simp [sections]
  | cons p rest ih =>
    -- The first table goes over to what stands in front of the others.
    rw [List.flatMap_cons, ← List.append_assoc] at hdata
    have hlength := congrArg List.length hdata
    simp only [List.length_append, Array.length_toList] at hlength
    have hrest := ih hdata
    rw [List.length_append] at hrest
    intro s hs
    rcases List.mem_cons.mp hs with rfl | hs
    · refine ⟨by simp only; omega, p, List.mem_cons_self, rfl, ?_⟩
      simp only [Bytes.window, Array.toList_extract, List.extract_eq_take_drop,
        Nat.add_sub_cancel_left]
      rw [← hdata, List.append_assoc, List.drop_left, List.take_left]
    · obtain ⟨hinside, q, hq, hwindow⟩ := hrest s hs
      exact ⟨hinside, q, List.mem_cons_of_mem _ hq, hwindow⟩

/-- The encoder writes a binary of a description, whichever order of its tables it is given. -/
theorem Description.isBinary_encode {d : Description} (magic : Magic) {order : List TableKind}
    (horder : order.Perm d.kinds) (hsize : (d.encode magic order).size < 2 ^ 31) :
    d.IsBinary magic
      (sections (tablesOffset order.length) (order.map fun kind => ⟨kind, d.table kind⟩))
      (d.encode magic order) := by
  have hdata : (header magic ++ directory (sections (tablesOffset order.length)
        (order.map fun kind => ⟨kind, d.table kind⟩))) ++
      (order.map fun kind => (⟨kind, d.table kind⟩ : Part)).flatMap (·.bytes) =
      (d.encode magic order).toList := by
    simp [encode, assemble]
  refine ⟨⟨_, hdata⟩, ?_, fun s hs => ?_, hsize⟩
  · simpa [Function.comp_def] using horder
  · have hwindow := window_sections hdata
    rw [length_front, length_sections, List.length_map] at hwindow
    obtain ⟨hinside, p, hp, hkind, hbytes⟩ := hwindow s hs
    obtain ⟨kind, -, rfl⟩ := List.mem_map.mp hp
    subst hkind
    exact ⟨hinside, hbytes⟩

end Format

end MoveBytecode
