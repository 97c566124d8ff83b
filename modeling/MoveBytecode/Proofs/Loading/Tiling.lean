import MoveBytecode.Proofs.Format.RoundTrip
import MoveBytecode.Proofs.Loading.Capacity
import MoveBytecode.Proofs.Loading.Layout
import MoveBytecode.Proofs.Loading.Locality

/-!
# Records fill their tables

The loop over a table reads record after record up to the end of the table, so that the places of the
entries cover the table from its first byte to its last, each with at least one
(`Table.exists_entries_of_fills`). As no reader looks behind what it moves over, every entry is read again
from the bytes in its place alone. Both hold of all tables of a loaded module but that of a script's
function (`Module.loaded_contiguous`).
-/

namespace MoveBytecode

open Reader

variable {α : Type}

/-! ## Entries one behind the other -/

namespace Entry

/-- Entries whose places in the file follow each other from `start` to `stop`, none of them empty. -/
def Contiguous : (start stop : Nat) → List (Entry α) → Prop
  | start, stop, [] => start = stop
  | start, stop, e :: rest =>
    ∃ size : Nat, 0 < size ∧ e.file = ⟨start, size⟩ ∧ Contiguous (start + size) stop rest

/-- An entry whose record a reader makes of the bytes in its place, in every window that holds them. -/
def ReadIn (read : Reader α) (data : Bytes) (e : Entry α) : Prop :=
  ∃ start size : Nat, e.file = ⟨start, size⟩ ∧ start + size ≤ data.size ∧
    ∀ d : Cursor, d.data = data → d.position = start → start + size ≤ d.stop →
      Runs read d e.record (d.moved size)

/-- An entry whose record is read again from the bytes in its place alone, to their end: within the file,
and, apart from the position of a body, as data of their own. -/
structure ReadsAlone (m : Module) (kind : TableKind) (e : Entry (Contents FunctionDef kind)) : Prop where
  inPlace : ∃ c c', Cursor.make m.data e.file.start (some e.file.stop) = .ok c ∧
    Runs (Table.reader m kind) c e.record c' ∧ c'.atEnd = true
  apart : ∃ c c' record,
    Cursor.make (m.data.window e.file.start.toNat e.file.size.toNat) 0 none = .ok c ∧
      Runs (Table.reader m kind) c record c' ∧ Table.bare kind record = Table.bare kind e.record ∧
      c'.atEnd = true

/-- A window of data has its bytes also as data of its own. -/
theorem window_window (data : Bytes) (start size : Nat) :
    (data.window start size).window 0 size = data.window start size := by
  simp [Bytes.window]

/-- An entry that a reader makes of its bytes is read again from these bytes alone. -/
theorem ReadIn.readsAlone {m : Module} {kind : TableKind} {e : Entry (Contents FunctionDef kind)}
    (h : e.ReadIn (Table.reader m kind) m.data) : e.ReadsAlone m kind := by
  obtain ⟨start, size, hfile, hroom, hread⟩ := h
  have hrun := hread ⟨m.data, start, start, start + size⟩ rfl rfl (Nat.le_refl _)
  have hroom' : 0 + size ≤ (m.data.window start size).size := by
    rw [Body.size_window hroom, Nat.zero_add]
  have habreast := Cursor.abreast_of_window hroom hroom' (window_window _ _ _).symm
  obtain ⟨record, count, hbare, -, hmoved, hrun'⟩ :=
    Table.matches_reader (fun _ => .refl m) _ _ _ _ habreast hrun
  have hcount : size = count := by
    have hposition := congrArg Cursor.position hmoved
    simp only [Cursor.moved_position] at hposition
    omega
  subst hcount
  constructor
  · refine ⟨_, _, ?_, hrun, by simp [Cursor.atEnd]⟩
    rw [hfile, Cursor.make, if_neg]
    · rfl
    · simp only [Extent.stop, Option.getD_some]
      omega
  · refine ⟨_, _, record, ?_, hrun', hbare.symm, by simp [Cursor.atEnd]⟩
    rw [hfile, Int.toNat_natCast, Int.toNat_natCast, Cursor.make, if_neg]
    · simp [Body.size_window hroom]
    · simp [Body.size_window hroom]

end Entry

/-! ## One table -/

namespace Table

/-- The loop over the records of a table adds entries that cover its window. -/
theorem exists_entries_of_fills {read : Reader α} (hread : read.Progresses) (hconfines : read.Confines)
    {c : Cursor} {pool pool' : Pool α} (hc : c.Inside) (h : Fills read c pool (.ok pool')) :
    ∃ entries, pool'.toList = pool.toList ++ entries ∧ Entry.Contiguous c.position c.stop entries ∧
      ∀ e ∈ entries, e.mapping = .unplaced ∧ e.ReadIn read c.data := by
  generalize hresult : Except.ok pool' = result at h
  -- Induction on the filling, where each record starts at the end of the one before it.
  induction h with
  | @done c pool hend =>
    obtain rfl := Except.ok.inj hresult
    have hstop : c.position = c.stop := by
      have := hc.1
      simp only [Cursor.atEnd, decide_eq_true_eq] at hend
      omega
    exact ⟨[], by simp, hstop, by simp⟩
  | fault => cases hresult
  | @record c c' pool record result _ hrun _ ih =>
    obtain ⟨size, rfl, hconfined⟩ := hconfines c record c' hrun
    have hinside := (hread.advances c record _ hrun).inside hc
    have hsize := hread.lt c record _ hrun
    obtain ⟨entries, hentries, hcontiguous, hall⟩ := ih hinside hresult
    simp only [Cursor.moved_position, Nat.add_sub_cancel_left] at hentries hcontiguous hsize
    refine ⟨⟨pool.size, ⟨c.position, size⟩, .unplaced, record⟩ :: entries, ?_, ?_, ?_⟩
    · rw [hentries, Pool.toList_add, List.append_assoc]
      rfl
    · exact ⟨size, by omega, rfl, hcontiguous⟩
    · refine List.forall_mem_cons.mpr ⟨⟨rfl, c.position, size, rfl, ?_, ?_⟩, hall⟩
      · exact Nat.le_trans hinside.1 hinside.2
      · intro d hdata hposition hroom
        exact hconfined d ⟨hdata, hposition⟩ (hposition ▸ hroom)

variable {m m' n : Module} {kind : TableKind} {s : Section}

/-- A table is read into the pool of its kind. -/
theorem readInto_of_decode (hkind : s.kind ≠ .main) (h : decode m s = .ok m') :
    ∃ (c : Cursor) (pool pool' : Pool (Contents FunctionDef s.kind)), cursor m s = .ok c ∧
      readInto c (reader m s.kind) pool = .ok pool' ∧ m.table s.kind = pool.unmapped ∧
      m'.table s.kind = pool'.unmapped := by
  obtain ⟨kind, offset, size⟩ := s
  obtain ⟨c, hc, h⟩ := bind_eq_ok.mp h
  cases kind with
  | main => exact absurd rfl hkind
  | addressPool =>
    dsimp only at h
    split at h
    · simp [bind_eq_ok] at h
    · obtain ⟨pool', hpool, h⟩ := bind_eq_ok.mp h
      obtain rfl := pure_eq_ok.mp h
      exact ⟨c, _, pool', hc, hpool, rfl, rfl⟩
  | moduleHandles | structHandles | functionHandles | stringPool | bytearrayPool | structDefs
  | fieldDefs | functionDefs | typeSignatures | functionSignatures | localSignatures =>
    obtain ⟨pool', hpool, h⟩ := bind_eq_ok.mp h
    obtain rfl := pure_eq_ok.mp h
    exact ⟨c, _, pool', hc, hpool, rfl, rfl⟩

/-- A table adds entries to the table of its kind that cover its bytes. -/
theorem exists_entries_of_decode (hkind : s.kind ≠ .main) (h : decode m s = .ok m') :
    ∃ entries, m'.table s.kind = m.table s.kind ++ entries ∧
      Entry.Contiguous s.offset (s.offset + s.size) entries ∧
      ∀ e ∈ entries, e.ReadIn (reader m s.kind) m.data := by
  obtain ⟨c, pool, pool', hc, hpool, hm, hm'⟩ := readInto_of_decode hkind h
  obtain ⟨hinside, hdata, hposition⟩ := Cursor.inside_of_make hc
  have hfills := fills_readInto (progresses_reader m s.kind) c pool
  rw [hpool] at hfills
  obtain ⟨entries, hentries, hcontiguous, hall⟩ :=
    exists_entries_of_fills (progresses_reader m s.kind) (confines_reader m s.kind) hinside hfills
  have hstop : c.stop = s.offset + s.size := by
    have := available_of_cursor hc
    have := hinside.1
    simp only [Cursor.available] at *
    omega
  have hunmapped : entries.map Entry.unmapped = entries := by
    refine List.map_congr_left (fun e he => ?_) |>.trans (List.map_id entries)
    rw [Entry.unmapped, ← (hall e he).1]
    rfl
  refine ⟨entries, ?_, ?_, fun e he => hdata ▸ (hall e he).2⟩
  · rw [hm, hm', Pool.unmapped, Pool.unmapped, hentries, List.map_append, hunmapped]
  · rwa [hstop, show c.position = s.offset by omega] at hcontiguous

/-- The entries that a table adds to a module that was being decoded: they cover the bytes of the table,
and each of them is read again from its own. -/
structure Covers (m : Module) (kind : TableKind) (s : Section)
    (entries : List (Entry (Contents FunctionDef kind))) : Prop where
  decoded : ∃ n n' : Module, n.data = m.data ∧ (kind.holdsCode = true → n.SameRecords m) ∧
    decode n s = .ok n' ∧ n'.table kind = n.table kind ++ entries
  contiguous : Entry.Contiguous s.offset (s.offset + s.size) entries
  alone : ∀ e ∈ entries, e.ReadsAlone m kind

/-- Reading a table leaves the tables of other kinds and, if it holds code, all records without code. -/
theorem covers_of_decode (hkind : s.kind ≠ .main) (h : decode m s = .ok m') (hdata : n.data = m.data)
    (hrecords : s.kind.holdsCode = true → m.SameRecords n) :
    ∃ entries, m'.table s.kind = m.table s.kind ++ entries ∧ Covers n s.kind s entries := by
  obtain ⟨entries, htable, hcontiguous, hall⟩ := exists_entries_of_decode hkind h
  refine ⟨entries, htable, ⟨m, m', hdata.symm, hrecords, h, htable⟩, hcontiguous, fun e he => ?_⟩
  obtain ⟨start, size, hfile, hroom, hread⟩ := hall e he
  refine Entry.ReadIn.readsAlone ⟨start, size, hfile, hdata ▸ hroom, fun d hd hposition hstop => ?_⟩
  exact runs_reader_of_sameRecords hrecords (hread d (hd.trans hdata) hposition hstop)

end Table

/-! ## All tables -/

namespace Module

open Table

variable {m m' n : Module} {kind : TableKind} {l : List Section}

/-- Tables of other kinds add nothing to the table of a kind. -/
theorem table_foldlM_of_ne (hl : ∀ s ∈ l, s.kind ≠ kind) (h : l.foldlM Table.decode m = .ok m') :
    m'.table kind = m.table kind :=
  foldlM_invariant (I := fun n : Module => n.table kind = m.table kind) (fun s hs _ _ hdecode hn =>
    ((Format.Description.keeps_of_decode hdecode).table kind (hl s hs).symm).trans hn) h rfl

/-- Tables leave the data alone, and tables with code also the records without. -/
theorem kept_foldlM_decode {code : Bool} (hl : ∀ s ∈ l, s.kind.holdsCode = code)
    (h : l.foldlM Table.decode m = .ok m') : m'.data = m.data ∧ (code = true → m.SameRecords m') := by
  refine foldlM_invariant (I := fun n : Module => n.data = m.data ∧ (code = true → m.SameRecords n))
    (fun s hs n o ho ⟨hdata, hrecords⟩ => ?_) h ⟨rfl, fun _ => .refl m⟩
  refine ⟨(Format.Description.keeps_of_decode ho).data.trans hdata, fun hcode => ?_⟩
  exact (hrecords hcode).trans (decode_code ((hl s hs).trans hcode) ho).2.1

/-- The tables of a kind add their entries one after the other. -/
theorem covers_foldlM_decode (hkind : kind ≠ .main) (hl : ∀ s ∈ l, s.kind.holdsCode = kind.holdsCode)
    (h : l.foldlM Table.decode m = .ok m') (hdata : n.data = m'.data)
    (hrecords : kind.holdsCode = true → m'.SameRecords n) :
    ∃ runs, m'.table kind = m.table kind ++ runs.flatten ∧
      List.Forall₂ (Covers n kind) (ofKind kind l) runs := by
  induction l generalizing m with
  | nil =>
    obtain rfl := pure_eq_ok.mp h
    exact ⟨[], by simp, .nil⟩
  | cons s rest ih =>
    obtain ⟨hdata', hrecords'⟩ := kept_foldlM_decode hl h
    rw [List.foldlM_cons] at h
    obtain ⟨m₁, hm₁, h⟩ := bind_eq_ok.mp h
    obtain ⟨hs, hrest⟩ := List.forall_mem_cons.mp hl
    obtain ⟨runs, htable, hcovers⟩ := ih hrest h
    -- A table of another kind leaves this one as it is, and has no run in it.
    by_cases heq : s.kind = kind
    · subst heq
      obtain ⟨entries, htable₁, hcovers₁⟩ := covers_of_decode hkind hm₁ (hdata.trans hdata')
        fun hcode => (hrecords' hcode).trans (hrecords hcode)
      have hfilter : ofKind s.kind (s :: rest) = s :: ofKind s.kind rest := by simp [ofKind]
      refine ⟨entries :: runs, ?_, hfilter ▸ .cons hcovers₁ hcovers⟩
      rw [htable, htable₁, List.flatten_cons, List.append_assoc]
    · have hfilter : ofKind kind (s :: rest) = ofKind kind rest := by simp [ofKind, heq]
      refine ⟨runs, ?_, hfilter ▸ hcovers⟩
      rw [htable, (Format.Description.keeps_of_decode hm₁).table kind (Ne.symm heq)]

/-- The table of a kind in a decoded module comes from the tables of this kind in the file, in order. -/
theorem covers_of_readTables {d : Module} (hd : ∀ kind, d.table kind = []) (h : d.readTables = .ok m)
    (hkind : kind ≠ .main) (hdata : n.data = m.data) (hrecords : m.SameRecords n) :
    ∃ runs, m.table kind = runs.flatten ∧ List.Forall₂ (Covers n kind) (ofKind kind m.sections) runs := by
  obtain ⟨m₁, m₂, k, hm₁, -, hm₂, rfl⟩ := exists_of_readTables h
  have hdataSections := d.holdsCode_dataSections
  have hcodeSections := m₁.holdsCode_codeSections
  obtain ⟨hdata₂, -⟩ := kept_foldlM_decode hcodeSections hm₂
  have hrecords₂ : m₂.SameRecords n := { hrecords with }
  have hsections : m₂.sections = d.sections :=
    (sections_foldlM_decode hm₂).trans (sections_foldlM_decode hm₁)
  have htable : ({ m₂ with kind := k } : Module).table kind = m₂.table kind := by cases kind <;> rfl
  cases hcode : kind.holdsCode with
  | false =>
    -- The tables with code come later and are of other kinds.
    obtain ⟨runs, hruns, hcovers⟩ := covers_foldlM_decode (n := n) hkind (hcode ▸ hdataSections) hm₁
      (hdata.trans hdata₂) (by simp [hcode])
    have hlater : m₂.table kind = m₁.table kind :=
      table_foldlM_of_ne (fun s hs heq => by simp [← heq, hcodeSections s hs] at hcode) hm₂
    rw [ofKind_dataSections hcode, ← hsections] at hcovers
    exact ⟨runs, by rw [htable, hlater, hruns, hd, List.nil_append], hcovers⟩
  | true =>
    have hbefore : m₁.table kind = d.table kind :=
      table_foldlM_of_ne (fun s hs heq => by simp [← heq, hdataSections s hs] at hcode) hm₁
    obtain ⟨runs, hruns, hcovers⟩ := covers_foldlM_decode (n := n) hkind (hcode ▸ hcodeSections) hm₂
      hdata fun _ => hrecords₂
    rw [ofKind_codeSections hcode, ← sections_foldlM_decode hm₂] at hcovers
    exact ⟨runs, by rw [htable, hruns, hbefore, hd, List.nil_append], hcovers⟩

/-- The entries of a loaded module come from the tables of their kind in order. Those of each table stand
one behind the other from its first byte to its last, none of them empty, and each of them is read again
from its own bytes alone. -/
theorem loaded_contiguous {config : Config} {data : Bytes} (h : Loads config data m)
    (hkind : kind ≠ .main) : ∃ runs, m.table kind = runs.flatten ∧
      List.Forall₂ (Covers m kind) (ofKind kind m.sections) runs := by
  obtain ⟨n, hn, rfl⟩ := h.exists_decode
  obtain ⟨d, hd, hn⟩ := bind_eq_ok.mp hn
  obtain ⟨magic, sections, rfl, -⟩ := readDirectory_eq_ok hd
  have hempty : ∀ kind, (start data magic sections).table kind = [] := by
    intro kind
    cases kind <;> rfl
  obtain ⟨hfile, -⟩ := sameFile_layOut config n
  obtain ⟨runs, htable, hcovers⟩ :=
    covers_of_readTables hempty hn hkind hfile.data (sameRecords_layOut config n).symm
  refine ⟨runs, ?_, ?_⟩
  · rw [table_layOut, htable]
  · rw [hfile.sections]
    exact hcovers

/-- The two function definitions of the sample fill their table: its places are those of the definitions. -/
theorem poolSample_contiguous : ∃ m runs, load .standard poolSample = .ok m ∧
    ofKind .functionDefs m.sections = [⟨.functionDefs, 150, 16⟩] ∧
    (m.table .functionDefs).map (fun e => (e.file.start, e.file.size)) = [(150, 7), (157, 9)] ∧
    m.table .functionDefs = runs.flatten ∧
    List.Forall₂ (Covers m .functionDefs) (ofKind .functionDefs m.sections) runs := by
  have check : (load .standard poolSample).toOption.any (fun m =>
      decide (ofKind .functionDefs m.sections = [⟨.functionDefs, 150, 16⟩] ∧
        (m.table .functionDefs).map (fun e => (e.file.start, e.file.size)) = [(150, 7), (157, 9)])) =
        true := by
    decide +kernel
  obtain ⟨m, hload, hcheck⟩ := exists_of_any_toOption check
  obtain ⟨hsections, hfiles⟩ := of_decide_eq_true hcheck
  have hkind : TableKind.functionDefs ≠ .main := by decide
  obtain ⟨runs, hruns, hcovers⟩ := loaded_contiguous (.inl hload) hkind
  exact ⟨m, runs, hload, hsections, hfiles, hruns, hcovers⟩

end Module

end MoveBytecode
