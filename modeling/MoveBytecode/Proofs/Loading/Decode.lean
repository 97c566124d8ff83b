import MoveBytecode.Load.Basic
import MoveBytecode.Proofs.Loading.Records
import MoveBytecode.Proofs.Reading.Body

/-!
# What decoding leaves in a module

The tables without code only fill pools; the tables with code only add functions, each of which was
read by a frame of the module (`Module.HoldsEntry`). The references are checked in between, on the
records that the module keeps from then on, so that `Module.Decoded` has all of it: the checked
references, the functions, the lengths of the addresses and the numbers of the function handles. Whatever
every table keeps holds of a decoded module (`Module.decode_invariant`).
-/

namespace MoveBytecode

open Body (Sound Listed Accepted Scanned)

/-! ## Bodies -/

namespace Body.Frame

variable {f : Frame} {n : Module} {data : Bytes} {base : Nat}

/-- An instruction that is listed stays so in a module with the same records. -/
theorem listed_withOwner (h : f.owner.SameRecords n) {before : List Instruction} {i : Instruction}
    (hi : Listed f data base before i) : Listed { f with owner := n } data base before i where
  index := hi.index
  offset := hi.offset
  nonempty := hi.nonempty
  raw := hi.raw
  accepted := by
    refine ⟨hi.accepted.isSome, fun o ho => ?_⟩
    rw [checkOperand_withOwner h]
    exact hi.accepted.operand o ho
  depthBefore := hi.depthBefore
  effect := by
    rw [stackEffect_withOwner h]
    exact hi.effect

/-- A sound body stays so in a module with the same records. -/
theorem sound_withOwner (h : f.owner.SameRecords n) {is : List Instruction}
    (his : Sound f data base is) : Sound { f with owner := n } data base is where
  scanned before i after hsplit := listed_withOwner h (his.scanned before i after hsplit)
  balanced := his.balanced
  branch := his.branch
  noBranch := his.noBranch

end Body.Frame

namespace Module

/-- A function whose handle and locals exist, with a body that was read for them. -/
def HoldsBody (m : Module) (f : FunctionDef) : Prop :=
  ∃ frame, Body.frame m f.handle f.code.locals = .ok frame ∧
    Sound frame m.data f.code.start f.code.instructions

/-- A module with the same records and the same data holds the same bodies. -/
theorem HoldsBody.of_sameRecords {m n : Module} {f : FunctionDef} (h : m.HoldsBody f)
    (hrecords : m.SameRecords n) (hdata : m.data = n.data) : n.HoldsBody f := by
  obtain ⟨frame, hframe, hsound⟩ := h
  obtain ⟨rfl, hframe'⟩ := Body.frame_withOwner hrecords hframe
  exact ⟨_, hframe', hdata ▸ Body.Frame.sound_withOwner hrecords hsound⟩

/-- The functions of a module with their places: the definitions and the function of a script. -/
def functionEntries (m : Module) : List (Entry FunctionDef) :=
  m.functionDefs.toList ++ m.main.toList

/-- The functions of a module: the definitions and the function of a script. -/
def functions (m : Module) : List FunctionDef :=
  m.functionDefs.records ++ (m.main.map (·.record)).toList

/-- The functions of a module are the records of their entries. -/
theorem map_record_functionEntries (m : Module) :
    m.functionEntries.map (·.record) = m.functions := by
  rw [functionEntries, functions, List.map_append, Option.toList_map]
  rfl

/-- The functions with bodies are functions of the module, in the same order. -/
theorem internalFunctions_sublist (m : Module) : m.internalFunctions.Sublist m.functionEntries := by
  unfold internalFunctions functionEntries
  split
  · rename_i main hmain
    rw [hmain]
    exact List.sublist_append_right _ _
  · exact List.sublist_append_left _ _

/-- A function with a body is among the functions of the module. -/
theorem mem_functionEntries {m : Module} {f : Entry FunctionDef} (h : f ∈ m.internalFunctions) :
    f ∈ m.functionEntries :=
  m.internalFunctions_sublist.subset h

/-- The record of a function with a body is among the functions of the module. -/
theorem record_mem_functions {m : Module} {f : Entry FunctionDef} (h : f ∈ m.internalFunctions) :
    f.record ∈ m.functions := by
  rw [← map_record_functionEntries]
  exact List.mem_map_of_mem (mem_functionEntries h)

/-- A function as a read leaves it: with a body that was read for it, which ends where the record
does, within the data. -/
structure HoldsEntry (m : Module) (f : Entry FunctionDef) : Prop where
  body : m.HoldsBody f.record
  start : f.file.start ≤ f.record.code.start
  stop : f.file.stop = f.record.code.stop
  inside : f.record.code.stop ≤ m.data.size

/-- The addresses of a function do not matter. -/
theorem HoldsEntry.of_unmapped {m : Module} {e f : Entry FunctionDef} (h : m.HoldsEntry e)
    (hef : e.unmapped = f.unmapped) : m.HoldsEntry f := by
  have hfile : e.file = f.file := by rw [← e.file_unmapped, hef, f.file_unmapped]
  have hrecord : e.record = f.record := by rw [← e.record_unmapped, hef, f.record_unmapped]
  exact ⟨hrecord ▸ h.body, hfile ▸ hrecord ▸ h.start, hfile ▸ hrecord ▸ h.stop,
    hrecord ▸ h.inside⟩

/-- A module with the same records and the same data holds the same entries. -/
theorem HoldsEntry.of_sameRecords {m n : Module} {f : Entry FunctionDef} (h : m.HoldsEntry f)
    (hrecords : m.SameRecords n) (hdata : m.data = n.data) : n.HoldsEntry f :=
  { h with body := h.body.of_sameRecords hrecords hdata, inside := hdata ▸ h.inside }

end Module

namespace Table

variable {α : Type}

/-! ## Records -/

/-- What every record that is read and added keeps of a pool and a cursor, a pool that is filled
keeps. -/
theorem fill_keeps {read : Reader α} {Q : Pool α → Cursor → Prop}
    (hread : ∀ pool d a d', Q pool d → Runs read d a d' →
      Q (pool.add ⟨d.position, (d'.position - d.position : Nat)⟩ a) d')
    {fuel : Nat} {pool pool' : Pool α} {c c' : Cursor} (hQ : Q pool c)
    (h : Runs (fill read fuel pool) c pool' c') : Q pool' c' := by
  induction fuel generalizing pool c with
  | zero =>
    obtain ⟨rfl, rfl⟩ := runs_pure.mp h
    exact hQ
  | succ fuel ih =>
    simp only [fill, runs_bind, Reader.runs_atEnd] at h
    obtain ⟨_, _, ⟨rfl, rfl⟩, h⟩ := h
    split at h
    · obtain ⟨rfl, rfl⟩ := runs_pure.mp h
      exact hQ
    · simp only [runs_bind, Reader.runs_position] at h
      obtain ⟨_, _, ⟨rfl, rfl⟩, record, d, hrecord, _, _, ⟨rfl, rfl⟩, h⟩ := h
      exact ih (hread pool c record d hQ hrecord) h

/-- A table that is read into a pool is a pool that is filled. -/
theorem runs_of_readInto {read : Reader α} {pool pool' : Pool α} {c : Cursor}
    (h : readInto c read pool = .ok pool') :
    ∃ c', Runs (fill read c.available pool) c pool' c' :=
  ⟨((fill read c.available pool).runAt c).2, Prod.ext h rfl⟩

/-- A pool that has been filled has its former entries and further ones, each of which was read. -/
theorem mem_toList_of_readInto {read : Reader α} {pool pool' : Pool α} {c : Cursor}
    {P : Entry α → Prop}
    (hread : ∀ d a d', d.Inside → d.data = c.data → Runs read d a d' →
      (∀ n, P ⟨n, ⟨d.position, (d'.position - d.position : Nat)⟩, .unplaced, a⟩) ∧ d.Reaches d')
    (hc : c.Inside) (h : readInto c read pool = .ok pool') :
    ∀ e ∈ pool'.toList, e ∈ pool.toList ∨ P e := by
  obtain ⟨c', hrun⟩ := runs_of_readInto h
  -- The records are all read from the same data, within the window of the table.
  let Q (p : Pool α) (d : Cursor) : Prop :=
    d.Inside ∧ d.data = c.data ∧ ∀ e ∈ p.toList, e ∈ pool.toList ∨ P e
  have hkeep : Q pool' c' := by
    refine fill_keeps (Q := Q) ?_ ⟨hc, rfl, fun e he => .inl he⟩ hrun
    rintro p d a d' ⟨hd, hdata, hp⟩ ha
    obtain ⟨hP, hreach⟩ := hread d a d' hd hdata ha
    refine ⟨hreach.inside hd, hreach.data.trans hdata, fun e he => ?_⟩
    rw [Pool.toList_add, List.mem_append, List.mem_singleton] at he
    rcases he with he | rfl
    · exact hp e he
    · exact .inr (hP _)
  exact hkeep.2.2

/-- What is read into a pool holds of its new records. -/
theorem mem_of_readInto {read : Reader α} {pool pool' : Pool α} {c : Cursor} {P : α → Prop}
    (hread : ∀ d a d', d.Inside → d.data = c.data → Runs read d a d' → P a ∧ d.Reaches d')
    (hc : c.Inside) (h : readInto c read pool = .ok pool') :
    ∀ a ∈ pool'.records, a ∈ pool.records ∨ P a := by
  intro a ha
  obtain ⟨e, he, rfl⟩ := List.mem_map.mp ha
  have hentry := mem_toList_of_readInto (P := fun e => P e.record)
    (fun d a d' hd hdata hrun => (hread d a d' hd hdata hrun).imp_left fun hP _ => hP) hc h e he
  exact hentry.imp_left fun he => List.mem_map_of_mem he

/-- Records that are added are numbered on. -/
theorem indexed_of_readInto {read : Reader α} {pool pool' : Pool α} {c : Cursor}
    (hpool : pool.Indexed) (h : readInto c read pool = .ok pool') : pool'.Indexed := by
  obtain ⟨c', hrun⟩ := runs_of_readInto h
  exact fill_keeps (Q := fun p _ => p.Indexed) (fun p d a d' hp _ => hp.add _ a) hpool hrun

/-- An address that is read has its length. -/
theorem size_of_readAddress {c c' : Cursor} {a : Bytes} (hc : c.Inside)
    (h : Runs readAddress c a c') : a.size = addressLength := by
  obtain ⟨-, hstop, rfl, -⟩ := Reader.runs_bytes.mp h
  have := hc.2
  exact Body.size_window (by simp only [addressLength] at *; omega)

/-- What stands in front of a body is read number by number, and its handle and locals exist. -/
theorem runs_readFunctionHeader {m : Module} {c c' : Cursor} {h : FunctionHeader} :
    Runs (readFunctionHeader m) c h c' ↔ ∃ flags d1 d2 d3 d4,
      Runs Reader.varu16 c h.handle d1 ∧ Runs Reader.u8 d1 flags d2 ∧ flags.toNat = h.flags ∧
        Runs Reader.varu16 d2 h.maxStack d3 ∧ Runs Reader.varu16 d3 h.locals d4 ∧
        Runs Reader.u16 d4 h.count c' ∧ m.functionHandles.containsIndex h.handle = true ∧
        m.localSignatures.containsIndex h.locals = true := by
  simp only [readFunctionHeader, runs_bind]
  constructor
  · rintro ⟨handle, d1, h1, flags, d2, h2, maxStack, d3, h3, locals, d4, h4, count, d5, h5, h⟩
    split at h
    · simp [not_runs_throw] at h
    · rename_i hhandle
      split at h
      · simp [not_runs_throw] at h
      · rename_i hlocals
        obtain ⟨rfl, rfl⟩ := runs_pure.mp h
        exact ⟨flags, d1, d2, d3, d4, h1, h2, rfl, h3, h4, h5, by simpa using hhandle,
          by simpa using hlocals⟩
  · rintro ⟨flags, d1, d2, d3, d4, h1, h2, hflags, h3, h4, h5, hhandle, hlocals⟩
    refine ⟨_, d1, h1, flags, d2, h2, _, d3, h3, _, d4, h4, _, c', h5, ?_⟩
    simp [hhandle, hlocals, hflags]

/-- Reading the header of a function goes on within the data. -/
theorem advances_readFunctionHeader (m : Module) : (readFunctionHeader m).Advances := by
  intro c h c' hrun
  obtain ⟨flags, d1, d2, d3, d4, h1, h2, -, h3, h4, h5, -, -⟩ := runs_readFunctionHeader.mp hrun
  exact (Reader.advances_varu16 _ _ _ h1).trans <| (Reader.advances_u8 _ _ _ h2).trans <|
    (Reader.advances_varu16 _ _ _ h3).trans <| (Reader.advances_varu16 _ _ _ h4).trans <|
    Reader.advances_unsigned 2 _ _ _ h5

/-- A function that is read has the body that was read for it, up to the end of the record. -/
theorem holdsEntry_of_readFunction {m : Module} {c c' : Cursor} {f : FunctionDef} (hc : c.Inside)
    (hdata : c.data = m.data) (h : Runs (readFunction m) c f c') :
    (∀ n, m.HoldsEntry ⟨n, ⟨c.position, (c'.position - c.position : Nat)⟩, .unplaced, f⟩) ∧
      c.Reaches c' := by
  simp only [readFunction, runs_bind, Reader.runs_position, Reader.runs_ofExcept] at h
  obtain ⟨header, d, hheader, _, _, ⟨rfl, rfl⟩, frame, _, ⟨hframe, rfl⟩, is, e, his, h⟩ := h
  obtain ⟨rfl, rfl⟩ := runs_pure.mp h
  have hreach := advances_readFunctionHeader m _ _ _ hheader
  have hd := hreach.inside hc
  obtain ⟨hsound, -, rfl, hbody⟩ := Body.runs_read hd his
  rw [hreach.data, hdata] at hsound
  have hle := hreach.le
  have hend := hbody.inside hd
  refine ⟨fun n => ⟨⟨frame, hframe, hsound⟩, by simpa using hle, ?_, ?_⟩, hreach.trans hbody⟩
  · simp only [Extent.stop, CodeUnit.stop, CodeUnit.size, Cursor.moved_position]
    omega
  · simp only [CodeUnit.stop, CodeUnit.size]
    rw [← hdata, ← hreach.data]
    exact Nat.le_trans hend.1 hend.2

/-- The entry of a script holds the function that is read, over the bytes that reading it took. -/
theorem runs_readMain_iff {m : Module} {c c' : Cursor} {e : Entry FunctionDef} :
    Runs (readMain m) c e c' ↔ ∃ record, Runs (readFunction m) c record c' ∧
      e = ⟨0, ⟨c.position, (c'.position - c.position : Nat)⟩, .unplaced, record⟩ := by
  simp only [readMain, runs_bind, Reader.runs_position, runs_pure]
  constructor
  · rintro ⟨_, _, ⟨rfl, rfl⟩, record, _, hrecord, _, _, ⟨rfl, rfl⟩, rfl, rfl⟩
    exact ⟨record, hrecord, rfl⟩
  · rintro ⟨record, hrecord, rfl⟩
    exact ⟨_, _, ⟨rfl, rfl⟩, record, _, hrecord, _, _, ⟨rfl, rfl⟩, rfl, rfl⟩

/-! ## Tables -/

/-- What a table without code leaves alone. -/
theorem decode_data {m m' : Module} {s : Section} (hkind : s.kind.holdsCode = false)
    (h : decode m s = .ok m') :
    m'.data = m.data ∧ m'.functionDefs = m.functionDefs ∧ m'.main = m.main ∧
      (∀ a ∈ m'.addresses.records, a ∈ m.addresses.records ∨ a.size = addressLength) ∧
      (m.functionHandles.Indexed → m'.functionHandles.Indexed) := by
  obtain ⟨c, hc, h⟩ := bind_eq_ok.mp h
  obtain ⟨hinside, hdata, -⟩ := Cursor.inside_of_make hc
  have keep : ∀ a ∈ m.addresses.records, a ∈ m.addresses.records ∨ a.size = addressLength :=
    fun a ha => .inl ha
  cases hk : s.kind <;> simp only [hk, TableKind.holdsCode, Bool.true_eq_false] at hkind h
  case addressPool =>
    split at h
    · simp [bind_eq_ok] at h
    · obtain ⟨p, hp, h⟩ := bind_eq_ok.mp h
      obtain rfl := pure_eq_ok.mp h
      exact ⟨rfl, rfl, rfl, mem_of_readInto (fun d a d' hd _ hrun =>
        ⟨size_of_readAddress hd hrun, Reader.advances_bytes _ _ _ _ hrun⟩) hinside hp, id⟩
  case functionHandles =>
    obtain ⟨p, hp, h⟩ := bind_eq_ok.mp h
    obtain rfl := pure_eq_ok.mp h
    exact ⟨rfl, rfl, rfl, keep, fun hindexed => indexed_of_readInto hindexed hp⟩
  all_goals
    obtain ⟨p, hp, h⟩ := bind_eq_ok.mp h
    obtain rfl := pure_eq_ok.mp h
    exact ⟨rfl, rfl, rfl, keep, id⟩

/-- A table with code fills the pool of functions, or it gives the module its script. -/
theorem exists_of_decode_code {m m' : Module} {s : Section} (hkind : s.kind.holdsCode = true)
    (h : decode m s = .ok m') :
    ∃ c, cursor m s = .ok c ∧
      ((∃ p, readInto c (readFunction m) m.functionDefs = .ok p ∧ m' = { m with functionDefs := p }) ∨
        ∃ record c', Runs (readFunction m) c record c' ∧ m' = { m with
          main := some ⟨0, ⟨c.position, (c'.position - c.position : Nat)⟩, .unplaced, record⟩ }) := by
  obtain ⟨c, hc, h⟩ := bind_eq_ok.mp h
  refine ⟨c, hc, ?_⟩
  cases hk : s.kind <;> simp only [hk, TableKind.holdsCode, Bool.false_eq_true] at hkind h
  case functionDefs =>
    obtain ⟨p, hp, h⟩ := bind_eq_ok.mp h
    exact .inl ⟨p, hp, (pure_eq_ok.mp h).symm⟩
  case main =>
    split at h
    · simp [bind_eq_ok] at h
    · obtain ⟨e, he, h⟩ := bind_eq_ok.mp h
      obtain ⟨record, hrecord, rfl⟩ := runs_readMain_iff.mp (Prod.ext he rfl)
      exact .inr ⟨record, _, hrecord, (pure_eq_ok.mp h).symm⟩

/-- A table with code adds functions with bodies, and changes nothing else. -/
theorem decode_code {m m' : Module} {s : Section} (hkind : s.kind.holdsCode = true)
    (h : decode m s = .ok m') :
    m'.data = m.data ∧ m.SameRecords m' ∧
      (∀ f ∈ m'.functionEntries, f ∈ m.functionEntries ∨ m.HoldsEntry f) ∧
      (m.functionDefs.Indexed → m'.functionDefs.Indexed) := by
  obtain ⟨c, hc, ⟨p, hp, rfl⟩ | ⟨record, c', hrecord, rfl⟩⟩ := exists_of_decode_code hkind h
  all_goals obtain ⟨hinside, hdata, -⟩ := Cursor.inside_of_make hc
  · refine ⟨rfl, { Module.SameRecords.refl m with }, fun f hf => ?_,
      fun hindexed => indexed_of_readInto hindexed hp⟩
    rcases List.mem_append.mp hf with hf | hf
    · have hread : ∀ d a d', d.Inside → d.data = c.data → Runs (readFunction m) d a d' →
          (∀ n, m.HoldsEntry ⟨n, ⟨d.position, (d'.position - d.position : Nat)⟩, .unplaced, a⟩) ∧
            d.Reaches d' :=
        fun d a d' hd hdd hrun => holdsEntry_of_readFunction hd (hdd.trans hdata) hrun
      have hnew := mem_toList_of_readInto hread hinside hp f hf
      exact hnew.imp_left (List.mem_append_left _)
    · exact .inl (List.mem_append_right _ hf)
  · refine ⟨rfl, { Module.SameRecords.refl m with }, fun f hf => ?_, id⟩
    rcases List.mem_append.mp hf with hf | hf
    · exact .inl (List.mem_append_left _ hf)
    · obtain rfl : f = _ := by simpa using hf
      exact .inr ((holdsEntry_of_readFunction hinside hdata hrecord).1 0)

end Table

/-! ## The whole decoding -/

namespace Module

/-- A directory entry among the tables without code has a kind without code. -/
theorem holdsCode_dataSections (m : Module) : ∀ s ∈ m.dataSections, s.kind.holdsCode = false :=
  fun s hs => by simpa using (List.mem_filter.mp hs).2

/-- The directory entries for code are of kinds that hold code. -/
theorem holdsCode_codeSections (m : Module) : ∀ s ∈ m.codeSections, s.kind.holdsCode = true :=
  fun _ hs => (List.mem_filter.mp hs).2

/-- What all tables without code leave alone, the lengths of the addresses that they add, and the
numbers of the function handles. -/
theorem foldlM_decode_data {l : List Section} {m m' : Module}
    (hl : ∀ s ∈ l, s.kind.holdsCode = false) (h : l.foldlM Table.decode m = .ok m') :
    m'.data = m.data ∧ m'.functionDefs = m.functionDefs ∧ m'.main = m.main ∧
      (∀ a ∈ m'.addresses.records, a ∈ m.addresses.records ∨ a.size = Table.addressLength) ∧
      (m.functionHandles.Indexed → m'.functionHandles.Indexed) := by
  refine foldlM_invariant (I := fun n : Module => n.data = m.data ∧ n.functionDefs = m.functionDefs ∧
    n.main = m.main ∧
      (∀ a ∈ n.addresses.records, a ∈ m.addresses.records ∨ a.size = Table.addressLength) ∧
      (m.functionHandles.Indexed → n.functionHandles.Indexed))
    (fun s hs n o ho ⟨hdata, hdefs, hmain, haddresses, hindexed⟩ => ?_) h
    ⟨rfl, rfl, rfl, fun a ha => .inl ha, id⟩
  obtain ⟨hdata', hdefs', hmain', haddresses', hindexed'⟩ := Table.decode_data (hl s hs) ho
  refine ⟨hdata'.trans hdata, hdefs'.trans hdefs, hmain'.trans hmain, fun a ha => ?_,
    fun h => hindexed' (hindexed h)⟩
  rcases haddresses' a ha with ha | ha
  · exact haddresses a ha
  · exact .inr ha

/-- All tables with code add functions with bodies, and change nothing else. -/
theorem foldlM_decode_code {l : List Section} {m m' : Module}
    (hl : ∀ s ∈ l, s.kind.holdsCode = true) (h : l.foldlM Table.decode m = .ok m')
    (hm : ∀ f ∈ m.functionEntries, m.HoldsEntry f) (hindexed : m.functionDefs.Indexed) :
    m'.data = m.data ∧ m.SameRecords m' ∧ (∀ f ∈ m'.functionEntries, m'.HoldsEntry f) ∧
      m'.functionDefs.Indexed := by
  refine foldlM_invariant (I := fun n : Module => n.data = m.data ∧ m.SameRecords n ∧
    (∀ f ∈ n.functionEntries, n.HoldsEntry f) ∧ n.functionDefs.Indexed)
    (fun s hs n o ho ⟨hdata, hrecords, hentries, hdefs⟩ => ?_) h ⟨rfl, .refl _, hm, hindexed⟩
  obtain ⟨hdata', hrecords', hfunctions, hdefs'⟩ := Table.decode_code (hl s hs) ho
  refine ⟨hdata'.trans hdata, hrecords.trans hrecords', fun f hf => ?_, hdefs' hdefs⟩
  have hentry : n.HoldsEntry f := (hfunctions f hf).elim (hentries f) id
  exact hentry.of_sameRecords hrecords' hdata'.symm

/-- Resolving the kind of a module changes nothing but the kind. -/
theorem exists_of_resolveKind {m m' : Module} (h : m.resolveKind = .ok m') :
    ∃ kind, m' = { m with kind := kind } := by
  unfold resolveKind at h
  split at h
  · split at h
    · simp at h
    · exact ⟨_, (Except.ok.inj h).symm⟩
  · split at h
    · exact ⟨_, (Except.ok.inj h).symm⟩
    · exact ⟨_, (Except.ok.inj h).symm⟩

/-- The tables are those without code, whose references are checked, and then those with code. -/
theorem exists_of_readTables {m m' : Module} (h : m.readTables = .ok m') :
    ∃ (n o : Module) (kind : BinaryKind), m.dataSections.foldlM Table.decode m = .ok n ∧
      n.checkReferences = .ok () ∧ n.codeSections.foldlM Table.decode n = .ok o ∧
      m' = { o with kind := kind } := by
  obtain ⟨n, hn, h⟩ := bind_eq_ok.mp h
  obtain ⟨⟨⟩, hcheck, h⟩ := bind_eq_ok.mp h
  obtain ⟨o, ho, h⟩ := bind_eq_ok.mp h
  obtain ⟨kind, rfl⟩ := exists_of_resolveKind h
  exact ⟨n, o, kind, hn, hcheck, ho, rfl⟩

/-- A directory that was read leaves a module without records. -/
theorem exists_of_readDirectory {data : Bytes} {m : Module} (h : readDirectory data = .ok m) :
    ∃ magic sections, m = start data magic sections := by
  obtain ⟨magic, -, h⟩ := bind_eq_ok.mp h
  obtain ⟨_, -, h⟩ := bind_eq_ok.mp h
  obtain ⟨sections, -, h⟩ := bind_eq_ok.mp h
  exact ⟨magic, sections, (pure_eq_ok.mp h).symm⟩

/-- What holds of a module without tables, whose kind does not matter, and what each table keeps, holds
of a decoded module. -/
theorem decode_invariant {I : Module → Prop} {data : Bytes} {m : Module}
    (hstart : ∀ magic sections, I (start data magic sections))
    (hstep : ∀ s n o, Table.decode n s = .ok o → I n → I o)
    (hkind : ∀ n kind, I n → I { n with kind := kind }) (h : decode data = .ok m) : I m := by
  obtain ⟨d, hd, h⟩ := bind_eq_ok.mp h
  obtain ⟨magic, sections, rfl⟩ := exists_of_readDirectory hd
  obtain ⟨n, o, kind, hn, -, ho, rfl⟩ := exists_of_readTables h
  have hdata : I n := foldlM_invariant (fun s _ => hstep s) hn (hstart magic sections)
  exact hkind o kind (foldlM_invariant (fun s _ => hstep s) ho hdata)

/-- What decoding leaves: records whose references were checked, addresses of their length, handles and
definitions of functions with their positions as numbers, and functions with bodies. -/
structure Decoded (m : Module) : Prop where
  checked : ∃ n : Module, n.checkReferences = .ok () ∧ n.SameRecords m
  addresses : ∀ a ∈ m.addresses.records, a.size = Table.addressLength
  handles : m.functionHandles.Indexed
  definitions : m.functionDefs.Indexed
  entries : ∀ f ∈ m.functionEntries, m.HoldsEntry f

/-- The functions of a decoded module have bodies that were read for them. -/
theorem Decoded.bodies {m : Module} (h : m.Decoded) : ∀ f ∈ m.functions, m.HoldsBody f := by
  intro f hf
  rw [← map_record_functionEntries] at hf
  obtain ⟨e, he, rfl⟩ := List.mem_map.mp hf
  exact (h.entries e he).body

/-- Reading the tables of an empty module leaves it decoded, with the same data. -/
theorem decoded_of_readTables {m m' : Module} (haddresses : m.addresses.records = [])
    (hhandles : m.functionHandles.Indexed) (hdefinitions : m.functionDefs.Indexed)
    (hfunctions : m.functionEntries = []) (h : m.readTables = .ok m') : m'.Decoded ∧ m'.data = m.data := by
  obtain ⟨n, o, kind, hn, hcheck, ho, rfl⟩ := exists_of_readTables h
  obtain ⟨hdata, hdefs, hmain, hlength, hindexed⟩ := foldlM_decode_data m.holdsCode_dataSections hn
  -- The functions are those that the second round has read, in the module that was checked.
  have hnone : n.functionEntries = [] := by
    rw [functionEntries, hdefs, hmain]
    exact hfunctions
  obtain ⟨hdata', hrecords, hentries, hdefinitions'⟩ :=
    foldlM_decode_code n.holdsCode_codeSections ho (by simp [hnone]) (hdefs ▸ hdefinitions)
  have hsize : ∀ a ∈ o.addresses.records, a.size = Table.addressLength := by
    intro a ha
    rw [← hrecords.addresses.records] at ha
    rcases hlength a ha with ha | ha
    · simp [haddresses] at ha
    · exact ha
  -- Giving the module its kind changes no record.
  exact ⟨⟨⟨n, hcheck, { hrecords with }⟩, hsize, hrecords.functionHandles.indexed (hindexed hhandles),
    hdefinitions', fun f hf => (hentries f hf).of_sameRecords { SameRecords.refl o with } rfl⟩,
    hdata'.trans hdata⟩

/-- A layout changes nothing of the functions of a module but their addresses. -/
theorem same_functionDefs_layOut (config : Config) (m : Module) :
    (m.layOut config).1.functionDefs.Same m.functionDefs := by
  suffices h : ∀ n : Module, (n.mapFunctions config.codeBase).1.functionDefs.Same n.functionDefs from
    h (m.mapData config.dataBase).1
  intro n
  unfold mapFunctions
  split
  · exact .refl _
  · exact Pool.same_mapFrom (·.code.size) config.codeBase n.functionDefs

/-- Laying a module out changes nothing of the function of a script but its mapping. -/
theorem unmapped_main_layOut (config : Config) (m : Module) :
    (m.layOut config).1.main.map Entry.unmapped = m.main.map Entry.unmapped := by
  suffices h : ∀ n : Module, (n.mapFunctions config.codeBase).1.main.map Entry.unmapped =
      n.main.map Entry.unmapped from h (m.mapData config.dataBase).1
  intro n
  cases hn : n.main with
  | some main => simp [mapFunctions, hn, Entry.unmapped]
  | none => simp [mapFunctions, hn]

/-- Laying a module out changes nothing of its functions but their mappings. -/
theorem unmapped_functionEntries_layOut (config : Config) (m : Module) :
    (m.layOut config).1.functionEntries.map Entry.unmapped =
      m.functionEntries.map Entry.unmapped := by
  rw [functionEntries, functionEntries, List.map_append, List.map_append, ← Option.toList_map,
    ← Option.toList_map, unmapped_main_layOut]
  exact congrArg (· ++ _) (same_functionDefs_layOut config m).2

/-- A layout keeps what decoding leaves. -/
theorem Decoded.layOut {m : Module} (h : m.Decoded) (config : Config) :
    (m.layOut config).1.Decoded := by
  have hrecords := sameRecords_layOut config m
  obtain ⟨n, hcheck, hn⟩ := h.checked
  refine ⟨⟨n, hcheck, hn.trans hrecords.symm⟩, fun a ha => ?_,
    hrecords.symm.functionHandles.indexed h.handles,
    (same_functionDefs_layOut config m).symm.indexed h.definitions, fun f hf => ?_⟩
  · rw [hrecords.addresses.records] at ha
    exact h.addresses a ha
  · have hmem := List.mem_map_of_mem (f := Entry.unmapped) hf
    rw [unmapped_functionEntries_layOut] at hmem
    obtain ⟨e, he, hef⟩ := List.mem_map.mp hmem
    exact ((h.entries e he).of_unmapped hef).of_sameRecords hrecords.symm
      (data_layOut config m).symm

/-- What was decoded from data is decoded, and keeps the data. -/
theorem decoded_of_decode {data : Bytes} {m : Module} (h : decode data = .ok m) :
    m.Decoded ∧ m.data = data := by
  obtain ⟨d, hd, h⟩ := bind_eq_ok.mp h
  obtain ⟨magic, sections, rfl⟩ := exists_of_readDirectory hd
  exact decoded_of_readTables rfl (Pool.indexed_empty _) (Pool.indexed_empty _) rfl h

/-- The modules that a load may yield, alone or together with a host. -/
def Loads (config : Config) (data : Bytes) (m : Module) : Prop :=
  load config data = .ok m ∨ ∃ h h', loadInto config data h = .ok (m, h')

/-- A loaded module is the layout of a module that was decoded. -/
theorem Loads.exists_decode {config : Config} {data : Bytes} {m : Module}
    (h : Loads config data m) : ∃ n, decode data = .ok n ∧ m = (n.layOut config).1 := by
  rcases h with h | ⟨host, host', h⟩
  · obtain ⟨n, hn, h⟩ := bind_eq_ok.mp h
    obtain ⟨_, -, h⟩ := bind_eq_ok.mp h
    exact ⟨n, hn, (pure_eq_ok.mp h).symm⟩
  · obtain ⟨n, hn, h⟩ := bind_eq_ok.mp h
    obtain ⟨_, -, h⟩ := bind_eq_ok.mp h
    obtain ⟨_, -, h⟩ := bind_eq_ok.mp h
    exact ⟨n, hn, (congrArg Prod.fst (pure_eq_ok.mp h)).symm⟩

/-- What was loaded from data is decoded, and keeps the data. -/
theorem Loads.decoded {config : Config} {data : Bytes} {m : Module} (h : Loads config data m) :
    m.Decoded ∧ m.data = data := by
  obtain ⟨n, hn, rfl⟩ := h.exists_decode
  obtain ⟨hdecoded, hdata⟩ := decoded_of_decode hn
  exact ⟨hdecoded.layOut config, (data_layOut config n).trans hdata⟩

end Module

end MoveBytecode
