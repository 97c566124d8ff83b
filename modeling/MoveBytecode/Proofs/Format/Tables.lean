import MoveBytecode.Proofs.Format.Bodies

/-!
# Reading the tables of a description

A table is read by filling a pool until its window is used up, so that records one behind the other leave
entries one behind the other (`Table.runs_fill_bytes`). Reading one table settles it and leaves all others
alone (`Description.decode_section`, `Description.keeps_of_decode`); going through the directory, in
whichever order, settles them all (`Description.Settled.foldlM_decode`).
-/

namespace MoveBytecode

open Format Reader

/-- The records of a table are read from their bytes, of which each has at least one. -/
structure Format.Description.Reads (d : Description) (m : Module) (kind : TableKind) : Prop where
  runs : ∀ item ∈ d.items kind, ∀ s : Cursor, s.Faces (recordBytes kind item) →
    Runs (Table.reader m kind) s (d.record s.position kind item)
      (s.moved (recordBytes kind item).length)
  nonempty : ∀ item ∈ d.items kind, recordBytes kind item ≠ []

namespace Table

/-- Records one behind the other are read into entries one behind the other, behind those that the pool
has. -/
theorem runs_fill_bytes {d : Description} {kind : TableKind}
    {read : Reader (Contents FunctionDef kind)} {items : List (Contents Procedure kind)}
    (hread : ∀ item ∈ items, ∀ s : Cursor, s.Faces (recordBytes kind item) →
      Runs read s (d.record s.position kind item) (s.moved (recordBytes kind item).length))
    (hne : ∀ item ∈ items, recordBytes kind item ≠ []) {fuel : Nat}
    (pool : Pool (Contents FunctionDef kind)) {s : Cursor}
    (hs : s.Faces (items.flatMap (recordBytes kind)))
    (hend : s.stop = s.position + (items.flatMap (recordBytes kind)).length)
    (hfuel : (items.flatMap (recordBytes kind)).length ≤ fuel) :
    ∃ pool' s', Runs (fill read fuel pool) s pool' s' ∧
      pool'.unmapped = pool.unmapped ++ d.entries kind pool.size s.position items := by
  -- The fuel counts bytes, of which every record uses up at least one.
  induction items generalizing fuel pool s with
  | nil =>
    refine ⟨pool, s, ?_, by simp [Description.entries]⟩
    have hatEnd : s.atEnd = true := by
      simp only [List.flatMap_nil, List.length_nil, Nat.add_zero] at hend
      simp [Cursor.atEnd, hend]
    cases fuel with
    | zero => exact runs_pure.mpr ⟨rfl, rfl⟩
    | succ fuel =>
      refine runs_bind.mpr ⟨true, s, runs_atEnd.mpr ⟨hatEnd, rfl⟩, ?_⟩
      exact runs_pure.mpr ⟨rfl, rfl⟩
  | cons item rest ih =>
    rw [List.flatMap_cons] at hs hend hfuel
    rw [List.length_append] at hend hfuel
    have hpos : 0 < (recordBytes kind item).length :=
      List.length_pos_iff.mpr (hne item List.mem_cons_self)
    obtain ⟨hfirst, hrest⟩ := hs.append
    have hrecord := hread item List.mem_cons_self s hfirst
    obtain ⟨fuel, rfl⟩ : ∃ n, fuel = n + 1 := ⟨fuel - 1, by omega⟩
    have hatEnd : s.atEnd = false := by
      simp only [Cursor.atEnd, decide_eq_false_iff_not]
      omega
    -- Behind the record the window is as long as the bytes of the rest.
    have hend' : (s.moved (recordBytes kind item).length).stop =
        (s.moved (recordBytes kind item).length).position +
          (rest.flatMap (recordBytes kind)).length := by
      rw [Cursor.moved_stop, Cursor.moved_position]
      omega
    obtain ⟨pool', s', hfill, hentries⟩ := ih (fun i hi => hread i (List.mem_cons_of_mem _ hi))
      (fun i hi => hne i (List.mem_cons_of_mem _ hi))
      (pool.add ⟨s.position, (recordBytes kind item).length⟩ (d.record s.position kind item))
      hrest hend' (show _ ≤ fuel by omega)
    refine ⟨pool', s', ?_, ?_⟩
    · simp only [fill, runs_bind, runs_atEnd]
      refine ⟨_, _, ⟨rfl, rfl⟩, ?_⟩
      rw [hatEnd]
      simp only [Bool.false_eq_true, if_false, runs_bind, runs_position]
      refine ⟨_, _, ⟨rfl, rfl⟩, _, _, hrecord, _, _, ⟨rfl, rfl⟩, ?_⟩
      rwa [Cursor.moved_position, Nat.add_sub_cancel_left]
    · rw [hentries]
      simp [Pool.unmapped, Description.entries, Entry.unmapped]

/-- A table that fits its window fills an empty pool. -/
theorem readInto_bytes {d : Description} {m : Module} {kind : TableKind} (hreads : d.Reads m kind)
    {pool : Pool (Contents FunctionDef kind)} (hpool : pool.unmapped = []) {s : Cursor}
    (hs : s.Faces (d.table kind)) (hend : s.stop = s.position + (d.table kind).length) :
    ∃ pool', readInto s (reader m kind) pool = .ok pool' ∧
      pool'.unmapped = d.entries kind 0 s.position (d.items kind) := by
  have hfuel : (d.table kind).length ≤ s.available := by
    simp only [Cursor.available]
    omega
  have hsize : pool.size = 0 := by
    have := congrArg List.length hpool
    simpa [Pool.unmapped, Pool.toList, Pool.size] using this
  obtain ⟨pool', s', hrun, hentries⟩ :=
    runs_fill_bytes hreads.runs hreads.nonempty pool hs hend hfuel
  refine ⟨pool', congrArg Prod.fst (runs_iff_runAt.mp hrun), ?_⟩
  rw [hentries, hpool, hsize, List.nil_append]

/-- The window of a table that lies within the file. -/
theorem cursor_eq {m : Module} {s : Section} (h : s.offset + s.size ≤ m.data.size) :
    cursor m s = .ok ⟨m.data, s.offset, s.offset, s.offset + s.size⟩ := by
  unfold cursor Cursor.make
  rw [if_neg]
  · rfl
  · simp only [Option.getD_some]
    omega

end Table

namespace Format.Description

variable {d : Description} {m : Module}

/-- A table that stands where a directory entry says. -/
structure Placed (d : Description) (data : Bytes) (s : Section) : Prop where
  inside : s.offset + s.size ≤ data.size
  bytes : (data.window s.offset s.size).toList = d.table s.kind
  nonempty : d.items s.kind ≠ []

/-- The bytes of a placed table are as many as its directory entry says. -/
theorem Placed.length {data : Bytes} {s : Section} (h : d.Placed data s) :
    (d.table s.kind).length = s.size := by
  rw [← h.bytes, Array.length_toList]
  exact Body.size_window h.inside

/-- The window of a table holds its bytes. -/
theorem Placed.faces {data : Bytes} {s : Section} (h : d.Placed data s) :
    (⟨data, s.offset, s.offset, s.offset + s.size⟩ : Cursor).Faces (d.table s.kind) := by
  refine ⟨?_, h.inside, ?_⟩
  · exact Nat.le_of_eq (congrArg (s.offset + ·) h.length)
  · rw [← h.bytes, Bytes.window, Array.toList_extract, List.extract_eq_take_drop]
    exact List.take_prefix _ _

/-- A module that differs from another in one table at most. -/
structure Keeps (m m' : Module) (kind : TableKind) : Prop where
  data : m'.data = m.data
  magic : m'.magic = m.magic
  sections : m'.sections = m.sections
  table : ∀ k, k ≠ kind → m'.table k = m.table k

/-- The addresses of a well-formed description fill their table evenly. -/
theorem WellFormed.length_addresses (hd : d.WellFormed) :
    (d.table .addressPool).length % Table.addressLength = 0 := by
  have hlength : ∀ item ∈ d.items .addressPool,
      (recordBytes .addressPool item).length = Table.addressLength :=
    fun item hitem => hd.items .addressPool item hitem
  rw [table, List.length_flatMap, List.map_congr_left hlength]
  simp

/-- Reading a table changes nothing else. -/
theorem keeps_of_decode {m' : Module} {s : Section} (h : Table.decode m s = .ok m') :
    Keeps m m' s.kind := by
  obtain ⟨c, -, h⟩ := bind_eq_ok.mp h
  cases hkind : s.kind <;> simp only [hkind] at h
  case addressPool =>
    split at h
    · simp [bind_eq_ok] at h
    · obtain ⟨pool, -, h⟩ := bind_eq_ok.mp h
      obtain rfl := pure_eq_ok.mp h
      exact ⟨rfl, rfl, rfl, fun k hk => by cases k <;> first | rfl | exact absurd rfl hk⟩
  case main =>
    split at h
    · simp [bind_eq_ok] at h
    · obtain ⟨e, -, h⟩ := bind_eq_ok.mp h
      obtain rfl := pure_eq_ok.mp h
      exact ⟨rfl, rfl, rfl, fun k hk => by cases k <;> first | rfl | exact absurd rfl hk⟩
  all_goals
    obtain ⟨pool, -, h⟩ := bind_eq_ok.mp h
    obtain rfl := pure_eq_ok.mp h
    exact ⟨rfl, rfl, rfl, fun k hk => by cases k <;> first | rfl | exact absurd rfl hk⟩

/-- The one record of the main table is the main procedure. -/
theorem items_main {p : Procedure} (hp : d.code = .main p) : d.items .main = [p] := by
  rw [items, hp]
  rfl

/-- A description with a record in the main table is that of a script. -/
theorem exists_main (h : d.items .main ≠ []) : ∃ p, d.code = .main p := by
  cases hcode : d.code with
  | functions definitions =>
    refine absurd ?_ h
    rw [items, hcode]
    rfl
  | main p => exact ⟨p, rfl⟩

/-- Reading the function of a script leaves its entry. -/
theorem runs_readMain {p : Procedure} (hreads : d.Reads m .main) (hp : d.code = .main p)
    {s : Cursor} (hs : s.Faces p.bytes) :
    Runs (Table.readMain m) s
      ⟨0, ⟨s.position, p.bytes.length⟩, .unplaced, d.function p s.position⟩
      (s.moved p.bytes.length) := by
  have hmem : p ∈ d.items .main := by
    rw [items_main hp]
    exact List.mem_cons_self
  have hrun : Runs (Table.readFunction m) s (d.function p s.position) (s.moved p.bytes.length) :=
    hreads.runs p hmem s hs
  refine Table.runs_readMain_iff.mpr ⟨_, hrun, ?_⟩
  rw [Cursor.moved_position, Nat.add_sub_cancel_left]

/-- Reading the table of a script settles it. -/
theorem decode_main {offset size : Nat} (hplaced : d.Placed m.data ⟨.main, offset, size⟩)
    (hreads : d.Reads m .main) (hblank : m.table .main = []) :
    ∃ m', Table.decode m ⟨.main, offset, size⟩ = .ok m' ∧
      m'.table .main = d.entries .main 0 offset (d.items .main) := by
  have hnone : m.main = none := by
    have hentry : (m.main.map Entry.unmapped).toList = [] := hblank
    simpa using hentry
  obtain ⟨p, hp⟩ := exists_main hplaced.nonempty
  have htable : d.table .main = p.bytes := by
    rw [table, items_main hp]
    exact List.append_nil p.bytes
  have hfaces := hplaced.faces
  simp only [htable] at hfaces
  have hrun := runs_readMain hreads hp hfaces
  refine ⟨{ m with main := some ⟨0, ⟨offset, p.bytes.length⟩, .unplaced, d.function p offset⟩ },
    bind_eq_ok.mpr ⟨_, Table.cursor_eq hplaced.inside, ?_⟩, ?_⟩
  · simp only [hnone, Option.isSome_none, Bool.false_eq_true, if_false]
    exact bind_eq_ok.mpr ⟨_, congrArg Prod.fst (runs_iff_runAt.mp hrun), rfl⟩
  · rw [items_main hp]
    rfl

/-- Reading a table that has not been read settles it. -/
theorem decode_section (hd : d.WellFormed) {s : Section} (hplaced : d.Placed m.data s)
    (hreads : d.Reads m s.kind) (hblank : m.table s.kind = []) :
    ∃ m', Table.decode m s = .ok m' ∧
      m'.table s.kind = d.entries s.kind 0 s.offset (d.items s.kind) := by
  obtain ⟨kind, offset, size⟩ := s
  have hcursor := Table.cursor_eq hplaced.inside
  have hend : offset + size = offset + (d.table kind).length := by rw [hplaced.length]
  have fill : ∀ pool : Pool (Contents FunctionDef kind), pool.unmapped = [] →
      ∃ pool', Table.readInto ⟨m.data, offset, offset, offset + size⟩ (Table.reader m kind) pool =
        .ok pool' ∧ pool'.unmapped = d.entries kind 0 offset (d.items kind) :=
    fun pool hpool => Table.readInto_bytes hreads hpool hplaced.faces hend
  cases kind with
  | moduleHandles | structHandles | functionHandles | stringPool | bytearrayPool | structDefs
  | fieldDefs | typeSignatures | functionSignatures | localSignatures | functionDefs =>
    obtain ⟨pool, hpool, hentries⟩ := fill _ hblank
    exact ⟨_, bind_eq_ok.mpr ⟨_, hcursor, bind_eq_ok.mpr ⟨pool, hpool, rfl⟩⟩, hentries⟩
  | addressPool =>
    obtain ⟨pool, hpool, hentries⟩ := fill m.addresses hblank
    -- Addresses stand without lengths, so that the size of the table is checked first.
    have hsize : size % Table.addressLength = 0 := by
      have hlength : (d.table .addressPool).length = size := hplaced.length
      rw [← hlength]
      exact hd.length_addresses
    refine ⟨{ m with addresses := pool }, bind_eq_ok.mpr ⟨_, hcursor, ?_⟩, hentries⟩
    simp only [Cursor.available, Nat.add_sub_cancel_left, hsize, ne_eq, not_true_eq_false, if_false]
    exact bind_eq_ok.mpr ⟨pool, hpool, rfl⟩
  | main => exact decode_main hplaced hreads hblank

/-! ## All tables -/

/-- A module in which the tables of some kinds have been read, and no others. -/
structure Settled (d : Description) (sections : List Section) (done : List TableKind) (m : Module) :
    Prop where
  read : ∀ kind ∈ done, m.table kind = d.entries kind 0 (startOf sections kind) (d.items kind)
  unread : ∀ kind, kind ∉ done → m.table kind = []

/-- A module that comes from the same binary. -/
structure SameFile (m m' : Module) : Prop where
  data : m'.data = m.data
  magic : m'.magic = m.magic
  sections : m'.sections = m.sections

/-- Modules that come from one binary step by step come from one binary. -/
theorem SameFile.trans {m m' m'' : Module} (h : SameFile m m') (k : SameFile m' m'') :
    SameFile m m'' :=
  ⟨k.data.trans h.data, k.magic.trans h.magic, k.sections.trans h.sections⟩

/-- One more table is settled by reading it. -/
theorem Settled.decode (hd : d.WellFormed) {sections : List Section} {done : List TableKind}
    (hm : d.Settled sections done m) {s : Section} (hplaced : d.Placed m.data s)
    (hstart : startOf sections s.kind = s.offset) (hreads : d.Reads m s.kind)
    (hnew : s.kind ∉ done) :
    ∃ m', Table.decode m s = .ok m' ∧ d.Settled sections (done ++ [s.kind]) m' ∧ SameFile m m' := by
  obtain ⟨m', hdecode, htable⟩ := decode_section hd hplaced hreads (hm.unread s.kind hnew)
  have hkeeps := keeps_of_decode hdecode
  refine ⟨m', hdecode, ⟨fun kind hkind => ?_, fun kind hkind => ?_⟩, hkeeps.data, hkeeps.magic,
    hkeeps.sections⟩
  · by_cases heq : kind = s.kind
    · subst heq
      rw [htable, hstart]
    · have hdone : kind ∈ done := by simpa [heq] using hkind
      rw [hkeeps.table kind heq, hm.read kind hdone]
  · rw [List.mem_append, List.mem_singleton, not_or] at hkind
    rw [hkeeps.table kind hkind.2, hm.unread kind hkind.1]

/-- Reading tables of different kinds settles them all, in whichever order they are read. -/
theorem Settled.foldlM_decode (hd : d.WellFormed) {sections l : List Section}
    {done : List TableKind} (hm : d.Settled sections done m)
    (hplaced : ∀ s ∈ l, d.Placed m.data s) (hstart : ∀ s ∈ l, startOf sections s.kind = s.offset)
    (hreads : ∀ s ∈ l, ∀ (more : List TableKind) (n : Module), done ⊆ more →
      d.Settled sections more n → d.Reads n s.kind)
    (hnodup : (l.map (·.kind)).Nodup) (hnew : ∀ s ∈ l, s.kind ∉ done) :
    ∃ m', l.foldlM Table.decode m = .ok m' ∧
      d.Settled sections (done ++ l.map (·.kind)) m' ∧ SameFile m m' := by
  induction l generalizing m done with
  | nil => exact ⟨m, rfl, by simpa using hm, rfl, rfl, rfl⟩
  | cons s rest ih =>
    rw [List.map_cons, List.nodup_cons] at hnodup
    have hmem : ∀ t ∈ rest, t ∈ s :: rest := fun t ht => List.mem_cons_of_mem _ ht
    obtain ⟨n, hdecode, hn, hfile⟩ := hm.decode hd (hplaced s List.mem_cons_self)
      (hstart s List.mem_cons_self) (hreads s List.mem_cons_self done m (fun _ h => h) hm)
      (hnew s List.mem_cons_self)
    have hnew' : ∀ t ∈ rest, t.kind ∉ done ++ [s.kind] := by
      intro t ht hdone
      rcases List.mem_append.mp hdone with hdone | hdone
      · exact hnew t (hmem t ht) hdone
      · rw [← List.mem_singleton.mp hdone] at hnodup
        exact hnodup.1 (List.mem_map_of_mem ht)
    -- What a table needs of the others to be read stays when more of them are settled.
    have hreads' : ∀ t ∈ rest, ∀ (more : List TableKind) (o : Module), done ++ [s.kind] ⊆ more →
        d.Settled sections more o → d.Reads o t.kind :=
      fun t ht more o hsub ho =>
        hreads t (hmem t ht) more o (fun _ h => hsub (List.mem_append_left _ h)) ho
    obtain ⟨m', hfold, hm', hfile'⟩ := ih hn
      (fun t ht => hfile.data ▸ hplaced t (hmem t ht)) (fun t ht => hstart t (hmem t ht)) hreads'
      hnodup.2 hnew'
    refine ⟨m', ?_, ?_, hfile.trans hfile'⟩
    · rw [List.foldlM_cons]
      exact bind_eq_ok.mpr ⟨n, hdecode, hfold⟩
    · rwa [List.append_assoc] at hm'

/-- The records of the tables without code are read in any module. -/
theorem reads_data (hd : d.WellFormed) (hfits : d.Fits) (m : Module) {kind : TableKind}
    (hkind : kind.holdsCode = false) : d.Reads m kind := by
  have hrecord := fun (start : Nat) item (hitem : item ∈ d.items kind) =>
    parses_recordBytes m start hkind (hd.items kind item hitem) (hfits kind item hitem)
  refine ⟨fun item hitem s hs => ?_, fun item hitem => (hrecord 0 item hitem).2⟩
  exact (hrecord s.position item hitem).1 s hs

/-- The functions are read in a module that has the other tables. -/
theorem reads_code (hd : d.WellFormed) (hfits : d.Fits) (hm : d.Filled m) {kind : TableKind}
    (hkind : kind.holdsCode = true) : d.Reads m kind := by
  have nonempty : ∀ p : Procedure, p.bytes ≠ [] := by
    intro p
    simp [Procedure.bytes, Procedure.head, encodeUleb128_ne_nil]
  cases kind with
  | functionDefs | main =>
    refine ⟨fun p hp s hs => ?_, fun p _ => nonempty p⟩
    exact runs_readFunction hd hm (hd.items _ p hp) (hfits _ p hp) hs
  | _ => simp [TableKind.holdsCode] at hkind

end Format.Description

end MoveBytecode
