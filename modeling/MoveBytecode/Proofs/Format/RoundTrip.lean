import MoveBytecode.Proofs.Format.Front
import MoveBytecode.Proofs.Format.Tables

/-!
# Loading undoes encoding

A binary of a well-formed description whose numbers fit their fields is loaded, and the module holds
what the description says (`Description.load_describes`): the directory is read back, the tables without
code are settled in the order of the directory, their references resolve, and the tables with code are
settled on top of them. The layout afterwards changes addresses only.

Without the bound on the numbers this fails, and not because of any reference: a description may have
so many strings that the number of one of them is refused where it is read.
-/

namespace MoveBytecode

open Format

/-! ## The layout -/

namespace Module

/-- A layout keeps all tables, addresses apart. -/
theorem table_layOut (config : Config) (m : Module) (kind : TableKind) :
    (m.layOut config).1.table kind = m.table kind := by
  have hrecords := sameRecords_layOut config m
  have hfunctions : ∀ (n : Module) (base : Int),
      (n.mapFunctions base).1.functionDefs.unmapped = n.functionDefs.unmapped ∧
        (n.mapFunctions base).1.main.map Entry.unmapped = n.main.map Entry.unmapped := by
    intro n base
    cases hmain : n.main with
    | some main =>
      simp only [mapFunctions, hmain]
      exact ⟨trivial, rfl⟩
    | none =>
      simp only [mapFunctions, hmain]
      exact ⟨(Pool.same_mapFrom (·.code.size) base n.functionDefs).2, trivial⟩
  obtain ⟨hdefs, hmain⟩ := hfunctions (m.mapData config.dataBase).1 config.codeBase
  cases kind with
  | moduleHandles => exact hrecords.moduleHandles.2
  | structHandles => exact hrecords.structHandles.2
  | functionHandles => exact hrecords.functionHandles.2
  | addressPool => exact hrecords.addresses.2
  | stringPool => exact hrecords.strings.2
  | bytearrayPool => exact hrecords.bytearrays.2
  | structDefs => exact hrecords.structDefs.2
  | fieldDefs => exact hrecords.fieldDefs.2
  | typeSignatures => exact hrecords.typeSignatures.2
  | functionSignatures => exact hrecords.functionSignatures.2
  | localSignatures => exact hrecords.localSignatures.2
  | functionDefs => exact hdefs
  | main => exact congrArg Option.toList hmain

/-- A module that has been laid out comes from the same binary and is of the same kind. -/
theorem sameFile_layOut (config : Config) (m : Module) :
    Description.SameFile m (m.layOut config).1 ∧ (m.layOut config).1.kind = m.kind := by
  simp only [layOut, mapImports, mapHandles, mapFunctions, mapData]
  split
  · exact ⟨⟨rfl, rfl, rfl⟩, rfl⟩
  · exact ⟨⟨rfl, rfl, rfl⟩, rfl⟩

/-! ## The two rounds -/

/-- The directory entries that are read in the first round are those of the tables without code. -/
theorem dataSections_eq (m : Module) :
    m.dataSections = m.sections.filter (·.kind.holdsCode == false) := by
  rw [dataSections]
  congr 1
  funext s
  cases s.kind.holdsCode <;> rfl

/-- The directory entries that are read in the second round are those of the tables with code. -/
theorem codeSections_eq (m : Module) :
    m.codeSections = m.sections.filter (·.kind.holdsCode == true) := by
  rw [codeSections]
  congr 1
  funext s
  cases s.kind.holdsCode <;> rfl

end Module

namespace Format.Description

variable {d : Description} {m : Module} {magic : Magic} {sections : List Section} {data : Bytes}

/-! ## The kind of a binary -/

/-- There is one entry for each record. -/
@[simp] theorem length_entries (kind : TableKind) (index start : Nat)
    (items : List (Contents Procedure kind)) :
    (d.entries kind index start items).length = items.length := by
  induction items generalizing index start with
  | nil => rfl
  | cons item rest ih => rw [entries, List.length_cons, List.length_cons, ih]

/-- A module with all tables of a description is resolved to the kind of the description. -/
theorem resolveKind_eq (hd : d.WellFormed)
    (hm : ∀ kind, m.table kind = d.entries kind 0 (startOf sections kind) (d.items kind)) :
    m.resolveKind = .ok { m with kind := d.kind } := by
  have size : ∀ kind, (m.table kind).length = (d.items kind).length := by
    intro kind
    rw [hm kind, length_entries]
  have hstructs : m.structDefs.size = d.structDefs.length :=
    (Pool.length_unmapped _).symm.trans (size .structDefs)
  have hfields : m.fieldDefs.size = d.fieldDefs.length :=
    (Pool.length_unmapped _).symm.trans (size .fieldDefs)
  have hfunctions : m.functionDefs.size = d.code.definitions.length :=
    (Pool.length_unmapped _).symm.trans (size .functionDefs)
  have hmain : (m.main.map Entry.unmapped).toList.length = d.code.main?.toList.length :=
    size .main
  have hsome : m.main.isSome = d.code.main?.isSome := by
    cases hm : m.main <;> cases hp : d.code.main? <;> simp_all
  have hdefinitions : m.hasDefinitions = (d.code.definitions.length != 0 ||
      d.structDefs.length != 0 || d.fieldDefs.length != 0) := by
    rw [Module.hasDefinitions, hfunctions, hstructs, hfields]
  -- A script with definitions would be refused, but a well-formed one has none.
  unfold Module.resolveKind kind
  rw [hsome, hdefinitions]
  cases hcode : d.code with
  | main p =>
    obtain ⟨hnoStructs, hnoFields⟩ := hd.script (by rw [hcode]; rfl)
    simp [Code.main?, Code.definitions, hnoStructs, hnoFields]
  | functions definitions =>
    simp only [Code.main?, Code.definitions, Option.isSome_none, Bool.false_eq_true, if_false]
    cases definitions <;> cases d.structDefs <;> cases d.fieldDefs <;> rfl

/-! ## The tables of a binary -/

/-- A directory that has a kind once places its table where that entry says. -/
theorem startOf_eq (hnodup : (sections.map (·.kind)).Nodup) :
    ∀ s ∈ sections, startOf sections s.kind = s.offset := by
  induction sections with
  | nil => simp
  | cons t rest ih =>
    rw [List.map_cons, List.nodup_cons] at hnodup
    intro s hs
    rcases List.mem_cons.mp hs with rfl | hs
    · simp [startOf]
    · have hne : t.kind ≠ s.kind := fun heq => hnodup.1 (heq ▸ List.mem_map_of_mem hs)
      rw [← ih hnodup.2 s hs]
      simp [startOf, hne]

/-- The tables of a binary stand where its directory says. -/
theorem IsBinary.placed (h : d.IsBinary magic sections data) :
    ∀ s ∈ sections, d.Placed data s := by
  intro s hs
  obtain ⟨hinside, hbytes⟩ := h.tables s hs
  exact ⟨hinside, hbytes, (h.mem_iff s.kind).mp ⟨s, hs, rfl⟩⟩

/-- Before any table is read, none is settled. -/
theorem settled_start (d : Description) (magic : Magic) (sections : List Section) (data : Bytes) :
    d.Settled sections [] (.start data magic sections) := by
  refine ⟨fun kind hkind => absurd hkind List.not_mem_nil, fun kind _ => ?_⟩
  cases kind <;> rfl

/-- A table of which the directory has no entry has no records, and no entries in any module in which it
is not read. -/
theorem Settled.table_eq {done : List TableKind} (hm : d.Settled sections done m) {kind : TableKind}
    (h : kind ∈ done ∨ d.items kind = []) :
    m.table kind = d.entries kind 0 (startOf sections kind) (d.items kind) := by
  by_cases hdone : kind ∈ done
  · exact hm.read kind hdone
  · rw [hm.unread kind hdone, h.resolve_left hdone, entries]

/-- The kinds of the tables that are read in one of the two rounds, of those with code or of those
without. -/
theorem IsBinary.mem_round (h : d.IsBinary magic sections data) (code : Bool) {kind : TableKind}
    (hkind : kind.holdsCode = code) :
    kind ∈ (sections.filter (·.kind.holdsCode == code)).map (·.kind) ∨ d.items kind = [] := by
  by_cases hitems : d.items kind = []
  · exact .inr hitems
  · obtain ⟨s, hs, rfl⟩ := (h.mem_iff kind).mpr hitems
    exact .inl (List.mem_map_of_mem (List.mem_filter.mpr ⟨hs, by simp [hkind]⟩))

/-- No two directory entries of a round, for the tables with code or for those without, have the same
kind. -/
theorem IsBinary.nodup_round (h : d.IsBinary magic sections data) (code : Bool) :
    ((sections.filter (·.kind.holdsCode == code)).map (·.kind)).Nodup :=
  (List.filter_sublist.map _).nodup h.nodup

/-- The tables of a binary are read into what its description says. -/
theorem readTables_eq (hd : d.WellFormed) (hfits : d.Fits) (h : d.IsBinary magic sections data) :
    ∃ m, (Module.start data magic sections).readTables = .ok m ∧ d.Describes magic sections m := by
  have hplaced := h.placed
  have hstart := startOf_eq h.nodup
  have hround : ∀ (code : Bool) s, s ∈ sections.filter (·.kind.holdsCode == code) →
      s ∈ sections ∧ s.kind.holdsCode = code := by
    intro code s hs
    simpa using List.mem_filter.mp hs
  -- The tables without code are read in any module.
  obtain ⟨n, hn, hnSettled, hnFile⟩ := (settled_start d magic sections data).foldlM_decode hd
    (fun s hs => hplaced s (hround false s hs).1) (fun s hs => hstart s (hround false s hs).1)
    (fun s hs _ o _ _ => reads_data hd hfits o (hround false s hs).2) (h.nodup_round false)
    (fun _ _ => List.not_mem_nil)
  rw [List.nil_append] at hnSettled
  have filled : ∀ (more : List TableKind) (o : Module),
      (sections.filter (·.kind.holdsCode == false)).map (·.kind) ⊆ more →
      d.Settled sections more o → d.Filled o := by
    intro more o hsub ho
    refine Filled.of_table fun kind hkind => ⟨_, ho.table_eq ?_⟩
    exact (h.mem_round false hkind).imp_left fun hmem => hsub hmem
  have hcheck : n.checkReferences = .ok () :=
    (hd.dataClosed (filled _ n (fun _ hmem => hmem) hnSettled)).checkReferences
  -- The tables with code are read in a module that has the others.
  obtain ⟨o, ho, hoSettled, hoFile⟩ := hnSettled.foldlM_decode hd
    (fun s hs => hnFile.data ▸ hplaced s (hround true s hs).1)
    (fun s hs => hstart s (hround true s hs).1)
    (fun s hs more o hsub ho => reads_code hd hfits (filled more o hsub ho) (hround true s hs).2)
    (h.nodup_round true) (fun s hs hmem => by
      obtain ⟨t, ht, hkind⟩ := List.mem_map.mp hmem
      have hfalse := (hround false t ht).2
      rw [hkind, (hround true s hs).2] at hfalse
      cases hfalse)
  -- Every kind has been read in its round, or has no records and no entry in the directory.
  have htables : ∀ kind, o.table kind = d.entries kind 0 (startOf sections kind) (d.items kind) := by
    refine fun kind => hoSettled.table_eq ?_
    have hmem := h.mem_round kind.holdsCode rfl
    cases hkind : kind.holdsCode with
    | false =>
      rw [hkind] at hmem
      exact hmem.imp_left (List.mem_append_left _)
    | true =>
      rw [hkind] at hmem
      exact hmem.imp_left (List.mem_append_right _)
  have hfile := hnFile.trans hoFile
  refine ⟨{ o with kind := d.kind }, ?_, hfile.magic, hfile.sections, rfl, ?_⟩
  · rw [Module.readTables, Module.dataSections_eq]
    refine bind_eq_ok.mpr ⟨n, hn, bind_eq_ok.mpr ⟨(), hcheck, bind_eq_ok.mpr ⟨o, ?_, ?_⟩⟩⟩
    · rw [Module.codeSections_eq, hnFile.sections]
      exact ho
    · exact resolveKind_eq hd htables
  · intro kind
    rw [← htables kind]
    cases kind <;> rfl

/-- A binary of a description is decoded to what the description says. -/
theorem decode_eq (hd : d.WellFormed) (hfits : d.Fits) (h : d.IsBinary magic sections data) :
    ∃ m, Module.decode data = .ok m ∧ d.Describes magic sections m := by
  obtain ⟨m, hm, hdescribes⟩ := readTables_eq hd hfits h
  exact ⟨m, bind_eq_ok.mpr ⟨_, h.readDirectory_eq, hm⟩, hdescribes⟩

/-- A module that has been laid out holds what it held. -/
theorem Describes.layOut (h : d.Describes magic sections m) (config : Config) :
    d.Describes magic sections (m.layOut config).1 := by
  obtain ⟨hfile, hkind⟩ := Module.sameFile_layOut config m
  refine ⟨hfile.magic.trans h.magic, hfile.sections.trans h.directory, hkind.trans h.kind,
    fun kind => ?_⟩
  rw [Module.table_layOut, h.tables kind]

/-- Loading undoes encoding: a binary of a well-formed description whose numbers fit their fields is
loaded, whatever the configuration, to a module that holds what the description says. -/
theorem load_describes (hd : d.WellFormed) (hfits : d.Fits) (h : d.IsBinary magic sections data)
    (config : Config) :
    ∃ m, Module.load config data = .ok m ∧ d.Describes magic sections m := by
  obtain ⟨m, hm, hdescribes⟩ := decode_eq hd hfits h
  -- A dump is made of the module before it is laid out, and could fail if anything could not be shown.
  have hdump : Answers (m.dump config) := by
    unfold Module.dump
    split
    · exact (Module.decoded_of_decode hm).1.closed.showTables.bind fun _ _ => answers_pure _
    · exact answers_pure _
  obtain ⟨text, htext⟩ := hdump
  exact ⟨_, bind_eq_ok.mpr ⟨m, hm, bind_eq_ok.mpr ⟨text, htext, rfl⟩⟩, hdescribes.layOut config⟩

/-- A library with a struct that holds a reference, a text beyond ASCII, an empty byte array, and a
function that branches back, packs and borrows. -/
def sample : Description where
  moduleHandles := [⟨0, 0⟩]
  structHandles := [⟨0, 1, true⟩]
  functionHandles := [⟨0, 2, 0⟩]
  addresses := [Array.replicate 32 0xAB]
  strings := ["M", "Münze", "f", "x"]
  bytearrays := [#[0xCA, 0xFE], #[]]
  structDefs := [⟨0, 1, 0⟩]
  fieldDefs := [⟨0, 3, 0⟩]
  typeSignatures := [.reference true (.struct 0)]
  functionSignatures := [⟨[.integer], [.integer, .bool]⟩]
  localSignatures := [[.integer, .bool, .struct 0]]
  code := .functions [
    { handle := 0, flags := 1, maxStack := 2, locals := 0,
      body := [⟨.copyLoc, some 0⟩, ⟨.ldConst, some (2 ^ 64 - 1)⟩, ⟨.lt, none⟩, ⟨.brTrue, some 0⟩,
        ⟨.copyLoc, some 0⟩, ⟨.pack, some 0⟩, ⟨.stLoc, some 2⟩, ⟨.ldRefLoc, some 2⟩,
        ⟨.ldRefField, some 0⟩, ⟨.readRef, none⟩, ⟨.ret, none⟩] }]

/-- The sample is loaded from its binary with the tables in reverse order. -/
theorem load_sample : sample.WellFormed ∧ sample.Fits ∧
    ∃ m sections, Module.load .standard (sample.encode .diem sample.kinds.reverse) = .ok m ∧
      sample.Describes .diem sections m := by
  have hd : sample.WellFormed := by decide +kernel
  have hfits : sample.Fits := by decide +kernel
  have hsize : (sample.encode .diem sample.kinds.reverse).size < 2 ^ 31 := by decide +kernel
  have hbinary := isBinary_encode .diem (List.reverse_perm sample.kinds) hsize
  obtain ⟨m, hm, hdescribes⟩ := load_describes hd hfits hbinary .standard
  exact ⟨hd, hfits, m, _, hm, hdescribes⟩

/-! ## Numbers that do not fit -/

/-- A table with bytes is not read unless its first record is. -/
theorem exists_runs_of_readInto {α : Type} {s : Cursor} {read : Reader α} {pool pool' : Pool α}
    (h : Table.readInto s read pool = .ok pool') (hs : s.position < s.stop) :
    ∃ a s', Runs read s a s' := by
  have hrun : Runs (Table.fill read s.available pool) s pool'
      ((Table.fill read s.available pool).runAt s).2 := Prod.ext h rfl
  -- There is fuel for at least one record, and the table is not at its end.
  obtain ⟨fuel, hfuel⟩ : ∃ n, s.available = n + 1 := by
    refine ⟨s.available - 1, ?_⟩
    simp only [Cursor.available]
    omega
  have hatEnd : s.atEnd = false := by
    simp only [Cursor.atEnd, decide_eq_false_iff_not]
    omega
  simp only [hfuel, Table.fill, runs_bind, Reader.runs_atEnd, hatEnd] at hrun
  obtain ⟨_, _, ⟨rfl, rfl⟩, hrun⟩ := hrun
  simp only [Bool.false_eq_true, if_false, runs_bind, Reader.runs_position] at hrun
  obtain ⟨_, _, ⟨rfl, rfl⟩, a, s', ha, -⟩ := hrun
  exact ⟨a, s', ha⟩

/-- A binary that starts with the module handles is refused if the name of the first of them has
more than 16 bits, be there a text of that number or not. -/
theorem not_load_of_wide_name {s : Section} {rest : List Section} {address name : Nat}
    {more : List ModuleHandle} (h : d.IsBinary magic (s :: rest) data)
    (hkind : s.kind = .moduleHandles) (hhandles : d.moduleHandles = ⟨address, name⟩ :: more)
    (haddress : address ≤ 0xFFFF) (hname : 0xFFFF < name) (hgroups : name < 0x80 ^ 3)
    (config : Config) (m : Module) : Module.load config data ≠ .ok m := by
  intro hload
  obtain ⟨n, hn, -⟩ := bind_eq_ok.mp hload
  obtain ⟨start, hstart, hn⟩ := bind_eq_ok.mp hn
  obtain rfl := Except.ok.inj (hstart.symm.trans h.readDirectory_eq)
  have hplaced := h.placed s List.mem_cons_self
  have hfirst : (Module.start data magic (s :: rest)).dataSections =
      s :: rest.filter (!·.kind.holdsCode) := by
    simp [Module.dataSections, Module.start, hkind, TableKind.holdsCode]
  obtain ⟨o, ho, -⟩ := bind_eq_ok.mp hn
  rw [hfirst, List.foldlM_cons] at ho
  obtain ⟨o, ho, -⟩ := bind_eq_ok.mp ho
  -- The first table is read, and in it the first record.
  obtain ⟨c, hc, ho⟩ := bind_eq_ok.mp ho
  rw [Table.cursor_eq hplaced.inside] at hc
  obtain rfl := Except.ok.inj hc
  simp only [hkind] at ho
  obtain ⟨pool, hpool, -⟩ := bind_eq_ok.mp ho
  have hfaces := hplaced.faces
  have htable : d.table s.kind = encodeUleb128 address ++ (encodeUleb128 name ++
      (more.flatMap (recordBytes .moduleHandles))) := by
    rw [hkind, table, items, hhandles]
    exact List.append_assoc _ _ _
  rw [htable] at hfaces
  obtain ⟨haddressFaces, hnameFaces⟩ := hfaces.append
  obtain ⟨record, c', hrecord⟩ := exists_runs_of_readInto hpool (by
    have hroom := haddressFaces.room
    have hne := List.length_pos_iff.mpr (Reader.encodeUleb128_ne_nil address)
    simp only at hroom ⊢
    omega)
  obtain ⟨a, c₁, ha, hrecord⟩ := runs_bind.mp hrecord
  obtain ⟨-, rfl⟩ := ha.unique (Reader.parses_varu16 haddress _ haddressFaces)
  obtain ⟨b, c₂, hb, -⟩ := runs_bind.mp hrecord
  exact Reader.not_runs_varu16 hname hgroups hnameFaces.first b c₂ hb

/-- A library of a module whose name is the last of `n + 1` empty texts. -/
def crowded (n : Nat) : Description where
  moduleHandles := [⟨0, n⟩]
  structHandles := []
  functionHandles := []
  addresses := [Array.replicate 32 0]
  strings := List.replicate (n + 1) ""
  bytearrays := []
  structDefs := []
  fieldDefs := []
  typeSignatures := []
  functionSignatures := []
  localSignatures := []
  code := .functions []

/-- A crowded description is well-formed, however many texts it has. -/
theorem wellFormed_crowded (n : Nat) : (crowded n).WellFormed := by
  refine ⟨fun kind => ?_, fun h => absurd h Bool.false_ne_true⟩
  cases kind with
  | moduleHandles =>
    intro h hh
    obtain rfl := List.mem_singleton.mp hh
    exact ⟨Nat.zero_lt_one, by simp [crowded]⟩
  | addressPool =>
    intro value hvalue
    obtain rfl := List.mem_singleton.mp hvalue
    exact Array.size_replicate
  | stringPool =>
    intro text htext
    obtain rfl := List.eq_of_mem_replicate htext
    exact Nat.zero_le _
  | _ => exact fun _ h => absurd h List.not_mem_nil

/-- A number in groups of seven bits takes no more bytes than one above its value. -/
theorem length_encodeUleb128_le (n : Nat) : (encodeUleb128 n).length ≤ n + 1 := by
  induction n using Nat.strongRecOn with
  | ind n ih =>
    rw [encodeUleb128]
    split
    · simp
    · have := ih (n / 0x80) (by omega)
      rw [List.length_cons]
      omega

/-- The binary of a crowded description grows by at most two bytes with each text. -/
theorem size_encode_crowded (n : Nat) :
    ((crowded n).encode .libra (crowded n).kinds).size ≤ 2 * n + 73 := by
  have hhandles : ((crowded n).table .moduleHandles).length ≤ n + 2 := by
    change ((encodeUleb128 0 ++ encodeUleb128 n) ++ []).length ≤ n + 2
    have hzero := length_encodeUleb128_le 0
    have hname := length_encodeUleb128_le n
    simp only [List.append_nil, List.length_append]
    omega
  have hstrings : ((crowded n).table .stringPool).length = n + 1 := by
    have hempty : lengthPrefixed (Bytes.ofText "").toList = [0] := by
      change encodeUleb128 0 ++ [] = [0]
      rw [encodeUleb128]
      rfl
    change ((List.replicate (n + 1) "").flatMap
      fun text => lengthPrefixed (Bytes.ofText text).toList).length = n + 1
    rw [List.length_flatMap, List.map_replicate, hempty]
    simp
  rw [encode, size_assemble]
  change tablesOffset 3 + (((crowded n).table .moduleHandles).length +
    (32 + (((crowded n).table .stringPool).length + 0))) ≤ _
  rw [hstrings, tablesOffset, Header.size]
  omega

/-- Well-formedness alone is not enough: with more than 2^16 texts, a reference to the last of them
resolves and is refused all the same. -/
theorem not_forall_load_describes :
    ¬ ∀ (d : Description) (magic : Magic) (sections : List Section) (data : Bytes),
      d.WellFormed → d.IsBinary magic sections data →
        ∃ m, Module.load .standard data = .ok m ∧ d.Describes magic sections m := by
  intro h
  have hsize : ((crowded 0x10000).encode .libra (crowded 0x10000).kinds).size < 2 ^ 31 :=
    Nat.lt_of_le_of_lt (size_encode_crowded 0x10000) (by decide)
  have hbinary := isBinary_encode .libra (List.Perm.refl (crowded 0x10000).kinds) hsize
  obtain ⟨m, hm, -⟩ := h _ _ _ _ (wellFormed_crowded 0x10000) hbinary
  exact not_load_of_wide_name hbinary rfl rfl (by decide) (by decide) (by decide) .standard m hm

end Format.Description

end MoveBytecode
