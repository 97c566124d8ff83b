import MoveBytecode.Proofs.Loading.Tiling

/-!
# The function of a script and function definitions

The table of a script's function and the table of function definitions hold the same records, but the
former is one read and the latter a loop. So the table of a script's function is accepted as soon as it
starts with a record, whatever follows, and the same bytes are a table of exactly this definition only if
nothing does (`Module.readsScript_iff`). That a table is used up to its end is not checked for scripts
(`Module.not_forall_readsScript_iff`).
-/

namespace MoveBytecode

open Reader

/-! ## Tables of one record -/

namespace Table

variable {α : Type} {read : Reader α} {c c' : Cursor} {pool pool' : Pool α}

/-- A table that one record uses up adds this record. -/
theorem readInto_of_atEnd (pool : Pool α) (hread : read.Progresses) (hc : c.Inside) {record : α}
    (hrun : Runs read c record c') (hend : c'.atEnd = true) :
    readInto c read pool =
      .ok (pool.add ⟨c.position, (c'.position - c.position : Nat)⟩ record) := by
  have hmore : c.atEnd = false := by
    have hlt := hread.lt c record c' hrun
    have hreach := hread.advances c record c' hrun
    have hstop := hreach.stop
    have hnext := (hreach.inside hc).1
    simp only [Cursor.atEnd, decide_eq_false_iff_not]
    omega
  have hfills := fills_readInto hread c pool
  generalize readInto c read pool = result at hfills ⊢
  cases hfills with
  | done hdone => simp [hmore] at hdone
  | fault _ hfault => exact absurd (congrArg Prod.fst hfault) hrun.not_fails
  | record _ hrun' hrest =>
    obtain ⟨rfl, rfl⟩ := hrun.unique hrun'
    cases hrest with
    | done => rfl
    | fault hmore' => simp [hend] at hmore'
    | record hmore' => simp [hend] at hmore'

/-- A table that adds one record is used up by it. -/
theorem exists_of_readInto_one (hread : read.Progresses) (hconfines : read.Confines) (hc : c.Inside)
    {e : Entry α} (hpool : pool.entries = #[]) (hpool' : pool'.entries = #[e])
    (h : readInto c read pool = .ok pool') :
    ∃ record c', Runs read c record c' ∧ c'.atEnd = true ∧
      e = ⟨0, ⟨c.position, (c'.position - c.position : Nat)⟩, .unplaced, record⟩ := by
  have hfills := fills_readInto hread c pool
  rw [h] at hfills
  cases hfills with
  | done => simp [hpool] at hpool'
  | @record _ c' _ record _ _ hrun hrest =>
    -- A second record would be a second entry.
    have hnext := (hread.advances _ _ _ hrun).inside hc
    obtain ⟨entries, htoList, hcontiguous, -⟩ := exists_entries_of_fills hread hconfines hnext hrest
    rw [Pool.toList_add, Pool.toList, Pool.toList, hpool', hpool] at htoList
    obtain ⟨he, hnone⟩ : e = _ ∧ [] = entries := List.cons.inj htoList
    subst hnone
    refine ⟨record, c', hrun, ?_, ?_⟩
    · simp only [Cursor.atEnd, decide_eq_true_eq]
      exact Nat.le_of_eq hcontiguous.symm
    · rw [he, Pool.size, hpool]
      rfl

end Table

/-! ## The two tables of functions -/

namespace Module

/-- A module whose tables with code have not been read. -/
structure WithoutCode (m : Module) : Prop where
  main : m.main = none
  definitions : m.functionDefs.entries = #[]

/-- The bytes from `offset` on are accepted as the table of a script's function, with this function. -/
def ReadsScript (m : Module) (offset size : Nat) (f : Entry FunctionDef) : Prop :=
  Table.decode m ⟨.main, offset, size⟩ = .ok { m with main := some f }

/-- The bytes from `offset` on are accepted as a table of function definitions, with this one alone. -/
def ReadsDefinition (m : Module) (offset size : Nat) (f : Entry FunctionDef) : Prop :=
  Table.decode m ⟨.functionDefs, offset, size⟩ =
    .ok { m with functionDefs := { m.functionDefs with entries := #[f] } }

/-- The window of a table. -/
def tableWindow (m : Module) (offset size : Nat) : Cursor := ⟨m.data, offset, offset, offset + size⟩

/-- A function stands in just these bytes: it is read from them and uses them up. -/
def StandsIn (m : Module) (offset size : Nat) (record : FunctionDef) : Prop :=
  Runs (Table.readFunction m) (m.tableWindow offset size) record ((m.tableWindow offset size).moved size)

variable {m : Module} {offset size : Nat} {f : Entry FunctionDef}

/-- What is read at the start of a window stands in the bytes that are used up, whatever follows. -/
theorem runs_readFunction_iff (h : offset + size ≤ m.data.size) {record : FunctionDef} {c' : Cursor} :
    Runs (Table.readFunction m) (m.tableWindow offset size) record c' ↔
      ∃ used ≤ size, c' = (m.tableWindow offset size).moved used ∧ m.StandsIn offset used record := by
  constructor
  · intro hrun
    obtain ⟨used, rfl, hconfined⟩ := Table.confines_readFunction m _ _ _ hrun
    have hinside : (m.tableWindow offset size).Inside := ⟨Nat.le_add_right _ _, h⟩
    have hend := ((Table.progresses_readFunction m).advances _ _ _ hrun).inside hinside
    refine ⟨used, Nat.le_of_add_le_add_left hend.1, rfl, ?_⟩
    exact hconfined (m.tableWindow offset used) ⟨rfl, rfl⟩ (Nat.le_refl _)
  · rintro ⟨used, hused, rfl, hstands⟩
    obtain ⟨count, hmoved, hconfined⟩ := Table.confines_readFunction m _ _ _ hstands
    obtain rfl : used = count := Nat.add_left_cancel (congrArg Cursor.position hmoved)
    exact hconfined (m.tableWindow offset size) ⟨rfl, rfl⟩ (Nat.add_le_add_left hused _)

/-- A table of a script's function adds a function. -/
theorem exists_of_decode_main {m' : Module} (h : Table.decode m ⟨.main, offset, size⟩ = .ok m') :
    ∃ f, m.ReadsScript offset size f ∧ m'.main = some f := by
  obtain ⟨c, hc, hdecode⟩ := bind_eq_ok.mp h
  dsimp only at hdecode
  split at hdecode
  · simp [bind_eq_ok] at hdecode
  · obtain ⟨f, -, hdecode⟩ := bind_eq_ok.mp hdecode
    obtain rfl := pure_eq_ok.mp hdecode
    exact ⟨f, h, rfl⟩

/-- The table of a script's function starts with a function, and what follows is not looked at. -/
theorem readsScript_iff_standsIn (hm : m.WithoutCode) (h : offset + size ≤ m.data.size) :
    m.ReadsScript offset size f ↔ ∃ used ≤ size, ∃ record,
      m.StandsIn offset used record ∧ f = ⟨0, ⟨offset, used⟩, .unplaced, record⟩ := by
  have hcursor : Table.cursor m ⟨.main, offset, size⟩ = .ok (m.tableWindow offset size) :=
    Table.cursor_eq h
  have hnone : ¬ m.main.isSome = true := by simp [hm.main]
  constructor
  · intro hreads
    obtain ⟨c, hc, hreads⟩ := bind_eq_ok.mp hreads
    obtain rfl := Except.ok.inj (hcursor.symm.trans hc)
    dsimp only at hreads
    rw [if_neg hnone] at hreads
    obtain ⟨e, he, hreads⟩ := bind_eq_ok.mp hreads
    obtain rfl : e = f := Option.some.inj (congrArg Module.main (pure_eq_ok.mp hreads))
    obtain ⟨record, hrecord, rfl⟩ := Table.runs_readMain_iff.mp (Prod.ext he rfl)
    obtain ⟨used, hused, hmoved, hstands⟩ := (runs_readFunction_iff h).mp hrecord
    refine ⟨used, hused, record, hstands, ?_⟩
    simp only [hmoved, Cursor.moved_position, Nat.add_sub_cancel_left]
    rfl
  · rintro ⟨used, hused, record, hstands, rfl⟩
    have hrecord := (runs_readFunction_iff h).mpr ⟨used, hused, rfl, hstands⟩
    have hrun : Runs (Table.readMain m) (m.tableWindow offset size)
        ⟨0, ⟨offset, used⟩, .unplaced, record⟩ ((m.tableWindow offset size).moved used) := by
      refine Table.runs_readMain_iff.mpr ⟨record, hrecord, ?_⟩
      simp only [Cursor.moved_position, Nat.add_sub_cancel_left]
      rfl
    refine bind_eq_ok.mpr ⟨_, hcursor, ?_⟩
    dsimp only
    rw [if_neg hnone]
    exact bind_eq_ok.mpr ⟨_, congrArg Prod.fst hrun, rfl⟩

/-- A table of one function definition is a function that uses it up. -/
theorem readsDefinition_iff_standsIn (hm : m.WithoutCode) (h : offset + size ≤ m.data.size) :
    m.ReadsDefinition offset size f ↔ ∃ record,
      m.StandsIn offset size record ∧ f = ⟨0, ⟨offset, size⟩, .unplaced, record⟩ := by
  have hcursor : Table.cursor m ⟨.functionDefs, offset, size⟩ = .ok (m.tableWindow offset size) :=
    Table.cursor_eq h
  have hinside : (m.tableWindow offset size).Inside := ⟨Nat.le_add_right _ _, h⟩
  have hprogresses := Table.progresses_readFunction m
  constructor
  · intro hreads
    obtain ⟨c, hc, hreads⟩ := bind_eq_ok.mp hreads
    obtain rfl := Except.ok.inj (hcursor.symm.trans hc)
    obtain ⟨pool, hpool, hreads⟩ := bind_eq_ok.mp hreads
    have hentries : pool.entries = #[f] :=
      congrArg (fun n : Module => n.functionDefs.entries) (pure_eq_ok.mp hreads)
    obtain ⟨record, c', hrun, hend, rfl⟩ := Table.exists_of_readInto_one hprogresses
      (Table.confines_readFunction m) hinside hm.definitions hentries hpool
    obtain ⟨used, hused, rfl, hstands⟩ := (runs_readFunction_iff h).mp hrun
    -- The pool is filled until the window is used up, so that one record takes all of it.
    have hstop : offset + size ≤ offset + used := of_decide_eq_true hend
    obtain rfl : used = size := by omega
    refine ⟨record, hstands, ?_⟩
    simp only [Cursor.moved_position, Nat.add_sub_cancel_left]
    rfl
  · rintro ⟨record, hstands, rfl⟩
    have hend : ((m.tableWindow offset size).moved size).atEnd = true := by
      simp [Cursor.atEnd, tableWindow]
    have hread := Table.readInto_of_atEnd m.functionDefs hprogresses hinside hstands hend
    refine bind_eq_ok.mpr ⟨_, hcursor, bind_eq_ok.mpr ⟨_, hread, pure_eq_ok.mpr ?_⟩⟩
    simp [Pool.add, Pool.size, hm.definitions, tableWindow]

/-- Where a table is accepted as that of a script's function, it starts with a table of exactly this
definition; and a table of exactly one definition is a table of a script's function that the function uses
up. -/
theorem readsScript_iff (hm : m.WithoutCode) (h : offset + size ≤ m.data.size) (f : Entry FunctionDef) :
    (m.ReadsScript offset size f ↔ ∃ used ≤ size, m.ReadsDefinition offset used f) ∧
    (m.ReadsDefinition offset size f ↔
      m.ReadsScript offset size f ∧ f.file.stop = (offset + size : Nat)) := by
  have hdefinition : ∀ used ≤ size, m.ReadsDefinition offset used f ↔ ∃ record,
      m.StandsIn offset used record ∧ f = ⟨0, ⟨offset, used⟩, .unplaced, record⟩ :=
    fun used hused => readsDefinition_iff_standsIn hm (by omega)
  rw [readsScript_iff_standsIn hm h, hdefinition size (Nat.le_refl _)]
  refine ⟨exists_congr fun used => and_congr_right fun hused => (hdefinition used hused).symm, ?_, ?_⟩
  · rintro ⟨record, hstands, rfl⟩
    exact ⟨⟨size, Nat.le_refl _, record, hstands, rfl⟩, rfl⟩
  · rintro ⟨⟨used, -, record, hstands, rfl⟩, hstop⟩
    obtain rfl : used = size := by
      simp only [Extent.stop] at hstop
      omega
    exact ⟨record, hstands, rfl⟩

/-! ## A script with a byte to spare -/

/-- Tables without code add no functions. -/
theorem withoutCode_of_foldlM {data : Bytes} {d : Module} (hd : readDirectory data = .ok d)
    (h : d.dataSections.foldlM Table.decode d = .ok m) : m.WithoutCode ∧ m.data = data := by
  obtain ⟨magic, sections, rfl, -⟩ := readDirectory_eq_ok hd
  obtain ⟨hdata, hdefinitions, hmain, -, -⟩ := foldlM_decode_data (holdsCode_dataSections _) h
  exact ⟨⟨hmain, by rw [hdefinitions]; rfl⟩, hdata⟩

/-- A script whose table has one byte behind its function, `RET`. -/
def spareByteSample : Bytes :=
  Format.assemble .libra [
    ⟨.moduleHandles, [0, 0]⟩, ⟨.functionHandles, [0, 1, 0]⟩, ⟨.addressPool, List.replicate 32 0⟩,
    ⟨.stringPool, [6, 0x3C, 0x53, 0x45, 0x4C, 0x46, 0x3E, 1, 0x66]⟩, ⟨.functionSignatures, [2, 0, 0]⟩,
    ⟨.localSignatures, [3, 0]⟩, ⟨.main, [0, 0, 0, 0, 1, 0, 0x02, 0x00]⟩]

/-- The tables of the sample without code are read and their references resolve, and its script is
accepted without its last byte. -/
theorem exists_readsScript_spareByteSample : ∃ d m f, readDirectory spareByteSample = .ok d ∧
    d.dataSections.foldlM Table.decode d = .ok m ∧ m.checkReferences = .ok () ∧
    m.ReadsScript 125 8 f ∧ f.file = ⟨125, 7⟩ := by
  have check : (readDirectory spareByteSample).toOption.any (fun d =>
      (d.dataSections.foldlM Table.decode d).toOption.any fun m =>
        m.checkReferences.toOption.isSome && (Table.decode m ⟨.main, 125, 8⟩).toOption.any fun m' =>
          m'.main.any fun f => decide (f.file = ⟨125, 7⟩)) = true := by
    decide +kernel
  obtain ⟨d, hd, check⟩ := exists_of_any_toOption check
  obtain ⟨m, hm, check⟩ := exists_of_any_toOption check
  obtain ⟨hreferences, check⟩ := Bool.and_eq_true_iff.mp check
  obtain ⟨⟨⟩, hreferences⟩ := Option.isSome_iff_exists.mp hreferences
  obtain ⟨m', hm', check⟩ := exists_of_any_toOption check
  obtain ⟨f, hreads, hf⟩ := exists_of_decode_main hm'
  rw [hf] at check
  exact ⟨d, m, f, hd, hm, toOption_eq_some.mp hreferences, hreads, of_decide_eq_true check⟩

/-- The script of the sample is a table of one definition without its last byte, and none with it. -/
theorem spareByteSample_readsScript : ∃ (m : Module) (f : Entry FunctionDef), m.WithoutCode ∧
    125 + 8 ≤ m.data.size ∧ m.ReadsScript 125 8 f ∧ (∃ used ≤ 8, m.ReadsDefinition 125 used f) ∧
      ¬ m.ReadsDefinition 125 8 f := by
  obtain ⟨d, m, f, hd, hm, -, hreads, hfile⟩ := exists_readsScript_spareByteSample
  obtain ⟨hcode, hdata⟩ := withoutCode_of_foldlM hd hm
  have hsize : 125 + 8 ≤ m.data.size := by
    rw [hdata]
    decide +kernel
  obtain ⟨hscript, hdefinition⟩ := readsScript_iff hcode hsize f
  refine ⟨m, f, hcode, hsize, hreads, hscript.mp hreads, fun hone => ?_⟩
  have hstop := (hdefinition.mp hone).2
  rw [hfile] at hstop
  exact absurd hstop (by decide)

/-- Where the tables without code were read and their references resolve, a table may be accepted as that
of a script's function and not as one of exactly this definition. -/
theorem not_forall_readsScript_iff : ¬ ∀ (data : Bytes) (d m : Module), readDirectory data = .ok d →
    d.dataSections.foldlM Table.decode d = .ok m → m.checkReferences = .ok () →
    ∀ (offset size : Nat) (f : Entry FunctionDef), offset + size ≤ data.size →
      (m.ReadsScript offset size f ↔ m.ReadsDefinition offset size f) := by
  intro hall
  obtain ⟨d, m, f, hd, hm, hreferences, hreads, hfile⟩ := exists_readsScript_spareByteSample
  obtain ⟨hcode, hdata⟩ := withoutCode_of_foldlM hd hm
  have hsize : 125 + 8 ≤ spareByteSample.size := by decide +kernel
  have hone := (hall _ d m hd hm hreferences 125 8 f hsize).mp hreads
  obtain ⟨record, -, rfl⟩ := (readsDefinition_iff_standsIn hcode (by rw [hdata]; exact hsize)).mp hone
  have hlength : ((8 : Nat) : Int) = 7 := congrArg Extent.size hfile
  exact absurd hlength (by decide)

end Module

end MoveBytecode
