import MoveBytecode.Proofs.Format.Description
import MoveBytecode.Proofs.Loading.Views

/-!
# Modules with the records of a description

Once its tables without code are read, a module has the records of a description in the pools of
those tables (`Description.Filled`). What the reading of functions depends on is then what the
description says: references resolve, and a function is read by the frame that its handle and its locals
give it.
-/

namespace MoveBytecode

variable {α : Type}

namespace Pool

/-- A pool is as large as the list of its records. -/
theorem size_of_records {p : Pool α} {l : List α} (h : p.records = l) : p.size = l.length := by
  rw [← length_records, h]

end Pool

namespace Format.Description

variable {d : Description} {m : Module}

/-- The records of the tables without code are those of a description. -/
structure Filled (d : Description) (m : Module) : Prop where
  moduleHandles : m.moduleHandles.records = d.moduleHandles
  structHandles : m.structHandles.records = d.structHandles
  functionHandles : m.functionHandles.records = d.functionHandles
  addresses : m.addresses.records = d.addresses
  strings : m.strings.records = d.strings
  bytearrays : m.bytearrays.records = d.bytearrays
  structDefs : m.structDefs.records = d.structDefs
  fieldDefs : m.fieldDefs.records = d.fieldDefs
  typeSignatures : m.typeSignatures.records = d.typeSignatures
  functionSignatures : m.functionSignatures.records = d.functionSignatures
  localSignatures : m.localSignatures.records = d.localSignatures

/-- Where a record without code stands does not matter to it. -/
theorem record_of_data {kind : TableKind} (hkind : kind.holdsCode = false) (start : Nat) :
    d.record start kind = d.record 0 kind := by
  funext item
  cases kind with
  | functionDefs | main => simp [TableKind.holdsCode] at hkind
  | _ => rfl

/-- The entries of a table without code have the described records. -/
theorem map_record_entries {kind : TableKind} (hkind : kind.holdsCode = false) (index start : Nat)
    (items : List (Contents Procedure kind)) :
    (d.entries kind index start items).map (·.record) = items.map (d.record 0 kind) := by
  induction items generalizing index start with
  | nil => rfl
  | cons item rest ih => rw [entries, List.map_cons, List.map_cons, ih, record_of_data hkind]

/-- Tables with the entries of a description have its records. -/
theorem Filled.of_table (h : ∀ kind, kind.holdsCode = false →
    ∃ start, m.table kind = d.entries kind 0 start (d.items kind)) : d.Filled m := by
  have records : ∀ kind, kind.holdsCode = false →
      (m.table kind).map (·.record) = (d.items kind).map (d.record 0 kind) := by
    intro kind hkind
    obtain ⟨start, hstart⟩ := h kind hkind
    rw [hstart, map_record_entries hkind]
  have pool : ∀ {α : Type} {p : Pool α} {l : List α},
      p.unmapped.map (·.record) = l.map id → p.records = l := by
    intro α p l hl
    rwa [Pool.map_record_unmapped, List.map_id] at hl
  exact ⟨pool (records .moduleHandles rfl), pool (records .structHandles rfl),
    pool (records .functionHandles rfl), pool (records .addressPool rfl),
    pool (records .stringPool rfl), pool (records .bytearrayPool rfl),
    pool (records .structDefs rfl), pool (records .fieldDefs rfl),
    pool (records .typeSignatures rfl), pool (records .functionSignatures rfl),
    pool (records .localSignatures rfl)⟩

/-! ## References -/

/-- The tokens of a well-formed description refer to structs. -/
theorem WellFormed.handles (hd : d.WellFormed) (hm : d.Filled m) :
    ∀ token ∈ m.signatureTokens, ∀ handle ∈ token.handles,
      0 ≤ handle ∧ handle < m.structHandles.size := by
  have admitted : ∀ token ∈ m.signatureTokens, d.AdmitsToken token := by
    intro token htoken
    rcases List.mem_append.mp htoken with htoken | htoken
    · obtain ⟨e, he, rfl⟩ := List.mem_map.mp htoken
      have hmem : e.record ∈ d.typeSignatures := hm.typeSignatures ▸ List.mem_map_of_mem he
      exact hd.items .typeSignatures e.record hmem
    · rcases List.mem_append.mp htoken with htoken | htoken
      · obtain ⟨e, he, htoken⟩ := List.mem_flatMap.mp htoken
        have hmem : e.record ∈ d.functionSignatures :=
          hm.functionSignatures ▸ List.mem_map_of_mem he
        obtain ⟨hreturns, hparams⟩ := hd.items .functionSignatures e.record hmem
        exact (List.mem_append.mp htoken).elim (hreturns.token token) (hparams.token token)
      · obtain ⟨e, he, htoken⟩ := List.mem_flatMap.mp htoken
        have hmem : e.record ∈ d.localSignatures := hm.localSignatures ▸ List.mem_map_of_mem he
        exact (hd.items .localSignatures e.record hmem).token token htoken
  rw [Pool.size_of_records hm.structHandles]
  exact fun token htoken => (admitted token htoken).handles

/-- The records of a well-formed description refer to records. -/
theorem WellFormed.dataClosed (hd : d.WellFormed) (hm : d.Filled m) : m.DataClosed where
  moduleHandles := by
    rw [hm.moduleHandles, Pool.size_of_records hm.addresses, Pool.size_of_records hm.strings]
    exact hd.items .moduleHandles
  structHandles := by
    rw [hm.structHandles, Pool.size_of_records hm.moduleHandles, Pool.size_of_records hm.strings]
    exact hd.items .structHandles
  functionHandles := by
    rw [hm.functionHandles, Pool.size_of_records hm.moduleHandles, Pool.size_of_records hm.strings,
      Pool.size_of_records hm.functionSignatures]
    exact hd.items .functionHandles
  structDefs := by
    rw [hm.structDefs, Pool.size_of_records hm.structHandles, Pool.size_of_records hm.fieldDefs]
    exact hd.items .structDefs
  fieldDefs := by
    rw [hm.fieldDefs, Pool.size_of_records hm.structHandles, Pool.size_of_records hm.strings,
      Pool.size_of_records hm.typeSignatures]
    exact hd.items .fieldDefs
  tokens := hd.handles hm

/-! ## Functions -/

/-- The signature of a function that has a handle. -/
theorem signatureOf_eq (hd : d.WellFormed) (hm : d.Filled m) {handle : Nat}
    (h : handle < d.functionHandles.length) :
    ∃ e, m.functionHandles.get handle = .ok e ∧ e.record ∈ m.functionHandles.records ∧
      m.signatureOf e.record = .ok (d.signature handle) := by
  have hhandle : d.functionHandles[handle]? = some d.functionHandles[handle] :=
    List.getElem?_eq_getElem h
  obtain ⟨-, -, hsignature⟩ := hd.items .functionHandles _ (List.getElem_mem h)
  have hs := List.getElem?_eq_getElem hsignature
  obtain ⟨e, he, hrecord⟩ := Pool.get_of_records hm.functionHandles hhandle
  obtain ⟨s, hget, hsrecord⟩ := Pool.get_of_records hm.functionSignatures hs
  refine ⟨e, he, List.mem_of_getElem? (Pool.record_of_get he).2, ?_⟩
  rw [hrecord, Module.signatureOf]
  refine bind_eq_ok.mpr ⟨s, hget, ?_⟩
  simp [signature, hhandle, hs, hsrecord]

/-- A function of a description is read by the frame that its handle and its locals give it. -/
theorem frame_eq (hd : d.WellFormed) (hm : d.Filled m) {p : Procedure} (hp : d.AdmitsProcedure p) :
    ∃ name, Body.frame m p.handle p.locals =
      .ok ⟨m, name, d.signature p.handle, d.localCount p⟩ := by
  obtain ⟨e, he, hmem, hsignature⟩ := signatureOf_eq hd hm hp.handle
  obtain ⟨name, hname⟩ := (hd.dataClosed hm).functionName hmem
  have hlocals := List.getElem?_eq_getElem hp.locals
  obtain ⟨l, hl, hrecord⟩ := Pool.get_of_records hm.localSignatures hlocals
  have hcount : l.record.length = d.localCount p := by
    simp [localCount, hlocals, hrecord]
  have hlength := (hd.items .localSignatures _ (List.getElem_mem hp.locals)).length
  refine ⟨name, Body.frame_eq_ok.mpr ⟨e, _, l, name, he, hsignature, hl, ?_, hname, ?_⟩⟩
  · rw [hrecord, Body.maxLocals]
    exact Nat.le_succ_of_le hlength
  · rw [hcount]

end Format.Description

end MoveBytecode
