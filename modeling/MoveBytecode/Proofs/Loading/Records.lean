import Mathlib.Algebra.GroupWithZero.Nat
import MoveBytecode.Body
import MoveBytecode.Load.Layout
import MoveBytecode.Proofs.Loading.Lookups
import MoveBytecode.Proofs.Run

/-!
# Records apart from their places

Decoding fixes the records of a module and the layout fixes their addresses. `Pool.Same` and
`Module.SameRecords` say that two modules hold the same entries, addresses apart; look-ups, names and
signatures depend on nothing else, and laying a module out changes nothing else.
-/

namespace MoveBytecode

variable {α β : Type}

/-- An entry without its addresses: what was read from the file. -/
def Entry.unmapped (e : Entry α) : Entry α := { e with mapping := .unplaced }

/-- An entry has its record apart from its addresses. -/
@[simp] theorem Entry.record_unmapped (e : Entry α) : e.unmapped.record = e.record := rfl

/-- An entry has its number apart from its addresses. -/
@[simp] theorem Entry.index_unmapped (e : Entry α) : e.unmapped.index = e.index := rfl

/-- An entry has its place in the file apart from its addresses. -/
@[simp] theorem Entry.file_unmapped (e : Entry α) : e.unmapped.file = e.file := rfl

namespace Pool

/-- The entries of a pool without their addresses. -/
def unmapped (p : Pool α) : List (Entry α) := p.toList.map Entry.unmapped

/-- The records of a pool do not depend on the addresses of its entries. -/
theorem map_record_unmapped (p : Pool α) : p.unmapped.map (·.record) = p.records := by
  simp [unmapped, records]

/-- A pool has as many entries apart from their addresses. -/
@[simp] theorem length_unmapped (p : Pool α) : p.unmapped.length = p.size := by
  simp [unmapped, toList, size]

/-- Every entry of a pool has its position as its number. -/
def Indexed (p : Pool α) : Prop := ∀ (n : Nat) (e : Entry α), p.entries[n]? = some e → e.index = n

/-- An entry is found under its number. -/
theorem Indexed.get_index {p : Pool α} (h : p.Indexed) {e : Entry α} (he : e ∈ p.toList) :
    p.get e.index = .ok e := by
  obtain ⟨n, hn⟩ := List.mem_iff_getElem?.mp he
  rw [toList, Array.getElem?_toList] at hn
  rw [get_eq_ok_iff, h n e hn]
  exact ⟨Int.natCast_nonneg n, hn⟩

/-- An entry that is found in a pool is among its entries. -/
theorem mem_toList_of_get {p : Pool α} {index : Int} {e : Entry α} (h : p.get index = .ok e) :
    e ∈ p.toList := by
  obtain ⟨-, he⟩ := (get_eq_ok_iff p index e).mp h
  rw [toList, Array.mem_toList_iff]
  exact Array.mem_of_getElem? he

/-- In an empty pool every entry has its position as its number, as there is none. -/
theorem indexed_empty (name : String) : (empty name : Pool α).Indexed := by
  intro n e h
  simp [empty] at h

/-- In a pool with one more record every entry has its position as its number. -/
theorem Indexed.add {p : Pool α} (h : p.Indexed) (file : Extent) (record : α) :
    (p.add file record).Indexed := by
  intro n e he
  rw [Pool.add, Array.getElem?_push] at he
  split at he
  · rename_i hn
    obtain rfl := Option.some.inj he
    exact hn.symm
  · exact h n e he

/-- Two pools of the same name with the same entries, addresses apart. -/
def Same (p q : Pool α) : Prop := p.name = q.name ∧ p.unmapped = q.unmapped

/-- A pool is the same as itself. -/
theorem Same.refl (p : Pool α) : p.Same p := ⟨rfl, rfl⟩

/-- Being the same pool does not depend on the order. -/
theorem Same.symm {p q : Pool α} (h : p.Same q) : q.Same p := ⟨h.1.symm, h.2.symm⟩

/-- Being the same pool goes on from one pool to the next. -/
theorem Same.trans {p q r : Pool α} (h : p.Same q) (k : q.Same r) : p.Same r :=
  ⟨h.1.trans k.1, h.2.trans k.2⟩

/-- Pools that are the same have the same records. -/
theorem Same.records {p q : Pool α} (h : p.Same q) : p.records = q.records := by
  rw [← map_record_unmapped, ← map_record_unmapped, h.2]

/-- Pools that are the same agree. -/
theorem Same.agrees {p q : Pool α} (h : p.Same q) : p.Agrees q := ⟨h.1, h.records⟩

/-- Pools that are the same are equally large. -/
theorem Same.size_eq {p q : Pool α} (h : p.Same q) : p.size = q.size := by
  rw [← length_unmapped, ← length_unmapped, h.2]

/-- If in one of two pools that are the same every entry has its position as its number, so it is in the
other. -/
theorem Same.indexed {p q : Pool α} (h : p.Same q) (hp : p.Indexed) : q.Indexed := by
  intro n e he
  have hq : q.unmapped[n]? = some e.unmapped := by
    simp [unmapped, toList, he]
  rw [← h.2, unmapped, List.getElem?_map, Option.map_eq_some_iff] at hq
  obtain ⟨e', he', hee⟩ := hq
  rw [toList, Array.getElem?_toList] at he'
  rw [← e.index_unmapped, ← hee]
  exact hp n e' he'

/-- A look-up leads to a record of the pool. -/
theorem record_of_get {p : Pool α} {index : Int} {e : Entry α} (h : p.get index = .ok e) :
    0 ≤ index ∧ p.records[index.toNat]? = some e.record := by
  obtain ⟨h0, h⟩ := (get_eq_ok_iff p index e).mp h
  exact ⟨h0, by rw [getElem?_records, h]; rfl⟩

/-- A look-up finds the record that stands at the place. -/
theorem get_of_records {p : Pool α} {l : List α} {index : Nat} {a : α} (h : p.records = l)
    (ha : l[index]? = some a) : ∃ e, p.get index = .ok e ∧ e.record = a := by
  rw [← h, getElem?_records, Option.map_eq_some_iff] at ha
  obtain ⟨e, he, hrecord⟩ := ha
  exact ⟨e, (get_eq_ok_iff p index e).mpr ⟨Int.natCast_nonneg index, he⟩, hrecord⟩

/-- A number below the size of a pool leads to an entry. -/
theorem exists_get {p : Pool α} {index : Int} (h0 : 0 ≤ index) (h : index < p.size) :
    ∃ e, p.get index = .ok e ∧ e.record ∈ p.records := by
  obtain ⟨e, he⟩ := (exists_get_iff p index).mpr (by simp [containsIndex, h0, h])
  exact ⟨e, he, List.mem_of_getElem? (record_of_get he).2⟩

/-- Pools that are the same find entries with the same record. -/
theorem Same.get {p q : Pool α} (h : p.Same q) {index : Int} {e : Entry α}
    (he : p.get index = .ok e) : ∃ e', q.get index = .ok e' ∧ e'.record = e.record := by
  have := h.agrees.get_bind index Except.ok
  rw [he, eq_comm] at this
  exact bind_eq_ok.mp this |>.imp fun e' h' => ⟨h'.1, Except.ok.inj h'.2⟩

/-- A pool is the same when an entry is mapped anew. -/
theorem same_remap (p : Pool α) (index : Nat) (mapping : Extent) : (p.remap index mapping).Same p := by
  refine ⟨rfl, List.ext_getElem? fun n => ?_⟩
  simp only [unmapped, toList, remap, List.getElem?_map, Array.getElem?_toList,
    Array.getElem?_modify]
  split
  · cases p.entries[n]? <;> rfl
  · rfl

end Pool

/-! ## Places -/

namespace Entry

/-- The entries one behind the other from `base` on. -/
def placedFrom (size : α → Nat) (base : Int) : List (Entry α) → List (Entry α)
  | [] => []
  | e :: rest =>
    { e with mapping := ⟨base, size e.record⟩ } :: placedFrom size (base + size e.record) rest

/-- Mapping entries places them, and ends behind all of them. -/
theorem mapFrom_eq (size : α → Nat) (base : Int) (entries : List (Entry α)) :
    mapFrom size base entries = ((placedFrom size base entries).toArray,
      base + ((entries.map fun e => size e.record).sum : Nat)) := by
  have general : ∀ (done : Array (Entry α)) (base : Int),
      entries.foldl (fun (placed : Array (Entry α) × Int) e =>
        let bytes := size e.record
        (placed.1.push { e with mapping := ⟨placed.2, bytes⟩ }, placed.2 + bytes)) (done, base) =
      (done ++ (placedFrom size base entries).toArray,
        base + ((entries.map fun e => size e.record).sum : Nat)) := by
    induction entries with
    | nil => simp [placedFrom]
    | cons e rest ih =>
      intro done base
      rw [List.foldl_cons, ih]
      simp only [placedFrom, List.map_cons, List.sum_cons, Prod.mk.injEq]
      refine ⟨?_, by omega⟩
      apply Array.ext'
      simp
  have hempty := general #[] base
  rw [Array.empty_append] at hempty
  exact hempty

/-- Entries that are placed are the same apart from their addresses. -/
theorem map_unmapped_placedFrom (size : α → Nat) (base : Int) (entries : List (Entry α)) :
    (placedFrom size base entries).map unmapped = entries.map unmapped := by
  induction entries generalizing base with
  | nil => rfl
  | cons e rest ih =>
    rw [placedFrom, List.map_cons, ih, List.map_cons]
    rfl

/-- Entries that are placed have the same records. -/
theorem map_record_placedFrom (size : α → Nat) (base : Int) (entries : List (Entry α)) :
    (placedFrom size base entries).map (·.record) = entries.map (·.record) := by
  have := congrArg (List.map (·.record)) (map_unmapped_placedFrom size base entries)
  simpa [Function.comp_def] using this

/-- A placed entry has as many addresses as its record needs, between the base and the end. -/
theorem mapping_of_mem_placedFrom {size : α → Nat} {base : Int} {entries : List (Entry α)}
    {e : Entry α} (h : e ∈ placedFrom size base entries) :
    e.mapping.size = size e.record ∧ base ≤ e.mapping.start ∧
      e.mapping.stop ≤ base + ((entries.map fun e => size e.record).sum : Nat) := by
  induction entries generalizing base with
  | nil => simp [placedFrom] at h
  | cons a rest ih =>
    simp only [placedFrom, List.mem_cons, List.map_cons, List.sum_cons] at h ⊢
    rcases h with rfl | h
    · exact ⟨rfl, Int.le_refl _, by simp only [Extent.stop]; omega⟩
    · obtain ⟨h1, h2, h3⟩ := ih h
      exact ⟨h1, by omega, by omega⟩

/-- Placed entries follow each other. -/
theorem pairwise_placedFrom (size : α → Nat) (base : Int) (entries : List (Entry α)) :
    (placedFrom size base entries).Pairwise fun e e' => e.mapping.stop ≤ e'.mapping.start := by
  induction entries generalizing base with
  | nil => exact .nil
  | cons a rest ih =>
    exact .cons (fun e he => (mapping_of_mem_placedFrom he).2.1) (ih _)

end Entry

/-- A pool that is mapped has its entries placed one behind the other. -/
theorem Pool.mapFrom_fst (size : α → Nat) (base : Int) (p : Pool α) :
    (p.mapFrom size base).1.toList = Entry.placedFrom size base p.toList := by
  simp [Pool.mapFrom, Entry.mapFrom_eq, Pool.toList]

/-- A pool that is mapped is the same pool. -/
theorem Pool.same_mapFrom (size : α → Nat) (base : Int) (p : Pool α) :
    (p.mapFrom size base).1.Same p := by
  refine ⟨rfl, ?_⟩
  rw [Pool.unmapped, Pool.mapFrom_fst, Entry.map_unmapped_placedFrom]
  rfl

namespace Module

/-- Two modules with the same records in every table without code. -/
structure SameRecords (m n : Module) : Prop where
  moduleHandles : m.moduleHandles.Same n.moduleHandles
  structHandles : m.structHandles.Same n.structHandles
  functionHandles : m.functionHandles.Same n.functionHandles
  addresses : m.addresses.Same n.addresses
  bytearrays : m.bytearrays.Same n.bytearrays
  strings : m.strings.Same n.strings
  typeSignatures : m.typeSignatures.Same n.typeSignatures
  functionSignatures : m.functionSignatures.Same n.functionSignatures
  localSignatures : m.localSignatures.Same n.localSignatures
  structDefs : m.structDefs.Same n.structDefs
  fieldDefs : m.fieldDefs.Same n.fieldDefs

namespace SameRecords

variable {m n o : Module}

/-- A module has the same records as itself. -/
theorem refl (m : Module) : m.SameRecords m :=
  ⟨.refl _, .refl _, .refl _, .refl _, .refl _, .refl _, .refl _, .refl _, .refl _, .refl _,
    .refl _⟩

/-- Having the same records does not depend on the order. -/
theorem symm (h : m.SameRecords n) : n.SameRecords m :=
  ⟨h.moduleHandles.symm, h.structHandles.symm, h.functionHandles.symm, h.addresses.symm,
    h.bytearrays.symm, h.strings.symm, h.typeSignatures.symm, h.functionSignatures.symm,
    h.localSignatures.symm, h.structDefs.symm, h.fieldDefs.symm⟩

/-- Having the same records goes on from one module to the next. -/
theorem trans (h : m.SameRecords n) (k : n.SameRecords o) : m.SameRecords o :=
  ⟨h.moduleHandles.trans k.moduleHandles, h.structHandles.trans k.structHandles,
    h.functionHandles.trans k.functionHandles, h.addresses.trans k.addresses,
    h.bytearrays.trans k.bytearrays, h.strings.trans k.strings,
    h.typeSignatures.trans k.typeSignatures, h.functionSignatures.trans k.functionSignatures,
    h.localSignatures.trans k.localSignatures, h.structDefs.trans k.structDefs,
    h.fieldDefs.trans k.fieldDefs⟩

/-- Modules with the same records agree. -/
theorem agrees (h : m.SameRecords n) : m.Agrees n :=
  ⟨h.moduleHandles.agrees, h.structHandles.agrees, h.functionHandles.agrees, h.addresses.agrees,
    h.bytearrays.agrees, h.strings.agrees, h.typeSignatures.agrees, h.functionSignatures.agrees,
    h.localSignatures.agrees, h.structDefs.agrees, h.fieldDefs.agrees⟩

end SameRecords

end Module

namespace Body.Frame

variable {f : Frame} {n : Module}

/-- What a body is read by, with the same records in another module. -/
theorem checkOperand_withOwner (h : f.owner.SameRecords n) (opcode : Opcode) (o : Operand) :
    checkOperand { f with owner := n } opcode o = checkOperand f opcode o := by
  rw [checkOperand_of_agrees (f := f) (g := { f with owner := n }) h.agrees rfl]

/-- The effect of an instruction on the stack is the same in a module with the same records. -/
theorem stackEffect_withOwner (h : f.owner.SameRecords n) (i : Instruction) :
    stackEffect { f with owner := n } i = stackEffect f i := by
  rw [stackEffect_of_agrees (f := f) (g := { f with owner := n }) h.agrees rfl]

end Body.Frame

/-- The frame of a function is what its handle, its signature and its locals say. -/
theorem Body.frame_eq_ok {m : Module} {handle locals : Nat} {f : Body.Frame} :
    frame m handle locals = .ok f ↔ ∃ h signature localTypes name,
      m.functionHandles.get handle = .ok h ∧ m.signatureOf h.record = .ok signature ∧
        m.localSignatures.get locals = .ok localTypes ∧ localTypes.record.length ≤ maxLocals ∧
        m.functionName h.record = .ok name ∧ f = ⟨m, name, signature, localTypes.record.length⟩ := by
  have hcheck : ∀ n : Nat, checkLocals n = .ok () ↔ n ≤ maxLocals := by
    intro n
    unfold checkLocals
    split <;> simp <;> omega
  simp only [frame, bind_eq_ok, pure_eq_ok]
  constructor
  · rintro ⟨h, hh, signature, hs, localTypes, hl, ⟨⟩, hcount, name, hname, rfl⟩
    exact ⟨h, signature, localTypes, name, hh, hs, hl, (hcheck _).mp hcount, hname, rfl⟩
  · rintro ⟨h, signature, localTypes, name, hh, hs, hl, hcount, hname, rfl⟩
    exact ⟨h, hh, signature, hs, localTypes, hl, (), (hcheck _).mpr hcount, name, hname, rfl⟩

/-- The frame of a function in a module with the same records. -/
theorem Body.frame_withOwner {m n : Module} {handle locals : Nat} {f : Body.Frame}
    (h : m.SameRecords n) (hf : frame m handle locals = .ok f) :
    f.owner = m ∧ frame n handle locals = .ok { f with owner := n } := by
  obtain ⟨e, signature, localTypes, name, he, hs, hl, hcount, hname, rfl⟩ := frame_eq_ok.mp hf
  obtain ⟨e', he', hrecord⟩ := h.functionHandles.get he
  obtain ⟨localTypes', hl', hlocals⟩ := h.localSignatures.get hl
  refine ⟨rfl, frame_eq_ok.mpr ⟨e', signature, localTypes', name, he', ?_, hl', ?_, ?_, ?_⟩⟩
  · rw [hrecord, ← h.agrees.signatureOf, hs]
  · rw [hlocals]
    exact hcount
  · rw [hrecord, ← h.agrees.functionName, hname]
  · rw [hlocals]

/-! ## The layout -/

namespace Module

/-- Mapping the constants changes no record. -/
theorem sameRecords_mapData (m : Module) (base : Int) : (m.mapData base).1.SameRecords m :=
  { SameRecords.refl m with
    addresses := Pool.same_mapFrom (fun v => (Datum.address v).bytes.size) _ m.addresses
    bytearrays := Pool.same_mapFrom (fun v => (Datum.bytearray v).bytes.size) _ m.bytearrays
    strings := Pool.same_mapFrom (fun v => (Datum.text v).bytes.size) _ m.strings }

/-- Mapping the functions changes no record of a table without code. -/
theorem sameRecords_mapFunctions (m : Module) (base : Int) :
    (m.mapFunctions base).1.SameRecords m := by
  unfold mapFunctions
  split
  · exact { SameRecords.refl m with }
  · exact { SameRecords.refl m with }

/-- Mapping handles anew leaves their pool the same. -/
theorem same_foldl_remap (fs : List (Entry FunctionDef)) (p : Pool FunctionHandle) :
    (fs.foldl (fun pool f => pool.remap f.record.handle f.mapping) p).Same p := by
  induction fs generalizing p with
  | nil => exact .refl p
  | cons f rest ih => exact (ih _).trans (Pool.same_remap p _ _)

/-- Giving handles the mappings of their functions changes no record. -/
theorem sameRecords_mapHandles (m : Module) : m.mapHandles.SameRecords m :=
  { SameRecords.refl m with functionHandles := same_foldl_remap _ _ }

/-- Giving slots to handles changes no record. -/
theorem sameRecords_mapImports (m : Module) (base size : Int) :
    (m.mapImports base size).1.SameRecords m := by
  have general : ∀ (hs : List (Entry FunctionHandle)) (p : Pool FunctionHandle) (base : Int),
      (hs.foldl (fun laid h => (laid.1.remap h.index ⟨laid.2, size⟩, laid.2 + size))
        (p, base)).1.Same p := by
    intro hs
    induction hs with
    | nil => exact fun p _ => .refl p
    | cons h rest ih => exact fun p base => (ih _ _).trans (Pool.same_remap p _ _)
  exact { SameRecords.refl m with functionHandles := general _ _ _ }

/-- Laying a module out changes no record. -/
theorem sameRecords_layOut (config : Config) (m : Module) :
    (m.layOut config).1.SameRecords m := by
  have h := (sameRecords_mapImports _ config.importsBase config.pointerSize).trans
    ((sameRecords_mapHandles _).trans
      ((sameRecords_mapFunctions _ config.codeBase).trans (sameRecords_mapData m config.dataBase)))
  exact { h with }

/-- Mapping the functions places those with a body one behind the other. -/
theorem internalFunctions_mapFunctions (m : Module) (base : Int) :
    (m.mapFunctions base).1.internalFunctions =
      Entry.placedFrom (·.code.size) base m.internalFunctions := by
  cases hm : m.main with
  | some main => simp only [mapFunctions, internalFunctions, hm, Entry.placedFrom]
  | none =>
    simp only [mapFunctions, internalFunctions, hm]
    exact Pool.mapFrom_fst _ _ _

/-- The functions of a module that has been laid out are those of the module, each at addresses of
its own. -/
theorem internalFunctions_layOut (config : Config) (m : Module) :
    (m.layOut config).1.internalFunctions =
      Entry.placedFrom (·.code.size) config.codeBase m.internalFunctions :=
  internalFunctions_mapFunctions (m.mapData config.dataBase).1 config.codeBase

/-- Laying a module out leaves its data as they are. -/
@[simp] theorem data_layOut (config : Config) (m : Module) :
    (m.layOut config).1.data = m.data := by
  simp only [layOut, mapImports, mapHandles, mapFunctions, mapData]
  split <;> rfl

end Module

end MoveBytecode
