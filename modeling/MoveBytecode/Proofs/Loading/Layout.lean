import Mathlib.Algebra.Ring.Int.Defs
import MoveBytecode.Proofs.Format.Assembly
import MoveBytecode.Proofs.Loading.CodeUnits
import MoveBytecode.Proofs.Loading.Payloads
import MoveBytecode.Proofs.Loading.Publication
import MoveBytecode.Proofs.Loading.Totality

/-!
# The layout of a loaded module

A load maps the constants one behind the other from the base of the data on, the bodies one behind the
other from the base of the code on, and each handle without a body to the slot of its position
(`Module.LaidOut`). It publishes one symbol for each constant that takes up addresses, each body and each
slot, in this order (`Module.symbols`). The module does not depend on the host, nor on whether there is
one (`Module.loaded_layout`).
-/

namespace MoveBytecode

/-! ## Entries one behind the other -/

namespace Entry

variable {α β : Type}

/-- Entries are placed one part behind the other. -/
theorem placedFrom_append (size : α → Nat) (base : Int) (first second : List (Entry α)) :
    placedFrom size base (first ++ second) = placedFrom size base first ++
      placedFrom size (base + ((first.map fun e => size e.record).sum : Nat)) second := by
  induction first generalizing base with
  | nil => simp [placedFrom]
  | cons e rest ih =>
    simp only [List.cons_append, placedFrom, ih, List.map_cons, List.sum_cons, Int.natCast_add,
      Int.add_assoc]

/-- Placing entries commutes with a change of their records, by whose sizes they are placed. -/
theorem placedFrom_map (size : β → Nat) (f : α → β) (base : Int) (entries : List (Entry α)) :
    placedFrom size base (entries.map (·.map f)) =
      (placedFrom (size ∘ f) base entries).map (·.map f) := by
  induction entries generalizing base with
  | nil => rfl
  | cons e rest ih =>
    simp only [List.map_cons, placedFrom, ih]
    rfl

/-- An entry starts behind the entries in front of it. -/
theorem mapping_of_getElem?_placedFrom {size : α → Nat} {base : Int} {entries : List (Entry α)}
    {k : Nat} {e : Entry α} (h : (placedFrom size base entries)[k]? = some e) :
    e.mapping.start =
      base + (((placedFrom size base entries).take k).map (·.mapping.size)).sum := by
  induction entries generalizing base k with
  | nil => simp [placedFrom] at h
  | cons a rest ih =>
    cases k with
    | zero =>
      obtain rfl := Option.some.inj h
      simp
    | succ k =>
      rw [placedFrom, List.getElem?_cons_succ] at h
      rw [ih h, placedFrom, List.take_succ_cons, List.map_cons, List.sum_cons, Int.add_assoc]

end Entry

namespace Module

/-! ## Places -/

/-- The constants of a mapped module are placed from the base on. -/
theorem dataEntries_mapData (m : Module) (base : Int) :
    (m.mapData base).1.dataEntries =
      Entry.placedFrom (fun d => d.bytes.size) base m.dataEntries := by
  simp only [mapData, dataEntries, Pool.mapFrom_fst, Pool.mapFrom_snd, Entry.placedFrom_append,
    Entry.placedFrom_map, List.map_map]
  rfl

/-- A module that is mapped as a configuration says: the constants and the bodies one behind the other,
the handles without a body at the slots of their positions. -/
structure LaidOut (config : Config) (data : Bytes) (m : Module) : Prop where
  /-- A constant starts behind those in front of it and takes up as many addresses as its payload in the
  file has bytes, a text one more. -/
  constants : ∀ (k : Nat) (e : Entry Datum), m.dataEntries[k]? = some e →
    e.mapping.start = config.dataBase + ((m.dataEntries.take k).map (·.mapping.size)).sum ∧
      ∃ payload : Bytes, e.StandsAs data payload ∧
        e.mapping.size = payload.size + e.record.trailing
  /-- A body starts behind those in front of it and takes up as many addresses as its instructions have
  bytes. -/
  functions : ∀ (k : Nat) (f : Entry FunctionDef), m.internalFunctions[k]? = some f →
    f.mapping.start = config.codeBase + ((m.internalFunctions.take k).map (·.mapping.size)).sum ∧
      f.mapping.size = (f.record.code.instructions.map Instruction.size).sum
  /-- A handle without a body has the slot of its position among those handles. -/
  slots : ∀ (n : Nat) (e : Entry FunctionHandle), m.externalHandles[n]? = some e →
    e.mapping = ⟨config.importsBase + n * config.pointerSize, config.pointerSize⟩

variable {config : Config} {data : Bytes} {m : Module}

/-- The constants of a loaded module are mapped one behind the other. -/
theorem Loads.exists_dataEntries (h : Loads config data m) : ∃ entries,
    m.dataEntries = Entry.placedFrom (fun d => d.bytes.size) config.dataBase entries := by
  obtain ⟨n, -, rfl⟩ := h.exists_decode
  exact ⟨n.dataEntries, by rw [dataEntries_layOut, dataEntries_mapData]⟩

/-- The functions of a loaded module are mapped one behind the other. -/
theorem Loads.exists_internalFunctions (h : Loads config data m) : ∃ functions,
    m.internalFunctions = Entry.placedFrom (·.code.size) config.codeBase functions := by
  obtain ⟨n, -, rfl⟩ := h.exists_decode
  exact ⟨n.internalFunctions, internalFunctions_layOut config n⟩

/-- A module that was loaded is laid out as its configuration says. -/
theorem Loads.laidOut (h : Loads config data m) : m.LaidOut config data where
  constants k e he := by
    obtain ⟨payload, hpayload⟩ := h.exists_payload (List.mem_of_getElem? he)
    obtain ⟨entries, hentries⟩ := h.exists_dataEntries
    rw [hentries] at he ⊢
    refine ⟨Entry.mapping_of_getElem?_placedFrom he, payload, hpayload, ?_⟩
    rw [(Entry.mapping_of_mem_placedFrom (List.mem_of_getElem? he)).1, hpayload.bytes_eq,
      Datum.size_image]
    rfl
  functions k f hf := by
    obtain ⟨functions, hfunctions⟩ := h.exists_internalFunctions
    rw [hfunctions] at hf ⊢
    refine ⟨Entry.mapping_of_getElem?_placedFrom hf, ?_⟩
    rw [(Entry.mapping_of_mem_placedFrom (List.mem_of_getElem? hf)).1, CodeUnit.size,
      Instruction.totalSize_eq_sum]
  slots n e he := by
    obtain ⟨i, hi, hmapping⟩ := h.mapping_of_external (List.mem_of_getElem? he)
    -- The numbers of the handles are distinct, so that the positions are the same.
    have hn : (m.externalHandles.map (·.index))[n]? = some e.index := by simp [he]
    obtain ⟨hlt, -⟩ := List.getElem?_eq_some_iff.mp hn
    obtain rfl : n = i :=
      (List.getElem?_inj hlt (nodup_externalHandles h.decoded.1.handles)).mp (hn.trans hi.symm)
    exact hmapping

/-! ## Symbols -/

/-- The symbol of a constant. -/
def datumSymbol (e : Entry Datum) : Symbol :=
  ⟨.variable, Symbol.noFlag, e.index, Symbol.defaultName .variable e.mapping.start, e.mapping.start,
    e.mapping.size, some (e.record.elementType ++ s!"[{e.mapping.size}]")⟩

/-- The symbol of a function with a body. -/
def bodySymbol (m : Module) (f : Entry FunctionDef) : Except Fault Symbol := do
  let name ← m.nameOf f.record
  return ⟨.function, Symbol.contiguous, f.index,
    Symbol.recordedName .function name f.mapping.start, f.mapping.start, f.mapping.size, none⟩

/-- The symbol of a handle without a body. -/
def importSymbol (m : Module) (e : Entry FunctionHandle) : Except Fault Symbol := do
  let name ← m.functionName e.record
  return ⟨.pointer, Symbol.imported, e.index,
    Symbol.recordedName .pointer name e.mapping.start, e.mapping.start, e.mapping.size, none⟩

/-- The symbols of a module: those of the constants that take up addresses, then those of the functions
with a body, then those of the handles without one. -/
def symbols (m : Module) : Except Fault (List Symbol) := do
  let functions ← m.internalFunctions.mapM m.bodySymbol
  let imports ← m.externalHandles.mapM m.importSymbol
  return (m.dataEntries.filter (·.mapping.size ≠ 0)).map datumSymbol ++ functions ++ imports

/-- Publishing a segment leaves the symbols of a host as they are. -/
theorem symbols_publishSegment {name : String} {base stop : Int} {contents : List (Int × Bytes)}
    {h h' : Host} (hpublish : publishSegment name base stop contents h = .ok h') :
    h'.symbols = h.symbols := by
  obtain ⟨segments, rfl⟩ := exists_segments_publishSegment hpublish
  rfl

/-- Publishing constants adds the symbols of those that take up addresses. -/
theorem symbols_publishData {base stop : Int} {h h' : Host}
    (hpublish : m.publishData base stop h = .ok h') : h'.symbols.toList = h.symbols.toList ++
      (m.dataEntries.filter (·.mapping.size ≠ 0)).map datumSymbol := by
  rw [symbols_publishSegment hpublish]
  clear hpublish
  induction m.dataEntries generalizing h with
  | nil => simp
  | cons e rest ih =>
    rw [List.foldl_cons, ih]
    by_cases hsize : e.mapping.size = 0
    · simp [publishDatum, hsize]
    · simp [publishDatum, hsize, Host.addSymbol, datumSymbol]

/-- Publishing functions adds their symbols. -/
theorem symbols_publishCode {base stop : Int} {h h' : Host}
    (hpublish : m.publishCode base stop h = .ok h') :
    ∃ functions, m.internalFunctions.mapM m.bodySymbol = .ok functions ∧
      h'.symbols.toList = h.symbols.toList ++ functions := by
  obtain ⟨g, hg, hsegment⟩ := bind_eq_ok.mp hpublish
  rw [symbols_publishSegment hsegment]
  obtain ⟨added, hadded, hsymbols⟩ := exists_mapM_of_foldlM (f := m.bodySymbol) (g := Array.push)
    (R := fun h symbols => h.symbols = symbols) (fun h f h' symbols hstep hh => by
      obtain ⟨name, hname, hstep⟩ := bind_eq_ok.mp hstep
      obtain rfl := pure_eq_ok.mp hstep
      exact ⟨_, bind_eq_ok.mpr ⟨name, hname, rfl⟩, hh ▸ rfl⟩) hg rfl
  refine ⟨added, hadded, ?_⟩
  rw [hsymbols, List.foldl_push_eq_append', Array.toList_append]

/-- Publishing imports adds the symbols of the handles without a body. -/
theorem symbols_publishImports {base stop : Int} {h h' : Host}
    (hpublish : m.publishImports base stop h = .ok h') :
    ∃ imports, m.externalHandles.mapM m.importSymbol = .ok imports ∧
      h'.symbols.toList = h.symbols.toList ++ imports := by
  obtain ⟨g, hg, hsegment⟩ := bind_eq_ok.mp hpublish
  rw [symbols_publishSegment hsegment]
  obtain ⟨added, hadded, hsymbols⟩ := exists_mapM_of_foldlM (f := m.importSymbol) (g := Array.push)
    (R := fun h symbols => h.symbols = symbols) (fun h e h' symbols hstep hh => by
      obtain ⟨name, hname, hstep⟩ := bind_eq_ok.mp hstep
      obtain rfl := pure_eq_ok.mp hstep
      exact ⟨_, bind_eq_ok.mpr ⟨name, hname, rfl⟩, hh ▸ rfl⟩) hg rfl
  refine ⟨added, hadded, ?_⟩
  rw [hsymbols, List.foldl_push_eq_append', Array.toList_append]

/-- Publishing a module adds its symbols. -/
theorem symbols_publish {bounds : Bounds} {h h' : Host}
    (hpublish : m.publish config bounds h = .ok h') :
    ∃ added, m.symbols = .ok added ∧ h'.symbols.toList = h.symbols.toList ++ added := by
  obtain ⟨h₁, hdata, hpublish⟩ := bind_eq_ok.mp hpublish
  obtain ⟨h₂, hcode, himports⟩ := bind_eq_ok.mp hpublish
  obtain ⟨functions, hfunctions, hsymbols⟩ := symbols_publishCode hcode
  obtain ⟨imports, himports, hsymbols'⟩ := symbols_publishImports himports
  refine ⟨_, bind_eq_ok.mpr ⟨functions, hfunctions, bind_eq_ok.mpr ⟨imports, himports, rfl⟩⟩, ?_⟩
  rw [hsymbols', hsymbols, symbols_publishData hdata, List.append_assoc, List.append_assoc,
    List.append_assoc]
  rfl

/-! ## Loads with and without a host -/

/-- What a decoded module is laid out to is loaded, whatever the host, and published to it. -/
theorem exists_loadInto (config : Config) {n : Module} (hn : decode data = .ok n) (host : Host) :
    load config data = .ok (n.layOut config).1 ∧
      ∃ host', (n.layOut config).1.publish config (n.layOut config).2 host = .ok host' ∧
        loadInto config data host = .ok ((n.layOut config).1, host') := by
  obtain ⟨listing, hlisting⟩ := answers_dump hn config
  have hclosed := ((decoded_of_decode hn).1.layOut config).closed
  obtain ⟨host', hhost'⟩ := answers_publish hclosed host
  refine ⟨?_, host', hhost', ?_⟩
  · exact bind_eq_ok.mpr ⟨n, hn, bind_eq_ok.mpr ⟨listing, hlisting, rfl⟩⟩
  · exact bind_eq_ok.mpr ⟨n, hn, bind_eq_ok.mpr ⟨listing, hlisting,
      bind_eq_ok.mpr ⟨host', hhost', rfl⟩⟩⟩

/-- A loaded module is mapped as the configuration says. It is what the binary is loaded to without a
host and with any host; a host gets the symbols of the module, and so a new one has exactly these. -/
theorem loaded_layout (h : Loads config data m) :
    m.LaidOut config data ∧ load config data = .ok m ∧
      ∃ added, m.symbols = .ok added ∧ ∀ host : Host, ∃ host' : Host,
        loadInto config data host = .ok (m, host') ∧
          host'.symbols.toList = host.symbols.toList ++ added := by
  have hlaidOut := h.laidOut
  obtain ⟨n, hn, rfl⟩ := h.exists_decode
  obtain ⟨hload, host', hpublish, -⟩ := exists_loadInto config hn .new
  obtain ⟨added, hadded, -⟩ := symbols_publish hpublish
  refine ⟨hlaidOut, hload, added, hadded, fun host => ?_⟩
  obtain ⟨-, host', hpublish, hload'⟩ := exists_loadInto config hn host
  obtain ⟨added', hadded', hsymbols⟩ := symbols_publish hpublish
  obtain rfl := Except.ok.inj (hadded.symm.trans hadded')
  exact ⟨host', hload', hsymbols⟩

/-- A library with an address, an empty byte array, one of two bytes, four texts of which one is empty
and one is not ASCII, two functions of one and three bytes, and a handle without a body. -/
def poolSample : Bytes :=
  Format.assemble .libra [
    ⟨.moduleHandles, [0, 0, 0, 1]⟩, ⟨.functionHandles, [0, 2, 0, 0, 2, 0, 1, 2, 0]⟩,
    ⟨.addressPool, List.replicate 32 7⟩, ⟨.bytearrayPool, [0, 2, 0xAB, 0xCD]⟩,
    ⟨.stringPool, [6, 0x3C, 0x53, 0x45, 0x4C, 0x46, 0x3E, 1, 0x4D, 2, 0xC3, 0xA9, 0]⟩,
    ⟨.functionSignatures, [2, 0, 0]⟩, ⟨.localSignatures, [3, 0]⟩,
    ⟨.functionDefs, [0, 0, 0, 0, 1, 0, 0x02] ++ [1, 0, 1, 0, 3, 0, 0x09, 0x01, 0x02]⟩]

/-- The sample has addresses from below zero on, and a host its symbols. -/
theorem poolSample_layout : ∃ m host' added,
    load { Config.standard with dataBase := -32 } poolSample = .ok m ∧
      m.LaidOut { Config.standard with dataBase := -32 } poolSample ∧
      loadInto { Config.standard with dataBase := -32 } poolSample .new = .ok (m, host') ∧
      m.symbols = .ok added ∧ host'.symbols.toList = added ∧
      added.map (fun s => (s.kind, s.address, s.size)) =
        [(.variable, -32, 32), (.variable, 0, 2), (.variable, 2, 7), (.variable, 9, 2),
          (.variable, 11, 3), (.variable, 14, 1), (.function, 0x10000000, 1),
          (.function, 0x10000001, 3), (.pointer, 0x20000000, 8)] := by
  have check : (load { Config.standard with dataBase := -32 } poolSample).toOption.any (fun m =>
      m.symbols.toOption.any fun added => decide (added.map (fun s => (s.kind, s.address, s.size)) =
        [(.variable, -32, 32), (.variable, 0, 2), (.variable, 2, 7), (.variable, 9, 2),
          (.variable, 11, 3), (.variable, 14, 1), (.function, 0x10000000, 1),
          (.function, 0x10000001, 3), (.pointer, 0x20000000, 8)])) = true := by
    decide +kernel
  obtain ⟨m, hload, hcheck⟩ := exists_of_any_toOption check
  obtain ⟨added, hadded, hplaces⟩ := exists_of_any_toOption hcheck
  obtain ⟨hlaidOut, -, added', hadded', hhost⟩ := loaded_layout (.inl hload)
  obtain rfl := Except.ok.inj (hadded.symm.trans hadded')
  obtain ⟨host', hloadInto, hsymbols⟩ := hhost .new
  exact ⟨m, host', added, hload, hlaidOut, hloadInto, hadded, hsymbols, of_decide_eq_true hplaces⟩

end Module

end MoveBytecode
