import MoveBytecode.Proofs.Loading.Publication

/-!
# The constants of a published module

Publishing a module adds symbols and routines to the host and leaves the types that the host had
(`Host.Adds`); the routines have neither a prototype nor a class (`Analysis.bare_of_ofBytes`). Each
constant that takes up addresses has a symbol there (`Analysis.exists_symbolAt?`), and a text always takes
up one for the zero byte behind it (`Module.Loads.size_mapping_string`).
-/

namespace MoveBytecode

namespace Host

/-- A host to which symbols have been added, and routines without prototypes and classes, and no types. -/
structure Adds (h h' : Host) : Prop where
  types : h'.types = h.types
  symbols : ∀ symbol ∈ h.symbols, symbol ∈ h'.symbols
  routines : ∀ r ∈ h'.routines, r ∈ h.routines ∨ r.bare = r

/-- A host has nothing added to itself. -/
theorem Adds.refl (h : Host) : h.Adds h := ⟨rfl, fun _ hs => hs, fun _ hr => .inl hr⟩

/-- Adding goes on from one host to the next. -/
theorem Adds.trans {h h' h'' : Host} (k : h.Adds h') (l : h'.Adds h'') : h.Adds h'' where
  types := l.types.trans k.types
  symbols symbol hs := l.symbols symbol (k.symbols symbol hs)
  routines r hr := (l.routines r hr).elim (k.routines r) .inr

/-- Adding a symbol adds to a host. -/
theorem adds_addSymbol (h : Host) (kind : SymbolKind) (flags : Flags) (poolIndex : Int)
    (name : String) (address size : Int) (dataType : Option String) :
    h.Adds (h.addSymbol kind flags poolIndex name address size dataType).2 := by
  have hpush (symbol : Symbol) : ∀ s ∈ h.symbols, s ∈ h.symbols.push symbol :=
    fun _ hs => Array.mem_push.mpr (.inl hs)
  have hroutine {r : Routine} (hr : r.bare = r) :
      ∀ s ∈ h.routines.push r, s ∈ h.routines ∨ s.bare = s := by
    intro s hs
    rcases Array.mem_push.mp hs with hs | rfl
    · exact .inl hs
    · exact .inr hr
  unfold addSymbol
  cases kind with
  | «variable» => exact ⟨rfl, hpush _, fun _ hr => .inl hr⟩
  | function | pointer => exact ⟨rfl, hpush _, hroutine rfl⟩

/-- A symbol of a host is found at its address, or another one there. -/
theorem exists_symbolAt? {h : Host} {symbol : Symbol} (hs : symbol ∈ h.symbols) :
    ∃ found, h.symbolAt? symbol.address = some found := by
  have hsome : (h.symbolAt? symbol.address).isSome = true := by
    rw [symbolAt?, Array.find?_isSome]
    exact ⟨symbol, hs, by simp⟩
  exact Option.isSome_iff_exists.mp hsome

end Host

open Host

namespace Module

/-- Publishing a segment adds to a host. -/
theorem adds_publishSegment {name : String} {base stop : Int} {contents : List (Int × Bytes)}
    {h h' : Host} (hpublish : publishSegment name base stop contents h = .ok h') : h.Adds h' := by
  obtain ⟨segments, rfl⟩ := exists_segments_publishSegment hpublish
  exact ⟨rfl, fun _ hs => hs, fun _ hr => .inl hr⟩

/-- Publishing functions adds to a host. -/
theorem adds_publishCode {m : Module} {base stop : Int} {h h' : Host}
    (hpublish : m.publishCode base stop h = .ok h') : h.Adds h' := by
  obtain ⟨g, hg, hsegment⟩ := bind_eq_ok.mp hpublish
  refine (foldlM_invariant (I := h.Adds) (fun f _ k k' hstep hadds => ?_) hg (.refl h)).trans
    (adds_publishSegment hsegment)
  obtain ⟨name, -, hstep⟩ := bind_eq_ok.mp hstep
  obtain rfl := pure_eq_ok.mp hstep
  exact hadds.trans (adds_addSymbol k _ _ _ _ _ _ _)

/-- Publishing imports adds to a host. -/
theorem adds_publishImports {m : Module} {base stop : Int} {h h' : Host}
    (hpublish : m.publishImports base stop h = .ok h') : h.Adds h' := by
  obtain ⟨g, hg, hsegment⟩ := bind_eq_ok.mp hpublish
  refine (foldlM_invariant (I := h.Adds) (fun e _ k k' hstep hadds => ?_) hg (.refl h)).trans
    (adds_publishSegment hsegment)
  obtain ⟨name, -, hstep⟩ := bind_eq_ok.mp hstep
  obtain rfl := pure_eq_ok.mp hstep
  exact hadds.trans (adds_addSymbol k _ _ _ _ _ _ _)

/-- Publishing a constant adds to a host. -/
theorem adds_publishDatum (h : Host) (e : Entry Datum) : h.Adds (publishDatum h e) := by
  unfold publishDatum
  split
  · exact .refl h
  · exact adds_addSymbol h _ _ _ _ _ _ _

/-- A host that has a symbol for each of some constants that take up addresses. -/
def HasSymbols (h : Host) (entries : List (Entry Datum)) : Prop :=
  ∀ e ∈ entries, e.mapping.size ≠ 0 → ∃ symbol ∈ h.symbols, symbol.address = e.mapping.start

/-- The symbols of constants are still there when something is added. -/
theorem HasSymbols.of_adds {h h' : Host} {entries : List (Entry Datum)} (hs : HasSymbols h entries)
    (k : h.Adds h') : HasSymbols h' entries := by
  intro e he hsize
  obtain ⟨symbol, hsymbol, haddress⟩ := hs e he hsize
  exact ⟨symbol, k.symbols symbol hsymbol, haddress⟩

/-- Publishing constants adds to a host, which has their symbols then. -/
theorem publishData_spec {m : Module} {base stop : Int} {h h' : Host}
    (hpublish : m.publishData base stop h = .ok h') : h.Adds h' ∧ HasSymbols h' m.dataEntries := by
  have general (entries : List (Entry Datum)) (h : Host) :
      h.Adds (entries.foldl publishDatum h) ∧
        HasSymbols (entries.foldl publishDatum h) entries := by
    induction entries generalizing h with
    | nil => exact ⟨.refl h, fun _ he => absurd he List.not_mem_nil⟩
    | cons e rest ih =>
      obtain ⟨hadds, hsymbols⟩ := ih (publishDatum h e)
      refine ⟨(adds_publishDatum h e).trans hadds, fun e' he' hsize => ?_⟩
      rcases List.mem_cons.mp he' with rfl | he'
      · -- The symbol of the first constant is still there behind the others.
        obtain ⟨symbol, hsymbol, haddress⟩ :
            ∃ symbol ∈ (publishDatum h e').symbols, symbol.address = e'.mapping.start := by
          rw [publishDatum, if_neg hsize]
          exact ⟨_, Array.mem_push_self, rfl⟩
        exact ⟨symbol, hadds.symbols symbol hsymbol, haddress⟩
      · exact hsymbols e' he' hsize
  have hsegment := adds_publishSegment hpublish
  obtain ⟨hadds, hsymbols⟩ := general m.dataEntries h
  exact ⟨hadds.trans hsegment, hsymbols.of_adds hsegment⟩

/-- A module that is published adds a symbol for each constant to a host with the Move types. -/
theorem publish_spec {m : Module} {config : Config} {bounds : Bounds} {h h' : Host}
    (hpublish : m.publish config bounds h = .ok h') :
    h.withMoveTypes.Adds h' ∧ HasSymbols h' m.dataEntries := by
  obtain ⟨h₁, hdata, hpublish⟩ := bind_eq_ok.mp hpublish
  obtain ⟨h₂, hcode, himports⟩ := bind_eq_ok.mp hpublish
  obtain ⟨hadds, hsymbols⟩ := publishData_spec hdata
  have hrest := (adds_publishCode hcode).trans (adds_publishImports himports)
  exact ⟨hadds.trans hrest, hsymbols.of_adds hrest⟩

/-- A text of a loaded module takes up addresses, be it empty. -/
theorem Loads.size_mapping_string {config : Config} {data : Bytes} {m : Module}
    (h : Loads config data m) {e : Entry String} (he : e ∈ m.strings.toList) :
    e.mapping.size ≠ 0 := by
  obtain ⟨n, -, rfl⟩ := h.exists_decode
  have hstrings : (n.layOut config).1.strings = (n.mapData config.dataBase).1.strings := by
    simp only [layOut, mapImports, mapHandles, mapFunctions]
    split
    · rfl
    · rfl
  rw [hstrings, mapData] at he
  dsimp only at he
  rw [Pool.mapFrom_fst] at he
  obtain ⟨hsize, -, -⟩ := Entry.mapping_of_mem_placedFrom he
  rw [hsize, Datum.bytes, Array.size_push]
  omega

end Module

namespace Analysis

variable {config : Config} {data : Bytes} {a : Analysis}

/-- The types of an analysis are those that every host has, and the Move types. -/
theorem types_of_ofBytes (h : ofBytes config data = .ok a) :
    a.host.types = (TypeRegistry.new 64).withMoveTypes := by
  obtain ⟨bounds, hpublish⟩ := publish_of_ofBytes h
  exact (Module.publish_spec hpublish).1.types

/-- The routines of an analysis have neither prototypes nor classes. -/
theorem bare_of_ofBytes (h : ofBytes config data = .ok a) {n : Nat} {r : Routine}
    (hr : a.host.routine? n = some r) : r.bare = r := by
  obtain ⟨bounds, hpublish⟩ := publish_of_ofBytes h
  rcases (Module.publish_spec hpublish).1.routines r (Array.mem_of_getElem? hr) with hr | hr
  · exact absurd hr (Array.not_mem_empty r)
  · exact hr

/-- Each constant that takes up addresses has a symbol there. -/
theorem exists_symbolAt? (h : ofBytes config data = .ok a) {e : Entry Datum}
    (he : e ∈ a.owner.dataEntries) (hsize : e.mapping.size ≠ 0) :
    ∃ symbol, a.host.symbolAt? e.mapping.start = some symbol := by
  obtain ⟨bounds, hpublish⟩ := publish_of_ofBytes h
  obtain ⟨symbol, hsymbol, haddress⟩ := (Module.publish_spec hpublish).2 e he hsize
  rw [← haddress]
  exact Host.exists_symbolAt? hsymbol

end Analysis

end MoveBytecode
