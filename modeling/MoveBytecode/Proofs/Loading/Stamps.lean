import MoveBytecode.Proofs.Format.Assembly
import MoveBytecode.Proofs.Loading.Addresses
import MoveBytecode.Proofs.Loading.Layout

/-!
# The stamps of a layout

A layout gives places to entries one after the other: the constants, the functions with a body, the
handle of each of these functions, the handles without one. `Module.stamps` lists what it gives to which
entry, and the laid out module is the decoded one with all of that applied in order. Everything but a
handle is given one place. A handle is given the place of every function that has it, and the last one
stays. Nothing keeps two definitions from having the same handle, so that an entry is given two
different places as soon as two functions share one and there is an instruction between the start of the
first and the end of the second, which `Module.HandlesApart` excludes.
-/

namespace MoveBytecode

/-! ## Entries that are given places -/

section

variable {α : Type}

/-- The place that a number is given last. -/
def placeOf : List (Nat × Extent) → Nat → Option Extent
  | [], _ => none
  | (k, place) :: rest, n => (placeOf rest n).or (if k = n then some place else none)

/-- A number is given no place iff none is given to it. -/
theorem placeOf_eq_none_iff {places : List (Nat × Extent)} {n : Nat} :
    placeOf places n = none ↔ ∀ place, (n, place) ∉ places := by
  induction places with
  | nil => simp [placeOf]
  | cons first rest ih =>
    obtain ⟨k, place⟩ := first
    rw [placeOf, Option.or_eq_none_iff, ih]
    by_cases hk : k = n
    · subst hk
      exact ⟨fun h => absurd h.2 (by simp), fun h => absurd List.mem_cons_self (h place)⟩
    · simp [hk, Ne.symm hk]

/-- The last place of a number stands at some position, and at no later one there is another. -/
theorem exists_last_of_placeOf {places : List (Nat × Extent)} {n : Nat} {place : Extent}
    (h : placeOf places n = some place) : ∃ k : Nat, places[k]? = some (n, place) ∧
      ∀ (l : Nat) place', k < l → places[l]? ≠ some (n, place') := by
  induction places with
  | nil => simp [placeOf] at h
  | cons first rest ih =>
    obtain ⟨k, place₁⟩ := first
    rw [placeOf] at h
    -- A place further on for the same number goes before the first one.
    cases hrest : placeOf rest n with
    | some place₂ =>
      rw [hrest, Option.some_or] at h
      obtain ⟨k, hk, hlast⟩ := ih (hrest.trans h)
      refine ⟨k + 1, hk, fun l place' hl => ?_⟩
      obtain ⟨l, rfl⟩ := Nat.exists_eq_add_of_lt (Nat.zero_lt_of_lt hl)
      rw [Nat.zero_add, List.getElem?_cons_succ]
      exact hlast l place' (by omega)
    | none =>
      rw [hrest, Option.none_or] at h
      split at h
      · rename_i hk
        refine ⟨0, by rw [List.getElem?_cons_zero, hk, Option.some.inj h], fun l place' hl hat => ?_⟩
        obtain ⟨l, rfl⟩ := Nat.exists_eq_add_of_lt hl
        rw [Nat.zero_add, List.getElem?_cons_succ] at hat
        exact placeOf_eq_none_iff.mp hrest place' (List.mem_of_getElem? hat)
      · exact absurd h (by simp)

namespace Pool

/-- An entry has the last place that it is given, or keeps its own if it is given none. -/
theorem getElem?_remapAll (p : Pool α) (places : List (Nat × Extent)) (n : Nat) :
    (p.remapAll places).entries[n]? = p.entries[n]?.map fun e =>
      { e with mapping := (placeOf places n).getD e.mapping } := by
  induction places generalizing p with
  | nil => simp [remapAll, placeOf]
  | cons first rest ih =>
    obtain ⟨k, place⟩ := first
    have hcons : p.remapAll ((k, place) :: rest) = (p.remap k place).remapAll rest := rfl
    rw [hcons, ih, getElem?_remap, placeOf]
    by_cases hk : k = n
    · rw [if_pos hk, if_pos hk, Option.map_map]
      cases placeOf rest n <;> rfl
    · rw [if_neg hk, if_neg hk, Option.or_none]

/-- The places one behind the other from `base` on for entries that stand from position `first` on. -/
def placesFrom (size : α → Nat) (base : Int) (first : Nat) : List (Entry α) → List (Nat × Extent)
  | [] => []
  | e :: rest =>
    (first, ⟨base, size e.record⟩) :: placesFrom size (base + size e.record) (first + 1) rest

/-- The places from a position on are given to the positions one after the other. -/
theorem map_fst_placesFrom (size : α → Nat) (base : Int) (first : Nat) (entries : List (Entry α)) :
    (placesFrom size base first entries).map Prod.fst = List.range' first entries.length := by
  induction entries generalizing base first with
  | nil => rfl
  | cons e rest ih => rw [placesFrom, List.map_cons, ih, List.length_cons, List.range'_succ]

/-- Mapping the entry behind the first ones changes this entry only. -/
theorem remap_append_cons (name : String) (front rest : List (Entry α)) (e : Entry α)
    (mapping : Extent) :
    Pool.remap ⟨name, (front ++ e :: rest).toArray⟩ front.length mapping =
      ⟨name, (front ++ { e with mapping } :: rest).toArray⟩ := by
  rw [remap, List.modify_toArray, List.modify_eq_take_cons_drop (by simp)]
  simp

/-- Giving each entry its place behind the ones in front of it maps the pool. -/
theorem remapAll_placesFrom (size : α → Nat) (base : Int) (p : Pool α) :
    p.remapAll (placesFrom size base 0 p.toList) = (p.mapFrom size base).1 := by
  have general : ∀ (rest front : List (Entry α)) (base : Int),
      Pool.remapAll ⟨p.name, (front ++ rest).toArray⟩ (placesFrom size base front.length rest) =
        ⟨p.name, (front ++ Entry.placedFrom size base rest).toArray⟩ := by
    intro rest
    induction rest with
    | nil => exact fun _ _ => rfl
    | cons e rest ih =>
      intro front base
      have hstep := ih (front ++ [{ e with mapping := ⟨base, size e.record⟩ }]) (base + size e.record)
      simp only [List.append_assoc, List.singleton_append, List.length_append, List.length_singleton]
        at hstep
      rw [← remap_append_cons] at hstep
      exact hstep
  have hp := general p.toList [] base
  rw [mapFrom, Entry.mapFrom_eq]
  exact hp

end Pool

end

namespace Module

/-! ## Stamps -/

/-- An entry that a layout maps, by its position in its pool. -/
inductive Target where
  | address (k : Nat)
  | bytearray (k : Nat)
  | text (k : Nat)
  | function (k : Nat)
  | handle (k : Nat)
  deriving DecidableEq

/-- The place that a layout gives to an entry. -/
structure Stamp where
  target : Target
  mapping : Extent
  deriving DecidableEq

/-- The module with an entry at the place that it is given; a script has no function but `main`. -/
def stamp (m : Module) (s : Stamp) : Module :=
  match s.target with
  | .address k => { m with addresses := m.addresses.remap k s.mapping }
  | .bytearray k => { m with bytearrays := m.bytearrays.remap k s.mapping }
  | .text k => { m with strings := m.strings.remap k s.mapping }
  | .function k =>
    match m.main with
    | some main => { m with main := some { main with mapping := s.mapping } }
    | none => { m with functionDefs := m.functionDefs.remap k s.mapping }
  | .handle k => { m with functionHandles := m.functionHandles.remap k s.mapping }

/-- Stamps of entries of one kind. -/
def stampsOf (target : Nat → Target) (places : List (Nat × Extent)) : List Stamp :=
  places.map fun place => ⟨target place.1, place.2⟩

/-- The stamps of the constants from `base` on. -/
def dataStamps (m : Module) (base : Int) : List Stamp :=
  let (addresses, bytearrays, texts) :=
    (fun v => (Datum.address v).bytes.size, fun v => (Datum.bytearray v).bytes.size,
      fun v => (Datum.text v).bytes.size)
  let next := (m.addresses.mapFrom addresses base).2
  let last := (m.bytearrays.mapFrom bytearrays next).2
  stampsOf .address (Pool.placesFrom addresses base 0 m.addresses.toList) ++
    (stampsOf .bytearray (Pool.placesFrom bytearrays next 0 m.bytearrays.toList) ++
      stampsOf .text (Pool.placesFrom texts last 0 m.strings.toList))

/-- The stamps of the functions with a body from `base` on. -/
def functionStamps (m : Module) (base : Int) : List Stamp :=
  stampsOf .function (Pool.placesFrom (·.code.size) base 0 m.internalFunctions)

/-- The handle and the place of each function with a body. -/
def handlePlaces (m : Module) : List (Nat × Extent) :=
  m.internalFunctions.map fun f => (f.record.handle, f.mapping)

/-- The stamps of the handles of these functions. -/
def handleStamps (m : Module) : List Stamp := stampsOf .handle m.handlePlaces

/-- The stamps of the handles without a body. -/
def importStamps (m : Module) (base size : Int) : List Stamp :=
  stampsOf .handle (slots base size m.externalHandles)

/-- The stamps of a layout in their order. -/
def stamps (config : Config) (n : Module) : List Stamp :=
  let placed := (n.mapData config.dataBase).1
  let mapped := (placed.mapFunctions config.codeBase).1
  n.dataStamps config.dataBase ++ (placed.functionStamps config.codeBase ++ (mapped.handleStamps ++
    mapped.mapHandles.importStamps config.importsBase config.pointerSize))

/-! ## The layout applies its stamps -/

/-- Stamps of one pool map its entries. -/
theorem foldl_stamp_stampsOf {α : Type} (target : Nat → Target) (set : Pool α → Module)
    (hset : ∀ p k mapping, (set p).stamp ⟨target k, mapping⟩ = set (p.remap k mapping))
    (places : List (Nat × Extent)) (p : Pool α) :
    (stampsOf target places).foldl stamp (set p) = set (p.remapAll places) := by
  induction places generalizing p with
  | nil => rfl
  | cons place rest ih =>
    rw [stampsOf, List.map_cons, List.foldl_cons, hset]
    exact ih _

/-- Stamping the constants maps them. -/
theorem foldl_dataStamps (m : Module) (base : Int) :
    (m.dataStamps base).foldl stamp m = (m.mapData base).1 := by
  have haddresses := foldl_stamp_stampsOf .address (fun addresses => { m with addresses })
    fun _ _ _ => rfl
  have hbytearrays (addresses) := foldl_stamp_stampsOf .bytearray
    (fun bytearrays => { m with addresses, bytearrays }) fun _ _ _ => rfl
  have htexts (addresses) (bytearrays) := foldl_stamp_stampsOf .text
    (fun strings => { m with addresses, bytearrays, strings }) fun _ _ _ => rfl
  rw [dataStamps, List.foldl_append, List.foldl_append, haddresses _ m.addresses,
    hbytearrays _ _ m.bytearrays, htexts _ _ _ m.strings, Pool.remapAll_placesFrom,
    Pool.remapAll_placesFrom, Pool.remapAll_placesFrom]
  rfl

/-- Stamping the functions maps them. -/
theorem foldl_functionStamps (m : Module) (base : Int) :
    (m.functionStamps base).foldl stamp m = (m.mapFunctions base).1 := by
  unfold functionStamps internalFunctions mapFunctions
  cases hmain : m.main with
  | some main => simp [stampsOf, Pool.placesFrom, stamp, hmain]
  | none =>
    have hfunctions := foldl_stamp_stampsOf .function (fun functionDefs => { m with functionDefs })
      fun _ _ _ => by simp [stamp, hmain]
    rw [hfunctions _ m.functionDefs, Pool.remapAll_placesFrom]
    simp only [hmain]

/-- Stamping the handles of functions gives them the mappings of their functions. -/
theorem foldl_handleStamps (m : Module) : m.handleStamps.foldl stamp m = m.mapHandles := by
  have hhandles := foldl_stamp_stampsOf .handle (fun functionHandles => { m with functionHandles })
    fun _ _ _ => rfl
  rw [handleStamps, hhandles _ m.functionHandles, handlePlaces, ← functionHandles_mapHandles]
  rfl

/-- Stamping the handles without a body gives them their slots. -/
theorem foldl_importStamps (m : Module) (base size : Int) :
    (m.importStamps base size).foldl stamp m = (m.mapImports base size).1 := by
  have hhandles := foldl_stamp_stampsOf .handle (fun functionHandles => { m with functionHandles })
    fun _ _ _ => rfl
  rw [importStamps, hhandles _ m.functionHandles, ← functionHandles_mapImports]
  rfl

/-- A layout gives the entries their places in the order of its stamps, and states the image. -/
theorem layOut_eq_foldl_stamp (config : Config) (n : Module) :
    (n.layOut config).1 =
      { (n.stamps config).foldl stamp n with info := (n.layOut config).1.info } := by
  simp only [stamps, List.foldl_append, foldl_dataStamps, foldl_functionStamps, foldl_handleStamps,
    foldl_importStamps]
  rfl

/-! ## Which entries are stamped -/

/-- The stamps of some places are those of their targets. -/
theorem mem_stampsOf {target : Nat → Target} {places : List (Nat × Extent)} {s : Stamp} :
    s ∈ stampsOf target places ↔ ∃ k, s.target = target k ∧ (k, s.mapping) ∈ places := by
  obtain ⟨t, mapping⟩ := s
  simp only [stampsOf, List.mem_map, Prod.exists, Stamp.mk.injEq]
  constructor
  · rintro ⟨k, place, hmem, rfl, rfl⟩
    exact ⟨k, rfl, hmem⟩
  · rintro ⟨k, rfl, hmem⟩
    exact ⟨k, mapping, hmem, rfl, rfl⟩

/-- Stamps of numbers that occur once are one for each entry. -/
theorem mapping_eq_of_nodup {places : List (Nat × Extent)} (h : (places.map Prod.fst).Nodup) {k : Nat}
    {place place' : Extent} (hmem : (k, place) ∈ places) (hmem' : (k, place') ∈ places) :
    place = place' :=
  congrArg Prod.snd (List.inj_on_of_nodup_map h hmem hmem' rfl)

/-- No position is given two places. -/
theorem nodup_placesFrom {α : Type} (size : α → Nat) (base : Int) (entries : List (Entry α)) :
    ((Pool.placesFrom size base 0 entries).map Prod.fst).Nodup := by
  rw [Pool.map_fst_placesFrom]
  exact List.nodup_range'

/-- No entry is given two different places. -/
def StampedOnce (l : List Stamp) : Prop := ∀ s ∈ l, ∀ t ∈ l, s.target = t.target → s.mapping = t.mapping

/-- Whether no entry is given two different places can be decided. -/
instance (l : List Stamp) : Decidable (StampedOnce l) :=
  inferInstanceAs (Decidable (∀ s ∈ l, ∀ t ∈ l, s.target = t.target → s.mapping = t.mapping))

/-- Where a handle is mapped. -/
def handlePlace? (m : Module) (handle : Nat) : Option Extent :=
  (m.functionHandles.get handle).toOption.map (·.mapping)

/-- The handle of every function with a body is mapped where the function is. -/
def HandlesAgree (m : Module) : Prop :=
  ∀ f ∈ m.internalFunctions, m.handlePlace? f.record.handle = some f.mapping

/-- Whether handles are mapped where their functions are can be decided. -/
instance (m : Module) : Decidable m.HandlesAgree :=
  inferInstanceAs (Decidable (∀ f ∈ m.internalFunctions, _ = _))

/-- The functions from number `k` to number `l` have no instructions. -/
def EmptyRun (m : Module) (k l : Nat) : Prop :=
  ∀ (j : Nat) (f : Entry FunctionDef), k ≤ j → j ≤ l → m.internalFunctions[j]? = some f →
    f.record.code.instructions = []

/-- Two functions have one handle only if they and all functions between them have no instructions. -/
def HandlesApart (m : Module) : Prop :=
  ∀ (k l : Nat) (f g : Entry FunctionDef), k < l → m.internalFunctions[k]? = some f →
    m.internalFunctions[l]? = some g → f.record.handle = g.record.handle → m.EmptyRun k l

/-- Two places that a layout gives to one entry are those of two functions with the same handle. -/
theorem exists_shared_of_mem_stamps {config : Config} {n : Module}
    (hindexed : n.functionHandles.Indexed) {s t : Stamp} (hs : s ∈ n.stamps config)
    (ht : t ∈ n.stamps config) (htarget : s.target = t.target) (hne : s.mapping ≠ t.mapping) :
    ∃ f ∈ (n.layOut config).1.internalFunctions, ∃ g ∈ (n.layOut config).1.internalFunctions,
      f.record.handle = g.record.handle ∧ s = ⟨.handle f.record.handle, f.mapping⟩ ∧
        t = ⟨.handle g.record.handle, g.mapping⟩ := by
  obtain ⟨target, place⟩ := s
  obtain ⟨target', place'⟩ := t
  obtain rfl : target = target' := htarget
  simp only [stamps, dataStamps, functionStamps, handleStamps, importStamps, List.mem_append,
    mem_stampsOf] at hs ht
  generalize hmapped : ((n.mapData config.dataBase).1.mapFunctions config.codeBase).1 = m at hs ht
  have hfunctions : (n.layOut config).1.internalFunctions = m.internalFunctions := by
    rw [← hmapped]
    rfl
  -- Only a handle may have two stamps, since all else is placed once.
  cases target with
  | address k | bytearray k | text k | function k =>
    simp only [reduceCtorEq, false_and, exists_false, or_false, false_or, Target.address.injEq,
      Target.bytearray.injEq, Target.text.injEq, Target.function.injEq, exists_eq_left'] at hs ht
    exact absurd (mapping_eq_of_nodup (nodup_placesFrom _ _ _) hs ht) hne
  | handle k =>
    simp only [reduceCtorEq, false_and, exists_false, false_or, Target.handle.injEq,
      exists_eq_left'] at hs ht
    have hhandles : m.mapHandles.functionHandles.Indexed := by
      rw [← hmapped]
      exact ((sameRecords_mapHandles _).trans ((sameRecords_mapFunctions _ _).trans
        (sameRecords_mapData n _))).functionHandles.symm.indexed hindexed
    have hslots := nodup_externalHandles hhandles
    rw [← map_fst_slots config.importsBase config.pointerSize] at hslots
    simp only [handlePlaces, List.mem_map, Prod.mk.injEq] at hs ht
    rw [hfunctions]
    -- A slot of an import is never on the handle of a function with a body.
    rcases hs with ⟨f, hf, rfl, rfl⟩ | hs <;> rcases ht with ⟨g, hg, hhandle, rfl⟩ | ht
    · exact ⟨f, hf, g, hg, hhandle.symm, rfl, by rw [hhandle]⟩
    · exact absurd ht (not_mem_slots (m := m.mapHandles) hf _)
    · exact absurd hs (hhandle ▸ not_mem_slots (m := m.mapHandles) hg _)
    · exact absurd (mapping_eq_of_nodup hslots hs ht) hne

/-- The handle of a function is given the place of the function. -/
theorem mem_stamps_of_internal {config : Config} {n : Module} {f : Entry FunctionDef}
    (hf : f ∈ (n.layOut config).1.internalFunctions) :
    ⟨.handle f.record.handle, f.mapping⟩ ∈ n.stamps config := by
  have hplaces : (f.record.handle, f.mapping) ∈
      ((n.mapData config.dataBase).1.mapFunctions config.codeBase).1.handlePlaces :=
    List.mem_map_of_mem (f := fun f => (f.record.handle, f.mapping)) hf
  simp only [stamps, List.mem_append]
  exact .inr (.inr (.inl (mem_stampsOf.mpr ⟨_, rfl, hplaces⟩)))

section

variable {config : Config} {data : Bytes} {m : Module}

/-! ## Functions at one place -/

/-- A function takes up no addresses iff it has no instructions. -/
theorem Loads.size_eq_zero_iff (h : Loads config data m) {f : Entry FunctionDef}
    (hf : f ∈ m.internalFunctions) : f.mapping.size = 0 ↔ f.record.code.instructions = [] := by
  rw [(h.mapping hf).1, Int.natCast_eq_zero, CodeUnit.size]
  obtain ⟨frame, hscanned⟩ := h.exists_scanned hf
  cases hcode : f.record.code.instructions with
  | nil => simp [Instruction.totalSize]
  | cons i rest =>
    rw [hcode] at hscanned
    have hlt := hscanned.offset_lt_totalSize (List.getElem?_cons_zero)
    simp only [reduceCtorEq, iff_false]
    omega

/-- A function starts where the one in front of it ends. -/
theorem Loads.start_succ (h : Loads config data m) {k : Nat} {f g : Entry FunctionDef}
    (hf : m.internalFunctions[k]? = some f) (hg : m.internalFunctions[k + 1]? = some g) :
    g.mapping.start = f.mapping.stop := by
  rw [(h.laidOut.functions (k + 1) g hg).1, Extent.stop, (h.laidOut.functions k f hf).1,
    List.take_add_one, hf]
  simp [Int.add_assoc]

/-- Functions that are mapped at one place have no instructions, nor have those between them. -/
theorem Loads.emptyRun_of_mapping_eq (h : Loads config data m) {k l : Nat} {f g : Entry FunctionDef}
    (hkl : k < l) (hf : m.internalFunctions[k]? = some f) (hg : m.internalFunctions[l]? = some g)
    (heq : f.mapping = g.mapping) : m.EmptyRun k l := by
  intro j o hkj hjl ho
  have hnonneg {o : Entry FunctionDef} (ho : o ∈ m.internalFunctions) : 0 ≤ o.mapping.size := by
    rw [(h.mapping ho).1]
    exact Int.natCast_nonneg _
  have hfsize := hnonneg (List.mem_of_getElem? hf)
  have hosize := hnonneg (List.mem_of_getElem? ho)
  have hfg := h.stop_le_start hkl hf hg
  rw [← h.size_eq_zero_iff (List.mem_of_getElem? ho)]
  rw [← heq] at hfg
  rcases Nat.eq_or_lt_of_le hkj with rfl | hkj
  · obtain rfl := Option.some.inj (hf.symm.trans ho)
    omega
  rcases Nat.eq_or_lt_of_le hjl with rfl | hjl
  · obtain rfl := Option.some.inj (hg.symm.trans ho)
    rw [← heq]
    omega
  -- A function in between is mapped between the two starts, which are the same.
  have hfo := h.stop_le_start hkj hf ho
  have hog := h.stop_le_start hjl ho hg
  rw [← heq] at hog
  omega

/-- A run of functions without instructions is mapped at one place. -/
theorem Loads.mapping_eq_of_emptyRun (h : Loads config data m) {k l : Nat} {f g : Entry FunctionDef}
    (hkl : k ≤ l) (hf : m.internalFunctions[k]? = some f) (hg : m.internalFunctions[l]? = some g)
    (hempty : m.EmptyRun k l) : f.mapping = g.mapping := by
  induction l, hkl using Nat.le_induction generalizing g with
  | base => rw [Option.some.inj (hf.symm.trans hg)]
  | succ l hkl ih =>
    have hlt := (List.getElem?_eq_some_iff.mp hg).1
    have hlast := List.getElem?_eq_getElem (Nat.lt_of_succ_lt hlt)
    rw [ih hlast fun j o hkj hjl ho => hempty j o hkj (Nat.le_succ_of_le hjl) ho]
    -- The function behind an empty one starts where that one does, and is empty as well.
    have hstart := h.start_succ hlast hg
    have hlastsize := (h.size_eq_zero_iff (List.mem_of_getElem? hlast)).mpr
      (hempty l _ hkl (Nat.le_succ l) hlast)
    have hgsize := (h.size_eq_zero_iff (List.mem_of_getElem? hg)).mpr
      (hempty (l + 1) g (Nat.le_succ_of_le hkl) (Nat.le_refl _) hg)
    rw [Extent.stop, hlastsize, Int.add_zero] at hstart
    calc m.internalFunctions[l].mapping
        = ⟨m.internalFunctions[l].mapping.start, m.internalFunctions[l].mapping.size⟩ := rfl
      _ = ⟨g.mapping.start, g.mapping.size⟩ := by rw [hstart, hlastsize, hgsize]
      _ = g.mapping := rfl

/-! ## The place of a handle -/

omit config data in
/-- The handle of a function with a body is given a place. -/
theorem exists_placeOf_handlePlaces {f : Entry FunctionDef} (hf : f ∈ m.internalFunctions) :
    ∃ place, placeOf m.handlePlaces f.record.handle = some place := by
  refine Option.ne_none_iff_exists'.mp fun hnone => placeOf_eq_none_iff.mp hnone f.mapping ?_
  exact List.mem_map_of_mem (f := fun f => (f.record.handle, f.mapping)) hf

/-- A handle is mapped where the last function that has it is. -/
theorem Loads.handlePlace?_eq (h : Loads config data m) {f : Entry FunctionDef}
    (hf : f ∈ m.internalFunctions) : m.handlePlace? f.record.handle =
      placeOf m.handlePlaces f.record.handle := by
  obtain ⟨_, hframe, -⟩ := (h.decoded.1.entries f (mem_functionEntries hf)).body
  obtain ⟨e, _, _, _, he, -⟩ := Body.frame_eq_ok.mp hframe
  rw [handlePlace?, he]
  obtain ⟨-, he⟩ := (Pool.get_eq_ok_iff _ _ e).mp he
  obtain ⟨n, -, rfl⟩ := h.exists_decode
  obtain ⟨m, -, hfunctions, hhandles⟩ := exists_functionHandles_layOut config n
  have hplaces : (n.layOut config).1.handlePlaces = m.handlePlaces := by
    rw [handlePlaces, handlePlaces, hfunctions]
  rw [← hfunctions] at hf
  rw [hplaces]
  -- The handle has no slot, as it has a body, and it has the place of some function.
  have hslot : placeOf (slots config.importsBase config.pointerSize m.mapHandles.externalHandles)
      f.record.handle = none :=
    placeOf_eq_none_iff.mpr (not_mem_slots (m := m.mapHandles) hf)
  obtain ⟨place, hplace⟩ := exists_placeOf_handlePlaces hf
  rw [Int.toNat_natCast, hhandles, Pool.getElem?_remapAll, Pool.getElem?_remapAll, hslot,
    ← handlePlaces, hplace] at he
  simp only [Option.map_map, Option.map_eq_some_iff] at he
  obtain ⟨e', -, rfl⟩ := he
  exact hplace.symm

/-- The last function that has the handle of a function, and the place of the handle. -/
theorem Loads.exists_last (h : Loads config data m) {k : Nat} {f : Entry FunctionDef}
    (hf : m.internalFunctions[k]? = some f) :
    ∃ l g, k ≤ l ∧ m.internalFunctions[l]? = some g ∧ g.record.handle = f.record.handle ∧
      m.handlePlace? f.record.handle = some g.mapping ∧
        ∀ j o, l < j → m.internalFunctions[j]? = some o → o.record.handle ≠ f.record.handle := by
  have hmem := List.mem_of_getElem? hf
  obtain ⟨place, hplace⟩ := exists_placeOf_handlePlaces hmem
  obtain ⟨l, hl, hlast⟩ := exists_last_of_placeOf hplace
  rw [handlePlaces, List.getElem?_map, Option.map_eq_some_iff] at hl
  obtain ⟨g, hg, hpair⟩ := hl
  obtain ⟨hhandle, hmapping⟩ := Prod.mk.inj hpair
  have hlater : ∀ j o, l < j → m.internalFunctions[j]? = some o →
      o.record.handle ≠ f.record.handle := by
    intro j o hlj ho heq
    exact hlast j o.mapping hlj (by rw [handlePlaces, List.getElem?_map, ho, ← heq, Option.map_some])
  refine ⟨l, g, Nat.le_of_not_lt fun hlk => hlater k f hlk hf rfl, hg, hhandle, ?_, hlater⟩
  rw [h.handlePlace?_eq hmem, hplace, hmapping]

/-- The handle of a function is mapped where the function is, unless a later function has the same handle
and one of these, or a function between them, has an instruction. -/
theorem Loads.handlePlace?_eq_some_iff (h : Loads config data m) {k : Nat} {f : Entry FunctionDef}
    (hf : m.internalFunctions[k]? = some f) :
    m.handlePlace? f.record.handle = some f.mapping ↔
      ∀ l g, k < l → m.internalFunctions[l]? = some g → f.record.handle = g.record.handle →
        m.EmptyRun k l := by
  obtain ⟨last, o, hklast, ho, hohandle, hplace, hlast⟩ := h.exists_last hf
  rw [hplace, Option.some_inj]
  constructor
  · intro heq l g hkl hg hhandle
    have hllast : l ≤ last := Nat.le_of_not_lt fun hlt => hlast l g hlt hg hhandle.symm
    have hrun := h.emptyRun_of_mapping_eq (Nat.lt_of_lt_of_le hkl hllast) hf ho heq.symm
    exact fun j o hkj hjl => hrun j o hkj (Nat.le_trans hjl hllast)
  · intro hrun
    rcases Nat.eq_or_lt_of_le hklast with rfl | hlt
    · rw [Option.some.inj (hf.symm.trans ho)]
    · exact (h.mapping_eq_of_emptyRun hklast hf ho (hrun last o hlt ho hohandle.symm)).symm

/-! ## What stamps agree on -/

/-- Handles are mapped where their functions are iff those with a common handle are empty. -/
theorem Loads.handlesAgree_iff (h : Loads config data m) : m.HandlesAgree ↔ m.HandlesApart := by
  constructor
  · intro hagree k l f g hkl hf hg hhandle
    exact (h.handlePlace?_eq_some_iff hf).mp (hagree f (List.mem_of_getElem? hf)) l g hkl hg hhandle
  · intro hapart f hf
    obtain ⟨k, hk⟩ := List.mem_iff_getElem?.mp hf
    exact (h.handlePlace?_eq_some_iff hk).mpr fun l g hkl hg => hapart k l f g hkl hk hg

/-- Functions with one handle are at one place if handles are apart. -/
theorem Loads.mapping_eq_of_handlesApart (h : Loads config data m) (hapart : m.HandlesApart)
    {f g : Entry FunctionDef} (hf : f ∈ m.internalFunctions) (hg : g ∈ m.internalFunctions)
    (hhandle : f.record.handle = g.record.handle) : f.mapping = g.mapping := by
  obtain ⟨k, hk⟩ := List.mem_iff_getElem?.mp hf
  obtain ⟨l, hl⟩ := List.mem_iff_getElem?.mp hg
  rcases Nat.lt_trichotomy k l with hlt | rfl | hgt
  · exact h.mapping_eq_of_emptyRun (Nat.le_of_lt hlt) hk hl (hapart k l f g hlt hk hl hhandle)
  · rw [Option.some.inj (hk.symm.trans hl)]
  · exact (h.mapping_eq_of_emptyRun (Nat.le_of_lt hgt) hl hk
      (hapart l k g f hgt hl hk hhandle.symm)).symm

/-- No entry is stamped with two different places iff functions with a common handle are empty. -/
theorem stampedOnce_iff {n : Module} (h : Loads config data (n.layOut config).1)
    (hindexed : n.functionHandles.Indexed) :
    StampedOnce (n.stamps config) ↔ (n.layOut config).1.HandlesApart := by
  constructor
  · intro honce k l f g hkl hf hg hhandle
    refine h.emptyRun_of_mapping_eq hkl hf hg ?_
    exact honce _ (mem_stamps_of_internal (List.mem_of_getElem? hf)) _
      (mem_stamps_of_internal (List.mem_of_getElem? hg)) (congrArg Target.handle hhandle)
  · intro hapart s hs t ht htarget
    by_contra hne
    obtain ⟨f, hf, g, hg, hhandle, rfl, rfl⟩ := exists_shared_of_mem_stamps hindexed hs ht htarget hne
    exact hne (h.mapping_eq_of_handlesApart hapart hf hg hhandle)

/-- How the module `m` has got its places from the decoded module `n`. -/
structure StampedAs (config : Config) (n m : Module) : Prop where
  /-- By the stamps, one after the other. -/
  applied : m = { (n.stamps config).foldl stamp n with info := m.info }
  /-- Two different stamps of one entry are those of its handle for two functions. -/
  conflict : ∀ s ∈ n.stamps config, ∀ t ∈ n.stamps config, s.target = t.target →
    s.mapping ≠ t.mapping → ∃ f ∈ m.internalFunctions, ∃ g ∈ m.internalFunctions,
      f.record.handle = g.record.handle ∧ s = ⟨.handle f.record.handle, f.mapping⟩ ∧
        t = ⟨.handle g.record.handle, g.mapping⟩
  /-- A handle is where its function is, unless a later function has the handle as well and there are
  instructions from the one to the other. -/
  handle_iff : ∀ (k : Nat) (f : Entry FunctionDef), m.internalFunctions[k]? = some f →
    (m.handlePlace? f.record.handle = some f.mapping ↔ ∀ l g, k < l →
      m.internalFunctions[l]? = some g → f.record.handle = g.record.handle → m.EmptyRun k l)
  /-- The handles are where the functions are exactly if no handle is shared in this way. -/
  agree_iff : m.HandlesAgree ↔ m.HandlesApart
  /-- In this case only no entry is given two different places. -/
  once_iff : StampedOnce (n.stamps config) ↔ m.HandlesApart

/-- A loaded module is the decoded one with the places that the stamps give it: every entry gets one
place only, and every handle that of its function, exactly if no two functions share a handle, apart from
runs of functions without instructions. -/
theorem loaded_stampedAs (h : Loads config data m) :
    ∃ n, decode data = .ok n ∧ n.StampedAs config m := by
  obtain ⟨n, hn, rfl⟩ := h.exists_decode
  have hindexed := (decoded_of_decode hn).1.handles
  exact ⟨n, hn, layOut_eq_foldl_stamp config n,
    fun _ hs _ ht => exists_shared_of_mem_stamps hindexed hs ht,
    fun _ _ => h.handlePlace?_eq_some_iff, h.handlesAgree_iff, stampedOnce_iff h hindexed⟩

end

/-- A library whose two functions `RET` and `LD_TRUE`, `POP`, `RET` both have the handle 0. -/
def sharedHandleSample : Bytes :=
  Format.assemble .libra [
    ⟨.moduleHandles, [0, 0]⟩, ⟨.functionHandles, [0, 1, 0]⟩, ⟨.addressPool, List.replicate 32 0⟩,
    ⟨.stringPool, [6, 0x3C, 0x53, 0x45, 0x4C, 0x46, 0x3E, 1, 0x66]⟩,
    ⟨.functionSignatures, [2, 0, 0]⟩, ⟨.localSignatures, [3, 0]⟩,
    ⟨.functionDefs, [0, 0, 0, 0, 1, 0, 0x02] ++ [0, 0, 1, 0, 3, 0, 0x09, 0x01, 0x02]⟩]

/-- The handle of the sample is given the place of the first function, and then that of the second. -/
theorem sharedHandleSample_stampedAs : ∃ m n, load .standard sharedHandleSample = .ok m ∧
    decode sharedHandleSample = .ok n ∧ n.StampedAs .standard m ∧
    (n.stamps .standard).drop 3 =
      [⟨.function 0, ⟨0x10000000, 1⟩⟩, ⟨.function 1, ⟨0x10000001, 3⟩⟩,
        ⟨.handle 0, ⟨0x10000000, 1⟩⟩, ⟨.handle 0, ⟨0x10000001, 3⟩⟩] ∧
    m.handlePlace? 0 = some ⟨0x10000001, 3⟩ := by
  have check : (load .standard sharedHandleSample).toOption.any (fun m =>
      (decode sharedHandleSample).toOption.any fun n => decide
        ((n.stamps .standard).drop 3 =
          [⟨.function 0, ⟨0x10000000, 1⟩⟩, ⟨.function 1, ⟨0x10000001, 3⟩⟩,
            ⟨.handle 0, ⟨0x10000000, 1⟩⟩, ⟨.handle 0, ⟨0x10000001, 3⟩⟩] ∧
        m.handlePlace? 0 = some ⟨0x10000001, 3⟩)) = true := by
    decide +kernel
  obtain ⟨m, hload, hcheck⟩ := exists_of_any_toOption check
  obtain ⟨n, hdecode, hcheck⟩ := exists_of_any_toOption hcheck
  obtain ⟨hstamps, hplace⟩ := of_decide_eq_true hcheck
  obtain ⟨n', hdecode', hstamped⟩ := loaded_stampedAs (.inl hload)
  obtain rfl := Except.ok.inj (hdecode.symm.trans hdecode')
  exact ⟨m, n, hload, hdecode, hstamped, hstamps, hplace⟩

/-- The handle of the sample is not where all of its functions are, and it is given two places. -/
theorem sharedHandleSample_restamped : ∃ m n, load .standard sharedHandleSample = .ok m ∧
    decode sharedHandleSample = .ok n ∧ ¬m.HandlesAgree ∧ ¬StampedOnce (n.stamps .standard) := by
  have check : (load .standard sharedHandleSample).toOption.any (fun m =>
      (decode sharedHandleSample).toOption.any fun n => decide
        (¬m.HandlesAgree ∧ ¬StampedOnce (n.stamps .standard))) = true := by
    decide +kernel
  obtain ⟨m, hload, hcheck⟩ := exists_of_any_toOption check
  obtain ⟨n, hdecode, hcheck⟩ := exists_of_any_toOption hcheck
  exact ⟨m, n, hload, hdecode, of_decide_eq_true hcheck⟩

end Module

end MoveBytecode
