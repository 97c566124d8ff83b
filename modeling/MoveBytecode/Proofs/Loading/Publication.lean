import MoveBytecode.Analysis
import MoveBytecode.Proofs.Host.Directory
import MoveBytecode.Proofs.Loading.Mapping

/-!
# The routines of a loaded module

Publishing a module registers a routine for each function with a body and then one for each handle
without one, in the order of the module (`Module.Published`). So the routine that an address of the code
leads to is that of the last function there, and a name leads to a function that keeps its address or,
if none of them has the name, to the first import of that name.
-/

namespace MoveBytecode

/-- The name under which a symbol is recorded: its own, or its address if it has none. -/
def Symbol.recordedName (kind : SymbolKind) (name : String) (address : Int) : String :=
  if name.isEmpty then defaultName kind address else name

/-- No symbol is recorded without a name. -/
theorem Symbol.recordedName_ne_empty (kind : SymbolKind) (name : String) (address : Int) :
    recordedName kind name address ≠ "" := by
  unfold recordedName
  split
  · cases kind <;> simp [defaultName]
  · rename_i hname
    rintro rfl
    exact hname rfl

/-- A symbol that has a name is recorded under it. -/
theorem Symbol.recordedName_of_ne {name : String} (kind : SymbolKind) (address : Int)
    (h : name ≠ "") : recordedName kind name address = name := by
  rw [recordedName, if_neg (by simpa using h)]

/-! ## Lists -/

/-- A list is what is in front of an element, the element, and what is behind it. -/
theorem eq_take_append_cons_drop {α : Type} {l : List α} {n : Nat} {a : α} (h : l[n]? = some a) :
    l = l.take n ++ a :: l.drop (n + 1) := by
  obtain ⟨hlt, rfl⟩ := List.getElem?_eq_some_iff.mp h
  rw [← List.drop_eq_getElem_cons hlt, List.take_append_drop]

/-- The elements of two lists that are related one by one are related at each position. -/
theorem exists_getElem?_of_forall₂ {α β : Type} {R : α → β → Prop} {l : List α} {l' : List β}
    (h : List.Forall₂ R l l') {n : Nat} {b : β} (hb : l'[n]? = some b) :
    ∃ a, l[n]? = some a ∧ R a b := by
  induction h generalizing n with
  | nil => simp at hb
  | cons hab _ ih =>
    cases n with
    | zero =>
      obtain rfl := Option.some.inj hb
      exact ⟨_, rfl, hab⟩
    | succ n => exact ih hb

namespace Module

/-- The routine that is registered for a function with a body. -/
def bodyRoutine (m : Module) (f : Entry FunctionDef) : Except Fault Routine := do
  let name ← m.nameOf f.record
  return {
    name := Symbol.recordedName .function name f.mapping.start
    address := f.mapping.start
    size := f.mapping.size
    internal := true }

/-- The routine that is registered for a handle without a body. -/
def importRoutine (m : Module) (e : Entry FunctionHandle) : Except Fault Routine := do
  let name ← m.functionName e.record
  return {
    name := Symbol.recordedName .pointer name e.mapping.start
    address := e.mapping.start
    size := e.mapping.size
    internal := false }

/-- A function with a body that keeps its address: no later function starts there. -/
def KeepsAddress (m : Module) (f : Entry FunctionDef) : Prop :=
  ∃ before after, m.internalFunctions = before ++ f :: after ∧
    ∀ g ∈ after, g.mapping.start ≠ f.mapping.start

/-- A function that keeps its address is one with a body. -/
theorem KeepsAddress.mem {m : Module} {f : Entry FunctionDef} (h : m.KeepsAddress f) :
    f ∈ m.internalFunctions := by
  obtain ⟨before, after, hsplit, -⟩ := h
  rw [hsplit]
  exact List.mem_append_right _ List.mem_cons_self

/-- One function keeps an address. -/
theorem KeepsAddress.unique {m : Module} {f g : Entry FunctionDef} (hf : m.KeepsAddress f)
    (hg : m.KeepsAddress g) (hstart : f.mapping.start = g.mapping.start) : f = g := by
  obtain ⟨before, after, hsplit, hlast⟩ := hf
  obtain ⟨before', after', hsplit', hlast'⟩ := hg
  rcases List.append_eq_append_iff.mp (hsplit.symm.trans hsplit') with
    ⟨between, -, hbetween⟩ | ⟨between, -, hbetween⟩
  · cases between with
    | nil => exact (List.cons.inj hbetween).1
    | cons _ between =>
      obtain ⟨rfl, rfl⟩ := List.cons.inj hbetween
      exact absurd hstart.symm (hlast g (List.mem_append_right _ List.mem_cons_self))
  · cases between with
    | nil => exact (List.cons.inj hbetween).1.symm
    | cons _ between =>
      obtain ⟨rfl, rfl⟩ := List.cons.inj hbetween
      exact absurd hstart (hlast' f (List.mem_append_right _ List.mem_cons_self))

/-- A function that is not empty keeps its address. -/
theorem Loads.keepsAddress {config : Config} {data : Bytes} {m : Module} (h : Loads config data m)
    {f : Entry FunctionDef} (hf : f ∈ m.internalFunctions) (hsize : 0 < f.record.code.size) :
    m.KeepsAddress f := by
  obtain ⟨before, after, hsplit⟩ := List.append_of_mem hf
  refine ⟨before, after, hsplit, fun g hg heq => ?_⟩
  have hpairwise := h.pairwise_internalFunctions
  rw [hsplit, List.pairwise_append, List.pairwise_cons] at hpairwise
  have hstop := hpairwise.2.1.1 g hg
  rw [Extent.stop, (h.mapping hf).1, heq] at hstop
  omega

/-- A host that has the routines of a module, those of the functions with a body first. -/
structure Published (m : Module) (h : Host) (bodies imports : List Routine) : Prop where
  ofBodies : List.Forall₂ (fun f r => m.bodyRoutine f = .ok r) m.internalFunctions bodies
  ofImports : List.Forall₂ (fun e r => m.importRoutine e = .ok r) m.externalHandles imports
  roster : h.roster = (Host.ofRoutines (bodies ++ imports)).roster

/-! ## Publishing -/

/-- A write changes nothing of a host but its segments. -/
theorem exists_segments_write {h h' : Host} {address : Int} {bytes : Bytes}
    (hwrite : h.write address bytes = .ok h') : ∃ segments, h' = { h with segments } := by
  unfold Host.write at hwrite
  split at hwrite
  · exact ⟨_, (Except.ok.inj hwrite).symm⟩
  · simp at hwrite

/-- A segment that is published changes nothing of a host but its segments. -/
theorem exists_segments_publishSegment {name : String} {base stop : Int}
    {contents : List (Int × Bytes)} {h h' : Host}
    (hpublish : publishSegment name base stop contents h = .ok h') :
    ∃ segments, h' = { h with segments } := by
  unfold publishSegment at hpublish
  split at hpublish
  · exact ⟨h.segments, (Except.ok.inj hpublish).symm⟩
  · refine foldlM_invariant (I := fun g : Host => ∃ segments, g = { h with segments })
      (fun content _ g g' hg ⟨segments, hsegments⟩ => ?_) hpublish ⟨_, rfl⟩
    subst hsegments
    dsimp only at hg
    split at hg
    · obtain rfl := Except.ok.inj hg
      exact ⟨segments, rfl⟩
    · obtain ⟨segments', rfl⟩ := exists_segments_write hg
      exact ⟨segments', rfl⟩

/-- Publishing a segment leaves the roster as it is. -/
theorem roster_publishSegment {name : String} {base stop : Int} {contents : List (Int × Bytes)}
    {h h' : Host} (hpublish : publishSegment name base stop contents h = .ok h') :
    h'.roster = h.roster := by
  obtain ⟨segments, rfl⟩ := exists_segments_publishSegment hpublish
  rfl

/-- Publishing the symbols of constants leaves the roster as it is. -/
theorem roster_foldl_publishDatum (entries : List (Entry Datum)) (h : Host) :
    (entries.foldl publishDatum h).roster = h.roster := by
  refine List.foldlRecOn (motive := fun g => g.roster = h.roster) entries publishDatum rfl
    fun g hg e _ => ?_
  rw [publishDatum]
  split
  · exact hg
  · exact hg

/-- Publishing constants leaves the roster as it is. -/
theorem roster_publishData {m : Module} {base stop : Int} {h h' : Host}
    (hpublish : m.publishData base stop h = .ok h') : h'.roster = h.roster :=
  (roster_publishSegment hpublish).trans (roster_foldl_publishDatum _ _)

/-- Publishing functions registers the routine of each, in order. -/
theorem roster_publishCode {m : Module} {base stop : Int} {h h' : Host}
    (hpublish : m.publishCode base stop h = .ok h') :
    ∃ rs, List.Forall₂ (fun f r => m.bodyRoutine f = .ok r) m.internalFunctions rs ∧
      h'.roster = (rs.foldl Host.addRoutine h).roster := by
  obtain ⟨g, hg, hsegment⟩ := bind_eq_ok.mp hpublish
  rw [roster_publishSegment hsegment]
  obtain ⟨rs, hrs, hroster⟩ := exists_mapM_of_foldlM (f := m.bodyRoutine) (g := Host.addRoutine)
    (R := fun h d => h.roster = d.roster) (fun h f h' d hstep hd => by
      obtain ⟨name, hname, hstep⟩ := bind_eq_ok.mp hstep
      obtain rfl := pure_eq_ok.mp hstep
      exact ⟨_, bind_eq_ok.mpr ⟨name, hname, rfl⟩, Host.roster_addRoutine hd _⟩) hg rfl
  exact ⟨rs, mapM_eq_ok.mp hrs, hroster⟩

/-- Publishing imports registers the routine of each handle without a body, in order. -/
theorem roster_publishImports {m : Module} {base stop : Int} {h h' : Host}
    (hpublish : m.publishImports base stop h = .ok h') :
    ∃ rs, List.Forall₂ (fun e r => m.importRoutine e = .ok r) m.externalHandles rs ∧
      h'.roster = (rs.foldl Host.addRoutine h).roster := by
  obtain ⟨g, hg, hsegment⟩ := bind_eq_ok.mp hpublish
  rw [roster_publishSegment hsegment]
  obtain ⟨rs, hrs, hroster⟩ := exists_mapM_of_foldlM (f := m.importRoutine) (g := Host.addRoutine)
    (R := fun h d => h.roster = d.roster) (fun h e h' d hstep hd => by
      obtain ⟨name, hname, hstep⟩ := bind_eq_ok.mp hstep
      obtain rfl := pure_eq_ok.mp hstep
      exact ⟨_, bind_eq_ok.mpr ⟨name, hname, rfl⟩, Host.roster_addRoutine hd _⟩) hg rfl
  exact ⟨rs, mapM_eq_ok.mp hrs, hroster⟩

/-- A module that is published to a new host has its routines registered there. -/
theorem exists_published {m : Module} {config : Config} {bounds : Bounds} {h : Host}
    (hpublish : m.publish config bounds .new = .ok h) :
    ∃ bodies imports, m.Published h bodies imports := by
  obtain ⟨h₁, hdata, hpublish⟩ := bind_eq_ok.mp hpublish
  obtain ⟨h₂, hcode, himports⟩ := bind_eq_ok.mp hpublish
  obtain ⟨bodies, hbodies, hroster⟩ := roster_publishCode hcode
  obtain ⟨imports, himports, hroster'⟩ := roster_publishImports himports
  refine ⟨bodies, imports, hbodies, himports, ?_⟩
  rw [hroster', Host.ofRoutines, List.foldl_append]
  refine Host.roster_foldl_addRoutine (hroster.trans ?_) imports
  have hnew : h₁.roster = Host.new.roster := (roster_publishData hdata).trans rfl
  exact Host.roster_foldl_addRoutine hnew bodies

/-! ## Look-ups -/

/-- The routine of a function has the name of the function, its mapping, and a body. -/
theorem exists_of_bodyRoutine {m : Module} {f : Entry FunctionDef} {r : Routine}
    (h : m.bodyRoutine f = .ok r) : ∃ name, m.nameOf f.record = .ok name ∧
      r = { name := Symbol.recordedName .function name f.mapping.start
            address := f.mapping.start, size := f.mapping.size, internal := true } := by
  obtain ⟨name, hname, h⟩ := bind_eq_ok.mp h
  exact ⟨name, hname, (pure_eq_ok.mp h).symm⟩

/-- The routine of a handle has the name of the handle, its slot, and no body. -/
theorem exists_of_importRoutine {m : Module} {e : Entry FunctionHandle} {r : Routine}
    (h : m.importRoutine e = .ok r) : ∃ name, m.functionName e.record = .ok name ∧
      r = { name := Symbol.recordedName .pointer name e.mapping.start
            address := e.mapping.start, size := e.mapping.size, internal := false } := by
  obtain ⟨name, hname, h⟩ := bind_eq_ok.mp h
  exact ⟨name, hname, (pure_eq_ok.mp h).symm⟩

/-- The routine of a function is at the address of the function. -/
theorem address_of_bodyRoutine {m : Module} {f : Entry FunctionDef} {r : Routine}
    (h : m.bodyRoutine f = .ok r) : r.address = f.mapping.start := by
  obtain ⟨_, -, rfl⟩ := exists_of_bodyRoutine h
  rfl

/-- The routine of a function is registered without a prototype and a class. -/
theorem bare_of_bodyRoutine {m : Module} {f : Entry FunctionDef} {r : Routine}
    (h : m.bodyRoutine f = .ok r) : r.bare = r := by
  obtain ⟨_, -, rfl⟩ := exists_of_bodyRoutine h
  rfl

/-- The routine of a handle is at the address of its slot. -/
theorem address_of_importRoutine {m : Module} {e : Entry FunctionHandle} {r : Routine}
    (h : m.importRoutine e = .ok r) : r.address = e.mapping.start := by
  obtain ⟨_, -, rfl⟩ := exists_of_importRoutine h
  rfl

namespace Published

variable {m : Module} {h : Host} {bodies imports : List Routine}

/-- What is said of a published module depends on the roster of the host alone. -/
theorem of_roster (hp : m.Published h bodies imports) {h' : Host} (hroster : h'.roster = h.roster) :
    m.Published h' bodies imports :=
  { hp with roster := hroster.trans hp.roster }

/-- The routines of the functions with a body are at the addresses of the functions. -/
theorem map_address_bodies (hp : m.Published h bodies imports) :
    bodies.map (·.address) = m.internalFunctions.map (·.mapping.start) := by
  rw [← List.forall₂_eq_eq_eq, List.forall₂_map_left_iff, List.forall₂_map_right_iff]
  exact hp.ofBodies.flip.imp fun _ _ => address_of_bodyRoutine

/-- The routines of the handles without a body are at the addresses of the slots. -/
theorem map_address_imports (hp : m.Published h bodies imports) :
    imports.map (·.address) = m.externalHandles.map (·.mapping.start) := by
  rw [← List.forall₂_eq_eq_eq, List.forall₂_map_left_iff, List.forall₂_map_right_iff]
  exact hp.ofImports.flip.imp fun _ _ => address_of_importRoutine

/-- A resident among the routines of the functions with a body is that of a function that keeps its
address, whichever routines are registered behind them. -/
theorem exists_keepsAddress (hp : m.Published h bodies imports) {rest : List Routine} {address : Int}
    {n : Nat} (hresident : (Host.ofRoutines (bodies ++ rest)).Resident address n)
    (hn : n < bodies.length) :
    ∃ f r, m.internalFunctions[n]? = some f ∧ m.bodyRoutine f = .ok r ∧ bodies[n]? = some r ∧
      f.mapping.start = address ∧ m.KeepsAddress f := by
  obtain ⟨⟨r, hr, hraddress⟩, hlast⟩ := hresident
  simp only [Host.routine?_ofRoutines] at hr hlast
  rw [List.getElem?_append_left hn] at hr
  obtain ⟨f, hf, hfr⟩ := exists_getElem?_of_forall₂ hp.ofBodies hr
  have hstart : f.mapping.start = address := (address_of_bodyRoutine hfr).symm.trans hraddress
  refine ⟨f, r, hf, hfr, hr, hstart, m.internalFunctions.take n, m.internalFunctions.drop (n + 1),
    eq_take_append_cons_drop hf, fun g hg => ?_⟩
  -- A later function has a later routine, at another address.
  obtain ⟨k, hk⟩ := List.mem_iff_getElem?.mp hg
  rw [List.getElem?_drop] at hk
  obtain ⟨s, hs, hgs⟩ := exists_getElem?_of_forall₂ hp.ofBodies.flip hk
  have hlater : (bodies ++ rest)[n + 1 + k]? = some s := by
    rw [List.getElem?_append_left (List.getElem?_eq_some_iff.mp hs).1]
    exact hs
  rw [hstart, ← address_of_bodyRoutine hgs]
  exact hlast (n + 1 + k) s (by omega) hlater

/-- An address leads to an internal routine only if it is that of a function that keeps it. -/
theorem body_of_routineAt? (hp : m.Published h bodies imports) {address : Int} {n : Nat}
    (hn : h.routineAt? address true = some n) :
    ∃ f r, m.internalFunctions[n]? = some f ∧ m.bodyRoutine f = .ok r ∧
      (h.routine? n).map Routine.bare = some r ∧ f.mapping.start = address ∧ m.KeepsAddress f := by
  rw [Host.routineAt?_eq hp.roster, Host.routineAt?] at hn
  obtain ⟨hnumber, hinternal⟩ := Option.filter_eq_some_iff.mp hn
  have hresident := (Host.filed_ofRoutines _).numberAt?_eq_some_iff.mp hnumber
  have hlt : n < bodies.length := by
    by_contra hge
    obtain ⟨⟨s, hs, -⟩, -⟩ := hresident
    rw [Host.routine?_ofRoutines] at hs
    simp only [Host.routine?_ofRoutines, hs, Bool.not_true, Bool.false_or, Option.any_some] at hinternal
    rw [List.getElem?_append_right (Nat.le_of_not_lt hge)] at hs
    obtain ⟨e, -, he⟩ := exists_getElem?_of_forall₂ hp.ofImports hs
    obtain ⟨_, -, rfl⟩ := exists_of_importRoutine he
    simp at hinternal
  obtain ⟨f, r, hf, hfr, hr, hstart, hkeeps⟩ := hp.exists_keepsAddress hresident hlt
  refine ⟨f, r, hf, hfr, ?_, hstart, hkeeps⟩
  rw [Host.map_bare_routine? hp.roster, Host.routine?_ofRoutines, List.getElem?_append_left hlt, hr,
    Option.map_some, bare_of_bodyRoutine hfr]

/-- An internal routine is that of a function with a body. -/
theorem body_of_internal (hp : m.Published h bodies imports) {n : Nat} {r : Routine}
    (hr : h.routine? n = some r) (hinternal : r.internal = true) :
    ∃ f, m.internalFunctions[n]? = some f ∧ m.bodyRoutine f = .ok r.bare := by
  obtain ⟨s, hs, hbare⟩ := Host.exists_routine? hp.roster hr
  rw [Host.routine?_ofRoutines] at hs
  by_cases hn : n < bodies.length
  · rw [List.getElem?_append_left hn] at hs
    obtain ⟨f, hf, hfs⟩ := exists_getElem?_of_forall₂ hp.ofBodies hs
    rw [← hbare, bare_of_bodyRoutine hfs]
    exact ⟨f, hf, hfs⟩
  · -- The others are those of imports, which are not internal.
    rw [List.getElem?_append_right (Nat.le_of_not_lt hn)] at hs
    obtain ⟨e, -, hes⟩ := exists_getElem?_of_forall₂ hp.ofImports hs
    obtain ⟨_, -, rfl⟩ := exists_of_importRoutine hes
    have hexternal : false = r.internal := congrArg Routine.internal hbare
    rw [hinternal] at hexternal
    exact absurd hexternal (by decide)

/-- Where a function starts and no import has its slot, there is an internal routine. -/
theorem exists_routineAt? (hp : m.Published h bodies imports) {f : Entry FunctionDef}
    (hf : f ∈ m.internalFunctions)
    (himports : ∀ e ∈ m.externalHandles, e.mapping.start ≠ f.mapping.start) :
    ∃ n, h.routineAt? f.mapping.start true = some n := by
  rw [Host.routineAt?_eq hp.roster, Host.routineAt?]
  obtain ⟨k, hk⟩ := List.mem_iff_getElem?.mp hf
  obtain ⟨r, hr, hfr⟩ := exists_getElem?_of_forall₂ hp.ofBodies.flip hk
  cases hnumber : (Host.ofRoutines (bodies ++ imports)).numberAt? f.mapping.start with
  | none =>
    obtain ⟨_, -, rfl⟩ := exists_of_bodyRoutine hfr
    have hnone := Host.numberAt?_ofRoutines_eq_none_iff.mp hnumber _
      (List.mem_append_left _ (List.mem_of_getElem? hr))
    exact absurd rfl hnone
  | some n =>
    refine ⟨n, ?_⟩
    obtain ⟨⟨s, hs, hsaddress⟩, -⟩ := (Host.filed_ofRoutines _).numberAt?_eq_some_iff.mp hnumber
    rw [Host.routine?_ofRoutines] at hs
    -- The routine there is one of a function, as those of the imports are elsewhere.
    rcases List.mem_append.mp (List.mem_of_getElem? hs) with hmem | hmem
    · obtain ⟨j, hj⟩ := List.mem_iff_getElem?.mp hmem
      obtain ⟨g, -, hg⟩ := exists_getElem?_of_forall₂ hp.ofBodies hj
      obtain ⟨_, -, rfl⟩ := exists_of_bodyRoutine hg
      simp [Option.filter, Host.routine?_ofRoutines, hs]
    · obtain ⟨j, hj⟩ := List.mem_iff_getElem?.mp hmem
      obtain ⟨e, he, hes⟩ := exists_getElem?_of_forall₂ hp.ofImports hj
      obtain ⟨_, -, rfl⟩ := exists_of_importRoutine hes
      exact absurd hsaddress (himports e (List.mem_of_getElem? he))

/-- The routine that a name leads to has the name, which is not empty. -/
theorem name_of_routineNamed? (hp : m.Published h bodies imports) {name : String} {n : Nat}
    (hn : h.routineNamed? name = some n) :
    name ≠ "" ∧ ∃ r, h.routine? n = some r ∧ r.name = name := by
  rw [Host.routineNamed?_eq hp.roster] at hn
  obtain ⟨s, hs, hname, -⟩ := (Host.filed_ofRoutines _).resident_of_routineNamed? hn
  obtain ⟨r, hr, hbare⟩ := Host.exists_routine? hp.roster.symm hs
  refine ⟨?_, r, hr, (congrArg Routine.name hbare).trans hname⟩
  rw [← hname]
  rw [Host.routine?_ofRoutines] at hs
  rcases List.mem_append.mp (List.mem_of_getElem? hs) with hmem | hmem
  · obtain ⟨j, hj⟩ := List.mem_iff_getElem?.mp hmem
    obtain ⟨_, -, hf⟩ := exists_getElem?_of_forall₂ hp.ofBodies hj
    obtain ⟨_, -, rfl⟩ := exists_of_bodyRoutine hf
    exact Symbol.recordedName_ne_empty _ _ _
  · obtain ⟨j, hj⟩ := List.mem_iff_getElem?.mp hmem
    obtain ⟨_, -, he⟩ := exists_getElem?_of_forall₂ hp.ofImports hj
    obtain ⟨_, -, rfl⟩ := exists_of_importRoutine he
    exact Symbol.recordedName_ne_empty _ _ _

section

variable (hslots : m.externalHandles.Pairwise fun e e' => e.mapping.start ≠ e'.mapping.start)
  (hfree : ∀ f ∈ m.internalFunctions, ∀ e ∈ m.externalHandles,
    f.mapping.start ≠ e.mapping.start)

include hslots hfree

/-- A name leads to a function, or to the first import of the name if it leads to no function. -/
theorem routineNamed?_eq (hp : m.Published h bodies imports) (name : String) :
    h.routineNamed? name = ((Host.ofRoutines bodies).routineNamed? name).or
      ((imports.findIdx? (·.name == name)).map (· + bodies.length)) := by
  rw [Host.routineNamed?_eq hp.roster, Host.routineNamed?_ofRoutines_append]
  · intro t ht s hs
    have hslot := List.mem_map_of_mem (f := (·.address)) ht
    have hbody := List.mem_map_of_mem (f := (·.address)) hs
    rw [hp.map_address_imports] at hslot
    rw [hp.map_address_bodies] at hbody
    obtain ⟨e', he', heq⟩ := List.mem_map.mp hslot
    obtain ⟨f, hf, hfeq⟩ := List.mem_map.mp hbody
    rw [← heq, ← hfeq]
    exact hfree f hf e' he'
  · have hpairwise := List.pairwise_map.mpr hslots
    rw [← hp.map_address_imports] at hpairwise
    exact List.pairwise_map.mp hpairwise

/-- The name of an import leads somewhere if it is not empty. -/
theorem exists_routineNamed? (hp : m.Published h bodies imports) {e : Entry FunctionHandle}
    (he : e ∈ m.externalHandles) {name : String} (hname : m.functionName e.record = .ok name)
    (hne : name ≠ "") : ∃ n, h.routineNamed? name = some n := by
  obtain ⟨k, hk⟩ := List.mem_iff_getElem?.mp he
  obtain ⟨r, hr, her⟩ := exists_getElem?_of_forall₂ hp.ofImports.flip hk
  obtain ⟨name', hname', rfl⟩ := exists_of_importRoutine her
  obtain rfl := Except.ok.inj (hname.symm.trans hname')
  have hfind : (imports.findIdx? (·.name == name)).isSome = true := by
    rw [List.findIdx?_isSome, List.any_eq_true]
    refine ⟨_, List.mem_of_getElem? hr, beq_iff_eq.mpr ?_⟩
    exact Symbol.recordedName_of_ne _ _ hne
  obtain ⟨n, hn⟩ := Option.isSome_iff_exists.mp hfind
  rw [hp.routineNamed?_eq hslots hfree, hn]
  cases (Host.ofRoutines bodies).routineNamed? name with
  | some n' => exact ⟨n', rfl⟩
  | none => exact ⟨n + bodies.length, rfl⟩

/-- The name of an import leads to it if no function that keeps its address has the name and no import
in front of it has. -/
theorem routineNamed?_import (hp : m.Published h bodies imports)
    {before after : List (Entry FunctionHandle)} {e : Entry FunctionHandle} {r : Routine}
    (hsplit : m.externalHandles = before ++ e :: after) (hr : m.importRoutine e = .ok r)
    (hbodies : ∀ f ∈ m.internalFunctions, m.KeepsAddress f → ∀ s, m.bodyRoutine f = .ok s →
      s.name ≠ r.name)
    (hbefore : ∀ e' ∈ before, ∀ s, m.importRoutine e' = .ok s → s.name ≠ r.name) :
    ∃ n, h.routineNamed? r.name = some n ∧ (h.routine? n).map Routine.bare = some r := by
  have hslot : m.externalHandles[before.length]? = some e := by simp [hsplit]
  obtain ⟨s, hs, hes⟩ := exists_getElem?_of_forall₂ hp.ofImports.flip hslot
  obtain rfl : r = s := Except.ok.inj (hr.symm.trans hes)
  -- No function has the name, as a name leads to residents.
  have hnone : (Host.ofRoutines bodies).routineNamed? r.name = none := by
    by_contra hsome
    obtain ⟨n, hn⟩ := Option.ne_none_iff_exists'.mp hsome
    obtain ⟨t, ht, hname, hresident⟩ := (Host.filed_ofRoutines _).resident_of_routineNamed? hn
    rw [Host.routine?_ofRoutines] at ht
    rw [← List.append_nil bodies] at hresident
    obtain ⟨f, t', hf, hft, ht', -, hkeeps⟩ :=
      hp.exists_keepsAddress hresident (List.getElem?_eq_some_iff.mp ht).1
    obtain rfl : t = t' := Option.some.inj (ht.symm.trans ht')
    exact hbodies f (List.mem_of_getElem? hf) hkeeps t hft hname
  have hfind : imports.findIdx? (·.name == r.name) = some before.length := by
    obtain ⟨hlt, hget⟩ := List.getElem?_eq_some_iff.mp hs
    refine List.findIdx?_eq_some_iff_getElem.mpr ⟨hlt, by simp [hget], fun j hj => ?_⟩
    have hj' : imports[j]? = some imports[j] := List.getElem?_eq_getElem (hj.trans hlt)
    obtain ⟨e', he', hes'⟩ := exists_getElem?_of_forall₂ hp.ofImports hj'
    rw [hsplit, List.getElem?_append_left hj] at he'
    simpa using hbefore e' (List.mem_of_getElem? he') _ hes'
  refine ⟨bodies.length + before.length, ?_, ?_⟩
  · rw [hp.routineNamed?_eq hslots hfree, hnone, hfind]
    simp [Nat.add_comm]
  · rw [Host.map_bare_routine? hp.roster, Host.routine?_ofRoutines,
      List.getElem?_append_right (Nat.le_add_right _ _), Nat.add_sub_cancel_left, hs]
    obtain ⟨_, -, rfl⟩ := exists_of_importRoutine hr
    rfl

end

end Published

end Module

/-- The module of an analysis was published to a new host. -/
theorem Analysis.publish_of_ofBytes {config : Config} {data : Bytes} {a : Analysis}
    (h : ofBytes config data = .ok a) :
    ∃ bounds, a.owner.publish config bounds .new = .ok a.host := by
  obtain ⟨⟨m, host⟩, hload, h⟩ := bind_eq_ok.mp h
  obtain rfl := pure_eq_ok.mp h
  obtain ⟨n, -, hload⟩ := bind_eq_ok.mp hload
  obtain ⟨_, -, hload⟩ := bind_eq_ok.mp hload
  obtain ⟨host', hpublish, hload⟩ := bind_eq_ok.mp hload
  obtain ⟨rfl, rfl⟩ := Prod.mk.inj (pure_eq_ok.mp hload)
  exact ⟨_, hpublish⟩

/-- An analysis has the module of its binary, published to a host of its own. -/
theorem Analysis.loads_and_published {config : Config} {data : Bytes} {a : Analysis}
    (h : ofBytes config data = .ok a) :
    Module.Loads config data a.owner ∧ ∃ bodies imports, a.owner.Published a.host bodies imports := by
  obtain ⟨bounds, hpublish⟩ := publish_of_ofBytes h
  obtain ⟨⟨m, host⟩, hload, h⟩ := bind_eq_ok.mp h
  obtain rfl := pure_eq_ok.mp h
  exact ⟨.inr ⟨.new, host, hload⟩, Module.exists_published hpublish⟩

end MoveBytecode
