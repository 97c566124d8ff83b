import MoveBytecode.Proofs.Format.Assembly
import MoveBytecode.Proofs.Lift.Roster
import MoveBytecode.Proofs.Loading.Publication

/-!
# The function of a lifted routine

A function is lifted by way of its routine: its address leads to a routine, and the function is looked up
again by the name of that. `Analysis.lift_identity` says when this comes back to the function: exactly if
the function that keeps the address has the same display name, which is not empty, and no function in
front has it.
-/

namespace MoveBytecode

open Lift

/-! ## Lookups -/

namespace Module

/-- A function is found by a name if it is the first of that display name. -/
theorem exists_of_functionNamed? {m : Module} {name : String} {f : Entry FunctionDef}
    (h : m.functionNamed? name = .ok (some f)) :
    ∃ before after, m.internalFunctions = before ++ f :: after ∧ m.nameOf f.record = .ok name ∧
      ∀ g ∈ before, m.nameOf g.record ≠ .ok name := by
  obtain ⟨before, after, hsplit, hf, hbefore⟩ := exists_of_findM? h
  refine ⟨before, after, hsplit, ?_, fun g hg hname => ?_⟩
  · obtain ⟨found, hfound, heq⟩ := bind_eq_ok.mp hf
    rw [hfound, beq_iff_eq.mp (pure_eq_ok.mp heq)]
  · obtain ⟨found, hfound, heq⟩ := bind_eq_ok.mp (hbefore g hg)
    obtain rfl := Except.ok.inj (hfound.symm.trans hname)
    simp at heq

/-- The functions of a loaded module are different entries. -/
theorem Loads.nodup_internalFunctions {config : Config} {data : Bytes} {m : Module}
    (h : Loads config data m) : m.internalFunctions.Nodup := by
  unfold internalFunctions
  split
  · exact List.nodup_singleton _
  · refine List.Nodup.of_map (·.index) ?_
    rw [h.decoded.1.definitions.map_index]
    exact List.nodup_range

end Module

/-- A lift of a routine of the host yields the routine, and the first function of its name. -/
theorem Converter.routine_of_runs_lift {c : Converter} {number : Nat} {w w' : Workspace} {l : Lifted}
    (h : Runs (c.lift (.hosted number)) w l w') :
    (w.host.routine? number).map Routine.bare = some l.routine.bare ∧
      c.owner.functionNamed? l.routine.name = .ok (some l.function) := by
  have hroster : w'.host.roster = w.host.roster := (leaves_lift c _).of_runs h
  obtain ⟨f, w₁, lifted, s, r, hfound, -, hrun, hr, rfl⟩ := runs_liftFunction_of_lift h
  obtain ⟨_, _, _, -, -, hlifted⟩ := runs_liftFunction hrun
  obtain ⟨hroutine, hfunction, -⟩ := hlifted r
  -- The routine had its name before the lift.
  obtain ⟨r', hr', hbare⟩ := Host.exists_routine? hroster hr
  have hname := Routine.name_eq_of_bare hbare
  simp only [RoutineRef.resolve?, hr', Option.map_some, Option.getD_some, hname] at hfound
  rw [hroutine, hfunction, hr', Option.map_some, hbare]
  exact ⟨rfl, hfound⟩

/-! ## Identity -/

/-- The function at a position of the module can be told from the others by its name: the function that
keeps its address is registered under its display name, and no function in front has that. -/
def Module.Identified (m : Module) (k : Nat) (f : Entry FunctionDef) : Prop :=
  ∃ name, m.nameOf f.record = .ok name ∧
    (∀ g r, m.KeepsAddress g → g.mapping.start = f.mapping.start → m.bodyRoutine g = .ok r →
      r.name = name) ∧
    ∀ g ∈ m.internalFunctions.take k, m.nameOf g.record ≠ .ok name

/-- A function is lifted as itself: the routine has its address and its display name, and the function
is the one. -/
structure Module.LiftedAs (m : Module) (f : Entry FunctionDef) (l : Lifted) : Prop where
  function : l.function = f
  name : m.nameOf f.record = .ok l.routine.name
  address : l.routine.address = f.mapping.start

/-- A function that is not empty can be told from the others if it has a name that is not empty and that
no function in front has. -/
theorem Module.Loads.identified_iff {config : Config} {data : Bytes} {m : Module}
    (h : Loads config data m) {k : Nat} {f : Entry FunctionDef}
    (hf : m.internalFunctions[k]? = some f) (hsize : 0 < f.record.code.size) :
    m.Identified k f ↔ ∃ name, m.nameOf f.record = .ok name ∧ name ≠ "" ∧
      ∀ g ∈ m.internalFunctions.take k, m.nameOf g.record ≠ .ok name := by
  have hkeeps := h.keepsAddress (List.mem_of_getElem? hf) hsize
  constructor
  · rintro ⟨name, hname, hkept, hfront⟩
    have hrecorded := hkept f _ hkeeps rfl (bind_eq_ok.mpr ⟨name, hname, rfl⟩)
    refine ⟨name, hname, ?_, hfront⟩
    rw [← hrecorded]
    exact Symbol.recordedName_ne_empty _ _ _
  · rintro ⟨name, hname, hempty, hfront⟩
    refine ⟨name, hname, fun g r hg hstart hr => ?_, hfront⟩
    obtain rfl := hg.unique hkeeps hstart
    obtain ⟨name', hname', rfl⟩ := exists_of_bodyRoutine hr
    obtain rfl := Except.ok.inj (hname.symm.trans hname')
    exact Symbol.recordedName_of_ne _ _ hempty

/-- The function that is found by a name is the one of this name that no other is in front of. -/
theorem Module.eq_of_functionNamed? {m : Module} {name : String} {k : Nat} {f g : Entry FunctionDef}
    (hfound : m.functionNamed? name = .ok (some g)) (hf : m.internalFunctions[k]? = some f)
    (hname : m.nameOf f.record = .ok name)
    (hfront : ∀ e ∈ m.internalFunctions.take k, m.nameOf e.record ≠ .ok name) : g = f := by
  obtain ⟨before, after, hsplit, hgname, hbefore⟩ := exists_of_functionNamed? hfound
  have hg : m.internalFunctions[before.length]? = some g := by simp [hsplit]
  rcases Nat.lt_trichotomy k before.length with hlt | rfl | hlt
  · rw [hsplit, List.getElem?_append_left hlt] at hf
    exact absurd hname (hbefore f (List.mem_of_getElem? hf))
  · exact Option.some.inj (hg.symm.trans hf)
  · rw [← List.getElem?_take_of_lt hlt] at hg
    exact absurd hgname (hfront g (List.mem_of_getElem? hg))

namespace Analysis

/-- A lift of one function leaves the roster of the workspace as it is. -/
theorem leaves_liftAt (m : Module) (f : Entry FunctionDef) :
    Leaves Workspace.roster (liftAt m f) := by
  refine leaves_get.bind fun w => ?_
  split
  · exact leaves_lift _ _
  · exact leaves_throw _

/-- A function is lifted for the routine of the function that keeps its address. -/
theorem routine_of_runs_liftAt {m : Module} {f : Entry FunctionDef} {w w' : Workspace} {l : Lifted}
    {bodies imports : List Routine} (hp : m.Published w.host bodies imports)
    (h : Runs (liftAt m f) w l w') :
    ∃ g r, m.KeepsAddress g ∧ g.mapping.start = f.mapping.start ∧ m.bodyRoutine g = .ok r ∧
      l.routine.name = r.name ∧ l.routine.address = f.mapping.start ∧
      m.functionNamed? l.routine.name = .ok (some l.function) := by
  simp only [liftAt, runs_bind, runs_get] at h
  obtain ⟨_, _, ⟨rfl, rfl⟩, h⟩ := h
  split at h
  · rename_i n hn
    obtain ⟨g, r, -, hgr, hr, hstart, hkeeps⟩ := hp.body_of_routineAt? hn
    obtain ⟨hroutine, hfunction⟩ := Converter.routine_of_runs_lift h
    have hbare : l.routine.bare = r.bare := by
      rw [Module.bare_of_bodyRoutine hgr]
      exact Option.some.inj (hroutine.symm.trans hr)
    refine ⟨g, r, hkeeps, hstart, hgr, Routine.name_eq_of_bare hbare, ?_, hfunction⟩
    rw [Routine.address_eq_of_bare hbare, Module.address_of_bodyRoutine hgr, hstart]
  · exact absurd h not_runs_throw

/-- The function that is lifted at a position is the one that is there exactly if that can be told from
the others. -/
theorem liftedAs_iff {m : Module} {k : Nat} {f g : Entry FunctionDef} {l : Lifted} {r : Routine}
    (hnodup : m.internalFunctions.Nodup) (hf : m.internalFunctions[k]? = some f)
    (hkeeps : m.KeepsAddress g) (hstart : g.mapping.start = f.mapping.start)
    (hgr : m.bodyRoutine g = .ok r) (hname : l.routine.name = r.name)
    (haddress : l.routine.address = f.mapping.start)
    (hfunction : m.functionNamed? l.routine.name = .ok (some l.function)) :
    m.LiftedAs f l ↔ m.Identified k f := by
  constructor
  · rintro ⟨rfl, hfname, -⟩
    obtain ⟨before, after, hsplit, -, hbefore⟩ := Module.exists_of_functionNamed? hfunction
    have hl : m.internalFunctions[before.length]? = some l.function := by simp [hsplit]
    -- The function stands at one position, so those in front of it are the ones that were passed.
    obtain rfl : k = before.length :=
      (List.getElem?_inj (List.getElem?_eq_some_iff.mp hf).1 hnodup).mp (hf.trans hl.symm)
    refine ⟨l.routine.name, hfname, fun g' r' hkeeps' hstart' hgr' => ?_, ?_⟩
    · obtain rfl := hkeeps'.unique hkeeps (hstart'.trans hstart.symm)
      obtain rfl := Except.ok.inj (hgr.symm.trans hgr')
      exact hname.symm
    · rw [hsplit, List.take_left']
      · exact hbefore
      · rfl
  · rintro ⟨name, hfname, hkept, hfront⟩
    obtain rfl : l.routine.name = name := hname.trans (hkept g r hkeeps hstart hgr)
    exact ⟨Module.eq_of_functionNamed? hfunction hf hfname hfront, hfname, haddress⟩

/-- What lifting all functions of a binary yields is one routine for each function in order, at its
address; and it is the function itself that is lifted, under its display name, exactly if the function
can be told from the others by its name. -/
theorem lift_identity {config : Config} {data : Bytes} {a : Analysis}
    (hload : ofBytes config data = .ok a) {ls : List Lifted} {w' : Workspace}
    (hrun : Runs (a.lift "") (.ofHost a.host) ls w') :
    ls.length = a.owner.internalFunctions.length ∧
      ∀ k f l, a.owner.internalFunctions[k]? = some f → ls[k]? = some l →
        l.routine.address = f.mapping.start ∧
          (a.owner.LiftedAs f l ↔ a.owner.Identified k f) := by
  obtain ⟨hloads, bodies, imports, hpublished⟩ := loads_and_published hload
  simp only [lift, runs_bind, runs_ofExcept] at hrun
  obtain ⟨_, w, hprepare, functions, _, ⟨hfunctions, rfl⟩, hrun⟩ := hrun
  obtain rfl : a.owner.internalFunctions = functions := Except.ok.inj hfunctions
  have hlifted := forall₂_of_runs_mapM (leaves_liftAt a.owner) hrun
  refine ⟨hlifted.length_eq.symm, fun k f l hf hl => ?_⟩
  obtain ⟨f', hf', t, t', ht, hrun⟩ := exists_getElem?_of_forall₂ hlifted hl
  obtain rfl : f = f' := Option.some.inj (hf.symm.trans hf')
  have hroster : t.host.roster = a.host.roster := ht.trans (leaves_prepare.of_runs hprepare)
  obtain ⟨g, r, hkeeps, hstart, hgr, hname, haddress, hfunction⟩ :=
    routine_of_runs_liftAt (hpublished.of_roster hroster) hrun
  exact ⟨haddress, liftedAs_iff hloads.nodup_internalFunctions hf hkeeps hstart hgr hname haddress
    hfunction⟩

/-- A library with two functions that are both called `f`, of the bodies `RET` and `LD_CONST 5`, `POP`,
`RET`. -/
def twinSample : Bytes :=
  Format.assemble .libra [
    ⟨.moduleHandles, [0, 0]⟩, ⟨.functionHandles, [0, 1, 0, 0, 1, 0]⟩,
    ⟨.addressPool, List.replicate 32 0⟩,
    ⟨.stringPool, [6, 0x3C, 0x53, 0x45, 0x4C, 0x46, 0x3E, 1, 0x66]⟩,
    ⟨.functionSignatures, [2, 0, 0]⟩, ⟨.localSignatures, [3, 0]⟩,
    ⟨.functionDefs,
      [0, 0, 0, 0, 1, 0, 0x02] ++
        [1, 0, 1, 0, 3, 0, 0x06, 5, 0, 0, 0, 0, 0, 0, 0, 0x01, 0x02]⟩]

/-- The sample is lifted, and both of its routines have the first function. -/
theorem exists_lift_twinSample : ∃ (a : Analysis) (f g : Entry FunctionDef) (ls : List Lifted)
    (w' : Workspace), ofBytes .standard twinSample = .ok a ∧
      Runs (a.lift "") (.ofHost a.host) ls w' ∧ a.owner.internalFunctions = [f, g] ∧ f ≠ g ∧
      (∀ h ∈ [f, g], 0 < h.record.code.size ∧ a.owner.nameOf h.record = .ok "f") ∧
      ls.map (·.function) = [f, f] := by
  have check : (ofBytes .standard twinSample).toOption.any (fun a =>
      (outcome (a.lift "") (.ofHost a.host)).1.toOption.any fun ls =>
        decide (∃ f ∈ a.owner.internalFunctions, ∃ g ∈ a.owner.internalFunctions,
          a.owner.internalFunctions = [f, g] ∧ f ≠ g ∧
          (∀ h ∈ [f, g], 0 < h.record.code.size ∧ (a.owner.nameOf h.record).toOption = some "f") ∧
          ls.map (·.function) = [f, f])) = true := by
    unfold lift liftAt Converter.lift assignPrototypes
    rw [Host.routineNumbers_eq]
    decide +kernel
  obtain ⟨a, hload, hlift⟩ := exists_of_any_toOption check
  obtain ⟨ls, hrun, hcheck⟩ := exists_of_any_toOption hlift
  simp only [decide_eq_true_eq, toOption_eq_some] at hcheck
  obtain ⟨f, -, g, -, hfunctions, hne, hnames, hlifted⟩ := hcheck
  exact ⟨a, f, g, ls, _, hload, Prod.ext hrun rfl, hfunctions, hne, hnames, hlifted⟩

/-- In this library the routine of the second function is lifted to the body of the first. -/
theorem twinSample_identity : ∃ (a : Analysis) (f g : Entry FunctionDef) (l l' : Lifted)
    (w' : Workspace), ofBytes .standard twinSample = .ok a ∧
      Runs (a.lift "") (.ofHost a.host) [l, l'] w' ∧ a.owner.internalFunctions = [f, g] ∧
      a.owner.LiftedAs f l ∧ l'.routine.address = g.mapping.start ∧ ¬ a.owner.LiftedAs g l' := by
  obtain ⟨a, f, g, ls, w', hload, hrun, hfunctions, -, hnames, -⟩ := exists_lift_twinSample
  obtain ⟨hlength, hidentity⟩ := lift_identity hload hrun
  obtain ⟨l, l', rfl⟩ := List.length_eq_two.mp (hlength.trans (by rw [hfunctions]; rfl))
  obtain ⟨hsize, hname⟩ := hnames f (by simp)
  obtain ⟨hsize', hname'⟩ := hnames g (by simp)
  have hf : a.owner.internalFunctions[0]? = some f := by simp [hfunctions]
  have hg : a.owner.internalFunctions[1]? = some g := by simp [hfunctions]
  have hloads := (loads_and_published hload).1
  refine ⟨a, f, g, l, l', w', hload, hrun, hfunctions, ?_, (hidentity 1 g l' hg rfl).1, fun h => ?_⟩
  · exact (hidentity 0 f l hf rfl).2.mpr
      ((hloads.identified_iff hf hsize).mpr ⟨"f", hname, by decide, by simp⟩)
  · -- The function in front has the name too.
    obtain ⟨name, hgname, -, hfront⟩ :=
      (hloads.identified_iff hg hsize').mp ((hidentity 1 g l' hg rfl).2.mp h)
    obtain rfl := Except.ok.inj (hname'.symm.trans hgname)
    exact hfront f (by simp [hfunctions]) hname

/-- It is not so that the functions of every binary that is lifted are lifted as themselves. -/
theorem not_forall_liftedAs : ¬ ∀ (data : Bytes) (a : Analysis) (ls : List Lifted) (w' : Workspace),
    ofBytes .standard data = .ok a → Runs (a.lift "") (.ofHost a.host) ls w' →
      List.Forall₂ a.owner.LiftedAs a.owner.internalFunctions ls := by
  intro h
  obtain ⟨a, f, g, ls, w', hload, hrun, hfunctions, hne, -, hlifted⟩ := exists_lift_twinSample
  have hall := h twinSample a ls w' hload hrun
  rw [hfunctions] at hall
  obtain ⟨l, _, -, hrest, rfl⟩ := List.forall₂_cons_left_iff.mp hall
  obtain ⟨l', _, hg, -, rfl⟩ := List.forall₂_cons_left_iff.mp hrest
  obtain ⟨-, hl', -⟩ : l.function = f ∧ l'.function = f ∧ _ := by simpa using hlifted
  exact hne (hl'.symm.trans hg.function)

end Analysis

end MoveBytecode
