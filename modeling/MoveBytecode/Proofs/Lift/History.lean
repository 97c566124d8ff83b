import MoveBytecode.Proofs.Lift.Identity
import MoveBytecode.Proofs.Lift.Widths
import MoveBytecode.Proofs.Loading.Symbols

/-!
# Lifts one after the other

A lift leaves structures in the registry and prototypes on the routines of the host, also where it ends with
a fault. Neither changes what a later lift ends with: a token has the same type whatever structures were
entered (`Typing.respects_typeOf`), and all routines that a lift may yield have the prototypes that the
module prescribes before the first instruction is lowered (`Provided`). So the lift of a function is the
same computation from all states that look alike (`pervades_respects`), and a routine is lifted as on a
host on which nothing was done before (`Analysis.lift_after`).
-/

namespace MoveBytecode

open Lift

/-! ## Prototypes -/

/-- The registry of a new host with the Move types. -/
def TypeRegistry.prepared : TypeRegistry := (TypeRegistry.new 64).withMoveTypes

/-- The prototype that routines of this name are given: it is that of the first handle of the name, with
the types of a registry into which no structure was entered. -/
def Module.Prescribes (m : Module) (name : String) (p : Prototype) : Prop :=
  ∃ e s, m.handleNamed? name = .ok (some e) ∧ m.signatureOf e.record = .ok s ∧
    (outcome (Typing.prototypeOf m s) TypeRegistry.prepared).1 = .ok p

/-- At most one prototype is prescribed for a name. -/
theorem Module.Prescribes.unique {m : Module} {name : String} {p q : Prototype}
    (h : m.Prescribes name p) (k : m.Prescribes name q) : p = q := by
  obtain ⟨e, s, he, hs, hp⟩ := h
  obtain ⟨e', s', he', hs', hq⟩ := k
  obtain rfl : e = e' := Option.some.inj (Except.ok.inj (he.symm.trans he'))
  obtain rfl := Except.ok.inj (hs.symm.trans hs')
  exact Except.ok.inj (hp.symm.trans hq)

/-- A signature of the module has a prototype. -/
theorem Module.exists_prototype {m : Module} (hm : m.Closed) (hk : m.KnowsAll) {h : FunctionHandle}
    {s : FunctionSignature} (hs : m.signatureOf h = .ok s) :
    ∃ p, (outcome (Typing.prototypeOf m s) TypeRegistry.prepared).1 = .ok p := by
  obtain ⟨e, he, hrecord⟩ := bind_eq_ok.mp hs
  obtain rfl := pure_eq_ok.mp hrecord
  have hmem : e.record ∈ m.functionSignatures.records := List.mem_map_of_mem (Pool.mem_toList_of_get he)
  obtain ⟨hreturns, hparams⟩ := hk.functions e.record hmem
  obtain ⟨p, _, hrun, -⟩ :=
    Typing.ends_prototypeOf hm TypeRegistry.standard_new hparams hreturns
  exact ⟨p, congrArg Prod.fst hrun⟩

/-- A name that leads to a function has a prototype. -/
theorem Module.exists_prescribes {m : Module} (hm : m.Closed) (hk : m.KnowsAll) {name : String}
    {f : Entry FunctionDef} (hf : m.functionNamed? name = .ok (some f)) : ∃ p, m.Prescribes name p := by
  obtain ⟨_, _, hsplit, hname, -⟩ := m.exists_of_functionNamed? hf
  obtain ⟨e, he, hename⟩ := bind_eq_ok.mp hname
  obtain ⟨found, hfound⟩ := hm.handleNamed? name
  cases found with
  | none =>
    -- The handle of the function has the name.
    have hnone := forall_of_findM?_none hfound e (Pool.mem_toList_of_get he)
    simp [hename, bind, Except.bind, pure, Except.pure] at hnone
  | some e' =>
    have hmem : e'.record ∈ m.functionHandles.records := List.mem_map_of_mem (mem_of_findM? hfound)
    obtain ⟨s, -, hs⟩ := hm.signatureOf hmem
    obtain ⟨p, hp⟩ := m.exists_prototype hm hk hs
    exact ⟨p, e', s, hfound, hs, hp⟩

namespace Lift

/-- A host with the Move types and structures, on which the routines that addresses lead to have no
prototypes but those that are prescribed for their names, and those with a number in `done` have them. -/
structure Provided (m : Module) (done : List Nat) (h : Host) : Prop where
  types : TypeRegistry.prepared.Grows h.types
  prototypes : ∀ n ∈ h.routineNumbers, ∀ r p, h.routine? n = some r → m.Prescribes r.name p →
    r.prototype = some p ∨ r.prototype = none ∧ n ∉ done

namespace Provided

variable {m : Module} {done : List Nat} {w : Workspace} {number : Nat}

/-- Prototypes that are there for more routines are there for fewer. -/
theorem mono {h : Host} (hh : Provided m done h) {fewer : List Nat}
    (hfewer : ∀ n ∈ h.routineNumbers, n ∈ fewer → n ∈ done) : Provided m fewer h where
  types := hh.types
  prototypes n hn r p hr hp :=
    (hh.prototypes n hn r p hr hp).imp id fun hnone => ⟨hnone.1, fun hmem => hnone.2 (hfewer n hn hmem)⟩

/-- A number is done if its routine has a prototype, or if none is prescribed. -/
theorem insert {h : Host} (hh : Provided m done h) (hnumber : ∀ r p, h.routine? number = some r →
    r.prototype = none → ¬ m.Prescribes r.name p) : Provided m (number :: done) h where
  types := hh.types
  prototypes n hn r p hr hp := by
    rcases hh.prototypes n hn r p hr hp with hsome | ⟨hnone, hdone⟩
    · exact .inl hsome
    · refine .inr ⟨hnone, ?_⟩
      rw [List.mem_cons, not_or]
      refine ⟨?_, hdone⟩
      rintro rfl
      exact hnumber r p hr hnone hp

/-- A routine with a prototype is one more that has its prototype. -/
theorem insert_of_some {h : Host} (hh : Provided m done h)
    (hnumber : ∀ name address size internal parent,
      h.routine? number = some ⟨name, address, size, internal, none, parent⟩ → False) :
    Provided m (number :: done) h := by
  refine hh.insert fun r _ hr hnone _ => ?_
  obtain ⟨name, address, size, internal, prototype, parent⟩ := r
  obtain rfl : prototype = none := hnone
  exact hnumber _ _ _ _ _ hr

/-- A routine without a prototype is given the one that is prescribed, or any if none is. -/
theorem update {h : Host} (hh : Provided m done h) {r : Routine} {p : Prototype}
    (hr : h.routine? number = some r) (hp : number ∈ h.routineNumbers → ∀ q, m.Prescribes r.name q → q = p) :
    Provided m (number :: done) (h.updateRoutine number fun r => { r with prototype := some p }) where
  types := hh.types
  prototypes n hn s q hs hq := by
    have hn : n ∈ h.routineNumbers := hn
    rw [Host.routine?, Host.updateRoutine, Array.getElem?_modify] at hs
    split at hs
    · rename_i heq
      subst heq
      rw [show h.routines[number]? = some r from hr, Option.map_some, Option.some.injEq] at hs
      subst hs
      exact .inl (congrArg some (hp hn q hq).symm)
    · rename_i hne
      refine (hh.prototypes n hn s q hs hq).imp id fun hnone => ⟨hnone.1, ?_⟩
      rw [List.mem_cons, not_or]
      exact ⟨Ne.symm hne, hnone.2⟩

/-- A signature is made the same prototype whatever structures were entered. -/
theorem runs_prototypeOf (hw : Provided m done w.host) {s : FunctionSignature} {p : Prototype}
    (hp : (outcome (Typing.prototypeOf m s) TypeRegistry.prepared).1 = .ok p) :
    ∃ types events, Runs (prototypeOf m s) w p ⟨{ w.host with types }, events⟩ ∧
      TypeRegistry.prepared.Grows types := by
  have hresult := (Typing.respects_prototypeOf (m := m) TypeRegistry.standard_new s _ _
    ⟨.refl _, hw.types⟩).1
  have hgrows := hw.types.trans (Typing.grows_prototypeOf m s w.host.types)
  have hrun : Runs (onTypes (Typing.prototypeOf m s)) w p
      { w with host := { w.host with types := (outcome (Typing.prototypeOf m s) w.host.types).2 } } := by
    rw [Runs, outcome_onTypes, ← hresult]
    exact congrArg (·, _) hp
  by_cases hmany : 2 ≤ s.returns.length
  · refine ⟨_, w.events.push (.severalReturns s), ?_, hgrows⟩
    refine runs_bind.mpr ⟨p, _, hrun, ?_⟩
    rw [if_pos hmany]
    exact runs_bind.mpr ⟨⟨⟩, _, runs_modify.mpr rfl, runs_pure.mpr ⟨rfl, rfl⟩⟩
  · refine ⟨_, w.events, ?_, hgrows⟩
    refine runs_bind.mpr ⟨p, _, hrun, ?_⟩
    rw [if_neg hmany]
    exact runs_pure.mpr ⟨rfl, rfl⟩

/-- A routine is made sure to have a prototype, which is the one of this signature unless it is done or
nothing is prescribed for it. -/
theorem ends_ensurePrototype (hw : Provided m done w.host) {s : FunctionSignature} {p : Prototype}
    (hp : (outcome (Typing.prototypeOf m s) TypeRegistry.prepared).1 = .ok p)
    (hnumber : number ∈ w.host.routineNumbers → number ∈ done ∨
      ∀ r q, w.host.routine? number = some r → m.Prescribes r.name q → q = p) :
    Ends (ensurePrototype m number s) w fun _ w' => Provided m (number :: done) w'.host := by
  refine ends_bind_get ?_
  split
  · rename_i name address size internal parent hr
    obtain ⟨types, events, hrun, hgrows⟩ := hw.runs_prototypeOf hp
    refine ends_bind_of_runs hrun (ends_modify ?_)
    have hw' : Provided m done { w.host with types } := ⟨hgrows, hw.prototypes⟩
    refine hw'.update hr fun hmem q hq => ?_
    rcases hnumber hmem with hdone | hprescribed
    · -- What is done has its prototype, and this routine has none.
      rcases hw.prototypes number hmem _ q hr hq with hsome | ⟨-, hnot⟩
      · exact absurd hsome (by simp)
      · exact absurd hdone hnot
    · exact hprescribed _ q hr hq
  · rename_i hsome
    exact ends_pure (hw.insert_of_some hsome)

variable (hm : m.Closed) (hk : m.KnowsAll)

include hm hk

/-- Assigning a prototype gives a routine the prototype that is prescribed for its name. -/
theorem ends_assignPrototype (hw : Provided m done w.host) (number : Nat) :
    Ends (assignPrototype m number) w fun _ w' => Provided m (number :: done) w'.host := by
  refine ends_bind_get ?_
  split
  · rename_i name address size internal parent hr
    obtain ⟨found, hfound⟩ := hm.handleNamed? name
    refine ends_bind_ofExcept hfound ?_
    cases found with
    | none =>
      refine ends_pure (hw.insert fun r p hr' _ hp => ?_)
      obtain rfl := Option.some.inj (hr.symm.trans hr')
      obtain ⟨e, _, he, -⟩ := hp
      simp [hfound] at he
    | some e =>
      have hmem : e.record ∈ m.functionHandles.records := List.mem_map_of_mem (mem_of_findM? hfound)
      obtain ⟨s, -, hs⟩ := hm.signatureOf hmem
      obtain ⟨p, hp⟩ := m.exists_prototype hm hk hs
      refine ends_bind_ofExcept hs (hw.ends_ensurePrototype hp fun _ => .inr fun r q hr' hq => ?_)
      obtain rfl := Option.some.inj (hr.symm.trans hr')
      exact hq.unique ⟨e, s, hfound, hs, hp⟩
  · rename_i hsome
    exact ends_pure (hw.insert_of_some hsome)

/-- All routines that addresses lead to are given their prototypes, whichever of them had one. -/
theorem ends_assignPrototypes (hw : Provided m [] w.host) :
    Ends (assignPrototypes m) w fun _ w' => Provided m w.host.routineNumbers w'.host := by
  -- By induction on the routines that are left; those in `done` have been seen to.
  have general (numbers done : List Nat) {w : Workspace} (hw : Provided m done w.host) :
      Ends (numbers.forM (assignPrototype m)) w fun _ w' => Provided m (numbers ++ done) w'.host := by
    induction numbers generalizing done w with
    | nil => exact ends_pure hw
    | cons number rest ih =>
      refine (hw.ends_assignPrototype hm hk number).bind fun _ w₁ _ hw₁ => ?_
      refine (ih (number :: done) hw₁).mono fun _ w₂ _ hw₂ => hw₂.mono fun n _ hn => ?_
      simpa [or_left_comm] using hn
  refine ends_bind_get ((general w.host.routineNumbers [] hw).mono fun _ _ _ hw' => ?_)
  rwa [List.append_nil] at hw'

end Provided

/-! ## What lifts leave as it is -/

end Lift

/-- What lifts leave as it is on a host: all but the types and the prototypes. -/
def Host.setting (h : Host) : Host :=
  { h with types := .new 64, routines := h.routines.map fun r => { r with prototype := none } }

namespace Lift

/-- Nothing that a lift does to a workspace changes the setting. -/
theorem lasting_setting (c : Host) : Lasting fun w => w.host.setting = c where
  event _ _ h := h
  types _ _ _ h := h
  prototype w number p h := by
    rw [← h]
    have hroutines : (w.host.updateRoutine number fun r => { r with prototype := some p }).routines.map
          (fun r => { r with prototype := none }) =
        w.host.routines.map fun r => { r with prototype := none } :=
      w.host.map_routines_updateRoutine number fun _ => rfl
    exact congrArg (fun routines => { w.host with types := .new 64, routines }) hroutines

section

variable {h k : Host} (hsetting : h.setting = k.setting)

include hsetting

/-- Hosts with the same setting have the same symbols. -/
theorem symbols_of_setting : h.symbols = k.symbols := by
  have hsymbols := congrArg Host.symbols hsetting
  exact hsymbols

/-- Hosts with the same setting have the same segments. -/
theorem segments_of_setting : h.segments = k.segments := by
  have hsegments := congrArg Host.segments hsetting
  exact hsegments

/-- Hosts with the same setting have the same classes. -/
theorem classes_of_setting : h.classes = k.classes := by
  have hclasses := congrArg Host.classes hsetting
  exact hclasses

/-- Hosts with the same setting have the same routines, prototypes apart. -/
theorem routine?_of_setting (n : Nat) :
    (h.routine? n).map (fun r => { r with prototype := none }) =
      (k.routine? n).map fun r => { r with prototype := none } := by
  have hn := congrArg (fun c => c.routines[n]?) hsetting
  simpa [Host.setting, Host.routine?] using hn

/-- Hosts with the same setting have the same roster. -/
theorem roster_of_setting : h.roster = k.roster := by
  have hdirectory := congrArg Host.directory hsetting
  have hroutines := congrArg (fun c => c.routines.map Routine.bare) hsetting
  simp only [Host.setting, Array.map_map] at hroutines
  exact Prod.ext hdirectory hroutines

/-- Hosts with the same setting list the same routines. -/
theorem routineNumbers_of_setting : h.routineNumbers = k.routineNumbers :=
  Host.routineNumbers_eq_of_roster (roster_of_setting hsetting)

/-- On two hosts with the same setting that have the prescribed prototypes a routine is the same. -/
theorem Provided.routine?_eq {m : Module} (hh : Provided m h.routineNumbers h)
    (hk : Provided m k.routineNumbers k) {n : Nat} (hn : n ∈ h.routineNumbers) {r : Routine}
    (hr : h.routine? n = some r) {p : Prototype} (hp : m.Prescribes r.name p) :
    k.routine? n = some r := by
  have hsome := routine?_of_setting hsetting n
  rw [hr, Option.map_some, eq_comm, Option.map_eq_some_iff] at hsome
  obtain ⟨s, hs, hsr⟩ := hsome
  have hname : s.name = r.name := by
    have hnames := congrArg Routine.name hsr
    exact hnames
  have hprototype : r.prototype = some p :=
    (hh.prototypes n hn r p hr hp).resolve_right fun hnot => hnot.2 hn
  rw [routineNumbers_of_setting hsetting] at hn
  have hprototype' : s.prototype = some p :=
    (hk.prototypes n hn s p hs (hname ▸ hp)).resolve_right fun hnot => hnot.2 hn
  rw [hs]
  obtain ⟨name, address, size, internal, prototype, parent⟩ := r
  obtain ⟨name', address', size', internal', prototype', parent'⟩ := s
  simp_all

end

/-! ## Lifts from states that look alike -/

/-- Two states that look alike to a lift, on hosts with the prescribed prototypes. -/
structure Alike (m : Module) (s t : State) : Prop where
  scope : s.scope = t.scope
  stack : s.stack = t.stack
  counter : s.counter = t.counter
  setting : s.host.setting = t.host.setting
  left : Provided m s.host.routineNumbers s.host
  right : Provided m t.host.routineNumbers t.host

/-- States that look alike are the same to a lift. -/
theorem Alike.outlook {m : Module} {s t : State} (h : Alike m s t) : s.outlook = t.outlook := by
  simp only [State.outlook, h.scope, h.stack, h.counter, symbols_of_setting h.setting,
    roster_of_setting h.setting]

/-- A routine that an address leads to is the same, its prototype included, if one is prescribed. -/
theorem Alike.routine?_eq {m : Module} {s t : State} (h : Alike m s t) {n : Nat}
    (hn : n ∈ s.host.routineNumbers)
    (hprescribed : ∀ r, s.host.routine? n = some r → ∃ p, m.Prescribes r.name p) :
    s.host.routine? n = t.host.routine? n := by
  cases hr : s.host.routine? n with
  | none =>
    have hbare := Host.map_bare_routine? (roster_of_setting h.setting) n
    rw [hr, Option.map_none, eq_comm, Option.map_eq_none_iff] at hbare
    exact hbare.symm
  | some r =>
    obtain ⟨p, hp⟩ := hprescribed r hr
    exact (h.left.routine?_eq h.setting h.right hn hr hp).symm

section

variable {m : Module} (hm : m.Closed) (hk : m.KnowsAll)

include hm hk

/-- Where the prescribed prototypes are there, a call leaves them. -/
theorem Provided.runs_ensurePrototype {w : Workspace} (hw : Provided m w.host.routineNumbers w.host)
    (number : Nat) {e : FunctionHandle} {s : FunctionSignature} (hs : m.signatureOf e = .ok s) :
    ∃ w', Runs (ensurePrototype m number s) w () w' ∧ w'.host.setting = w.host.setting ∧
      Provided m w'.host.routineNumbers w'.host := by
  obtain ⟨p, hp⟩ := m.exists_prototype hm hk hs
  obtain ⟨_, w', hrun, hw'⟩ := hw.ends_ensurePrototype hp fun hn : number ∈ w.host.routineNumbers => .inl hn
  have hsetting := ((lasting_setting w.host.setting).ensurePrototype m number s).of_runs hrun rfl
  refine ⟨w', hrun, hsetting, ?_⟩
  rw [routineNumbers_of_setting hsetting]
  exact hw'.mono fun n _ hn => List.mem_cons_of_mem _ hn

/-- From states that look alike, each part of a lift ends in the same way, in states that look alike. -/
theorem pervades_respects : Pervades m fun _ x => Respects (Alike m) x where
  pure := respects_pure
  bind := Respects.bind
  throw := respects_throw
  tryCatch := Respects.tryCatch
  look hlook := respects_look fun s t h => hlook s t h.outlook
  change scope stack counter := respects_modify fun s t h =>
    { h with
      scope := congrArg scope h.scope
      stack := congrArg stack h.stack
      counter := congrArg counter h.counter }
  record e := respects_modify fun s t h => { h with }
  typing token := by
    -- Whatever was entered into the two registries, they agree on the type of a token.
    intro s t h
    rw [outcome_onHost, outcome_onHost, outcome_onTypes, outcome_onTypes]
    obtain ⟨hresult, hs, ht⟩ :=
      Typing.respects_typeOf (m := m) TypeRegistry.standard_new token _ _ ⟨h.left.types, h.right.types⟩
    exact ⟨hresult, { h with left := ⟨hs, h.left.prototypes⟩, right := ⟨ht, h.right.prototypes⟩ }⟩
  prototype number e signature hsignature := by
    -- On both hosts the call ends, and leaves the prototypes that are prescribed.
    intro s t h
    obtain ⟨w, hw, hwsetting, hwprovided⟩ := h.left.runs_ensurePrototype hm hk number hsignature
    obtain ⟨v, hv, hvsetting, hvprovided⟩ := h.right.runs_ensurePrototype hm hk number hsignature
    rw [outcome_onHost, outcome_onHost, show outcome _ s.toWorkspace = (.ok (), w) from hw,
      show outcome _ t.toWorkspace = (.ok (), v) from hv]
    refine ⟨rfl, { h with setting := ?_, left := hwprovided, right := hvprovided }⟩
    exact hwsetting.trans (h.setting.trans hvsetting.symm)

end

end Lift

/-! ## Routines -/

/-- A workspace on whose host nothing but lifts may have been done since it was `h`. -/
structure Since (m : Module) (h : Host) (w : Workspace) : Prop where
  setting : w.host.setting = h.setting
  provided : Provided m [] w.host

namespace Since

variable {c : Converter} {h : Host} {w v : Workspace} (hm : c.owner.Closed) (hk : c.owner.KnowsAll)

include hm hk

/-- The function of a lift is lifted on a host that has the prescribed prototypes. -/
theorem runs_assignPrototypes (hw : Since c.owner h w) :
    ∃ w', Runs (assignPrototypes c.owner) w () w' ∧ w'.host.setting = h.setting ∧
      Provided c.owner w'.host.routineNumbers w'.host := by
  obtain ⟨_, w', hrun, hw'⟩ := hw.provided.ends_assignPrototypes hm hk
  have hsetting := ((lasting_setting h.setting).assignPrototypes c.owner).of_runs hrun hw.setting
  refine ⟨w', hrun, hsetting, ?_⟩
  rwa [routineNumbers_of_setting (hsetting.trans hw.setting.symm)]

/-- From two workspaces on the same host a function is lifted in the same way. -/
theorem outcomes_liftFunction (hw : Since c.owner h w) (hv : Since c.owner h v)
    (f : Entry FunctionDef) : ∃ w₁ v₁ result s t, Runs (assignPrototypes c.owner) w () w₁ ∧
      Runs (assignPrototypes c.owner) v () v₁ ∧
      outcome (liftFunction c.owner c.removed f) (fresh w₁) = (result, s) ∧
      outcome (liftFunction c.owner c.removed f) (fresh v₁) = (result, t) ∧ s.host.setting = h.setting ∧
      Alike c.owner s t := by
  obtain ⟨w₁, hwrun, hwsetting, hw₁⟩ := hw.runs_assignPrototypes hm hk
  obtain ⟨v₁, hvrun, hvsetting, hv₁⟩ := hv.runs_assignPrototypes hm hk
  have halike : Alike c.owner (fresh w₁) (fresh v₁) :=
    ⟨rfl, rfl, rfl, hwsetting.trans hvsetting.symm, hw₁, hv₁⟩
  obtain ⟨result, s, t, hs, ht, hst⟩ :=
    ((pervades_respects hm hk).liftFunction c.removed f).outcomes halike
  have hsetting := ((lasting_setting h.setting).pervades c.owner).liftFunction c.removed f (fresh w₁) hwsetting
  rw [hs] at hsetting
  exact ⟨w₁, v₁, result, s, t, hwrun, hvrun, hs, ht, hsetting, hst⟩

/-- However a lift ends, nothing but a lift was done. -/
theorem preserves_lift (target : RoutineRef) : Preserves (Since c.owner h) (c.lift target) := by
  intro w hw
  refine ⟨(lasting_setting h.setting).lift c target w hw.setting, ?_⟩
  obtain ⟨found, hfound⟩ := hm.functionNamed? (target.nameIn w.host)
  cases found with
  | none =>
    rw [Converter.outcome_lift_of_not_found hfound]
    exact hw.provided
  | some f =>
    obtain ⟨w₁, _, result, s, _, hassign, -, hs, -, -, hst⟩ := hw.outcomes_liftFunction hm hk hw f
    rw [Converter.outcome_lift_of_found hfound hassign, hs]
    have hprovided : Provided c.owner [] s.host := hst.left.mono fun _ _ hn => absurd hn List.not_mem_nil
    cases result with
    | error fault => exact hprovided
    | ok lifted => exact hprovided

/-- A routine that an address leads to is lifted in the same way from two workspaces on the same host. -/
theorem lift_eq (hw : Since c.owner h w) (hv : Since c.owner h v) {n : Nat} (hn : n ∈ h.routineNumbers) :
    (outcome (c.lift (.hosted n)) w).1 = (outcome (c.lift (.hosted n)) v).1 := by
  have hroster := (roster_of_setting hw.setting).trans (roster_of_setting hv.setting).symm
  have hname : (RoutineRef.hosted n).nameIn w.host = (RoutineRef.hosted n).nameIn v.host := by
    have hbare := congrArg (fun r => (r.map (·.name)).getD "") (Host.map_bare_routine? hroster n)
    simpa [RoutineRef.nameIn, RoutineRef.resolve?, Function.comp_def, Routine.bare] using hbare
  obtain ⟨found, hfound⟩ := hm.functionNamed? ((RoutineRef.hosted n).nameIn w.host)
  cases found with
  | none =>
    rw [Converter.outcome_lift_of_not_found hfound, Converter.outcome_lift_of_not_found (hname ▸ hfound),
      hname]
  | some f =>
    obtain ⟨w₁, v₁, result, s, t, hwassign, hvassign, hs, ht, hsetting, hst⟩ :=
      hw.outcomes_liftFunction hm hk hv f
    rw [Converter.outcome_lift_of_found hfound hwassign,
      Converter.outcome_lift_of_found (hname ▸ hfound) hvassign, hs, ht, ← hname]
    cases result with
    | error fault => rfl
    | ok lifted =>
      -- The routine that is looked up behind the lift is the same, as its name leads to a function.
      have hroutine := hst.routine?_eq (routineNumbers_of_setting hsetting ▸ hn) fun r hr => by
        obtain ⟨r', hr', hbare⟩ := Host.exists_routine?
          (roster_of_setting (hsetting.trans hw.setting.symm)) hr
        have hrname : (RoutineRef.hosted n).nameIn w.host = r.name := by
          rw [RoutineRef.nameIn, RoutineRef.resolve?, hr', Option.map_some, Option.getD_some,
            Routine.name_eq_of_bare hbare]
        exact Module.exists_prescribes hm hk (hrname ▸ hfound)
      simp only [RoutineRef.resolve?, hroutine]

end Since

namespace Since

variable {m : Module} {h : Host} {w v : Workspace}

/-- A host that has the Move types is not prepared again. -/
theorem runs_prepare (hw : Since m h w) : Runs prepare w () w := by
  have htypes := (TypeRegistry.standard_new.of_grows hw.provided.types).withMoveTypes_eq
  refine runs_modify.mpr ?_
  rw [Host.withMoveTypes, htypes]

variable (hm : m.Closed) (hk : m.KnowsAll)

include hm hk

end Since

/-- The workspace behind lifts of these routines, however each of them ended. -/
def Converter.after (c : Converter) (earlier : List RoutineRef) (w : Workspace) : Workspace :=
  earlier.foldl (fun w target => (outcome (c.lift target) w).2) w

/-- Lifts that came before changed nothing but types and prototypes. -/
theorem Since.after {c : Converter} (hm : c.owner.Closed) (hk : c.owner.KnowsAll) {h : Host}
    {w : Workspace} (hw : Since c.owner h w) (earlier : List RoutineRef) :
    Since c.owner h (c.after earlier w) := by
  -- By induction on the lifts, each of which may end with a fault.
  induction earlier generalizing w with
  | nil => exact hw
  | cons target rest ih => exact ih (preserves_lift hm hk target w hw)

namespace Analysis

variable {config : Config} {data : Bytes} {a : Analysis}

/-- On a host that was just published nothing was done. -/
theorem since_start (hload : ofBytes config data = .ok a) :
    Since a.owner a.host (.ofHost a.host) where
  setting := rfl
  provided := by
    refine ⟨?_, fun n _ r p hr _ => .inr ⟨?_, List.not_mem_nil⟩⟩
    · change TypeRegistry.prepared.Grows a.host.types
      rw [types_of_ofBytes hload]
      exact .refl _
    · rw [← bare_of_ofBytes hload hr]
      rfl

end Analysis

end MoveBytecode
