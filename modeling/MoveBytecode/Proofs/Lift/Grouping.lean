import Mathlib.Data.List.ReduceOption
import MoveBytecode.Proofs.Lift.Endings
import MoveBytecode.Proofs.Lift.History

/-!
# Rebuilding

A rebuild lifts the internal routines one after the other and then groups all of them into a new class. As
a lift does not depend on those before it, one that fails changes nothing for the others
(`Since.ends_liftOrRecord`); and as the routines have addresses of their own, none of them is taken for
another when they are grouped (`Host.Gathers.ends_group`). A rebuild that is refused changes nothing
(`Analysis.rebuild_isolates`).
-/

namespace MoveBytecode

open Lift

/-! ## Grouping -/

namespace Host

/-- The numbers are those of routines in the order of their addresses, each once. -/
structure InOrder (h : Host) (numbers : List Nat) : Prop where
  routines : ∀ n ∈ numbers, ∃ r, h.routine? n = some r
  pairwise : numbers.Pairwise fun m n =>
    ∀ r s, h.routine? m = some r → h.routine? n = some s → r.address < s.address

/-- The internal routines of a host are listed in the order of their addresses, each once. -/
theorem inOrder_internalNumbers {h : Host} {rs : List Routine}
    (hroster : h.roster = (ofRoutines rs).roster) : h.InOrder h.internalNumbers where
  routines n hn := by
    have hinternal := (List.mem_filter.mp hn).2
    rw [Option.any_eq_true] at hinternal
    obtain ⟨r, hr, -⟩ := hinternal
    exact ⟨r, hr⟩
  pairwise := (pairwise_routineNumbers hroster).filter _

/-- A host that has a class with these routines besides those of `h`. -/
structure Gathers (h : Host) (className : String) (done : List Nat) (h' : Host) : Prop where
  segments : h'.segments = h.segments
  symbols : h'.symbols = h.symbols
  directory : h'.directory = h.directory
  classes : h'.classes = h.classes ++ [⟨className, done⟩]
  routine? : ∀ n, h'.routine? n = (h.routine? n).map fun r =>
    if n ∈ done then { r with parent := some className } else r

namespace Gathers

variable {h h' : Host} {className : String} {done : List Nat}

/-- Nothing but the classes of routines has changed. -/
theorem roster_eq (hg : h.Gathers className done h') : h'.roster = h.roster := by
  have hroutine (n : Nat) : (h'.routine? n).map Routine.bare = (h.routine? n).map Routine.bare := by
    rw [hg.routine?, Option.map_map]
    congr 1
    funext r
    simp only [Function.comp_apply]
    split
    · rfl
    · rfl
  refine Prod.ext hg.directory (Array.ext_getElem? fun n => ?_)
  rw [roster, roster, Array.getElem?_map, Array.getElem?_map]
  exact hroutine n

/-- A routine whose address none of the methods has becomes the last of them. -/
theorem group (hg : h.Gathers className done h') (hnew : h.classNamed? className = none) {n : Nat}
    {r : Routine} (hr : h.routine? n = some r)
    (hothers : ∀ k ∈ done, ∀ s, h.routine? k = some s → s.address ≠ r.address) :
    h.Gathers className (done ++ [n]) ((h'.addMethod className n).moveToClass n className) where
  segments := hg.segments
  symbols := hg.symbols
  directory := hg.directory
  classes := by
    -- The methods are told from the routine by their addresses, and the other classes by their names.
    have hfresh : (done.any fun k => h'.routine? k == h'.routine? n) = false := by
      rw [List.any_eq_false]
      intro k hk heq
      have hbare := congrArg (Option.map Routine.bare) (beq_iff_eq.mp heq)
      rw [map_bare_routine? hg.roster_eq, map_bare_routine? hg.roster_eq, hr, Option.map_some,
        Option.map_eq_some_iff] at hbare
      obtain ⟨s, hs, hsr⟩ := hbare
      exact hothers k hk s hs (Routine.address_eq_of_bare hsr)
    have hnames : ∀ c ∈ h.classes, c.name ≠ className := by
      simpa [classNamed?] using hnew
    change (h'.classes.map _) = _
    rw [hg.classes, List.map_append, List.map_singleton]
    congr 1
    · refine (List.map_congr_left fun c hc => ?_).trans (List.map_id _)
      simp [hnames c hc]
    · simp [hfresh]
  routine? k := by
    rw [moveToClass, updateRoutine, Host.routine?, Array.getElem?_modify]
    change (if n = k then Option.map _ (h'.routine? k) else h'.routine? k) = _
    rw [hg.routine? k]
    cases h.routine? k with
    | none => simp
    | some s =>
      by_cases hk : n = k
      · by_cases hdone : k ∈ done
        · simp [hk, hdone]
        · simp [hk, hdone]
      · simp [hk, Ne.symm hk]

/-- Routines in the order of their addresses become the methods, in this order. -/
theorem ends_group (hnew : h.classNamed? className = none) {numbers : List Nat}
    (horder : h.InOrder (done ++ numbers)) {w : Workspace} (hg : h.Gathers className done w.host) :
    Ends (numbers.forM (Module.group className)) w fun _ w' =>
      h.Gathers className (done ++ numbers) w'.host := by
  -- By induction on the routines that are left; those that are done have lower addresses.
  induction numbers generalizing done w with
  | nil =>
    rw [List.append_nil]
    exact ends_pure hg
  | cons n rest ih =>
    obtain ⟨r, hr⟩ := horder.routines n (by simp)
    have hothers (k : Nat) (hk : k ∈ done) (s : Routine) (hs : h.routine? k = some s) :
        s.address ≠ r.address :=
      Int.ne_of_lt ((List.pairwise_append.mp horder.pairwise).2.2 k hk n List.mem_cons_self s r hs hr)
    rw [List.append_cons] at horder ⊢
    exact Ends.bind (ends_modify (hg.group hnew hr hothers)) fun _ w' _ hw' => ih horder hw'

end Gathers

end Host

/-! ## Lifts of a rebuild -/

/-- A rebuild takes the result of a lift, or goes on without one, if no fault is one in how it is used. -/
theorem Module.ends_liftOrRecord {m : Module} {n : Nat} {w : Workspace}
    (hfaults : ∀ fault, (outcome ((Converter.mk m []).lift (.hosted n)) w).1 = .error fault →
      fault.kind.isAnalysis = true) :
    Ends (m.liftOrRecord n) w fun l _ =>
      l = (outcome ((Converter.mk m []).lift (.hosted n)) w).1.toOption := by
  refine ends_bind_get ?_
  rcases hout : outcome ((Converter.mk m []).lift (.hosted n)) w with ⟨fault | l, t⟩
  · have hanalysis : fault.kind.isAnalysis = true := hfaults fault (by rw [hout])
    refine ends_tryCatch_of_error (outcome_bind_of_error hout) ?_
    rw [if_pos hanalysis]
    exact Ends.bind (P := fun _ _ => True) (ends_modify trivial) fun _ _ _ _ => ends_pure rfl
  · exact ends_tryCatch_of_runs (runs_bind.mpr ⟨l, t, hout, runs_pure.mpr ⟨rfl, rfl⟩⟩) rfl

namespace Since

variable {m : Module} {h : Host} {w v : Workspace} (hm : m.Closed) (hk : m.KnowsAll)

include hm hk

/-- A lift that is recorded rather than thrown changes nothing but types and prototypes. -/
theorem preserves_liftOrRecord (number : Nat) : Preserves (Since m h) (m.liftOrRecord number) :=
  Lift.preserves_liftOrRecord (preserves_lift (c := Converter.mk m []) hm hk _)
    fun _ => preserves_modify fun _ hw => ⟨hw.setting, hw.provided⟩

/-- In a rebuild a routine is lifted as it is alone, or it is left out as it is not lifted alone. -/
theorem ends_liftOrRecord (hw : Since m h w) (hv : Since m h v) {n : Nat} (hn : n ∈ h.routineNumbers)
    (hfaults : ∀ fault, (outcome ((Converter.mk m []).lift (.hosted n)) v).1 = .error fault →
      fault.kind.isAnalysis = true) :
    Ends (m.liftOrRecord n) w fun l w' =>
      l = (outcome ((Converter.mk m []).lift (.hosted n)) v).1.toOption ∧ Since m h w' := by
  rw [← hw.lift_eq (c := Converter.mk m []) hm hk hv hn] at hfaults ⊢
  exact (Module.ends_liftOrRecord hfaults).mono fun l w' hrun hl =>
    ⟨hl, (preserves_liftOrRecord hm hk n).of_runs hrun hw⟩

end Since

/-! ## Workspaces between rebuilds -/

/-- A class for a routine changes nothing of what a lift needs. -/
theorem Lift.Provided.moveToClass {m : Module} {done : List Nat} {h : Host} (hh : Provided m done h)
    (className : String) (number : Nat) :
    Provided m done ((h.addMethod className number).moveToClass number className) where
  types := hh.types
  prototypes n hn r p hr hp := by
    have hr : (h.routines.modify number fun r => { r with parent := some className })[n]? = some r := hr
    rw [Array.getElem?_modify] at hr
    split at hr
    · obtain ⟨s, hs, rfl⟩ := Option.map_eq_some_iff.mp hr
      exact hh.prototypes n hn s p hs hp
    · exact hh.prototypes n hn r p hr hp

namespace Analysis

variable {config : Config} {data : Bytes} {a : Analysis}

/-- Whatever is done with an analysis leaves the types and the prototypes that a lift needs. -/
theorem Reaches.provided (hload : ofBytes config data = .ok a) {w : Workspace} (hw : a.Reaches w) :
    Provided a.owner [] w.host := by
  have hloads := (loads_and_published hload).1
  have hm := hloads.decoded.1.closed
  have hk := hloads.knowsAll
  have hlift (removed : List Opcode) (target : RoutineRef) :
      Preserves (fun w => Provided a.owner [] w.host) ((Converter.mk a.owner removed).lift target) :=
    fun w hw =>
      (Since.preserves_lift (c := Converter.mk a.owner removed) hm hk target w ⟨rfl, hw⟩).provided
  -- The Move types are there, so that they are not entered again.
  have hprepare : Preserves (fun w => Provided a.owner [] w.host) Lift.prepare := fun w hw => by
    rwa [show outcome Lift.prepare w = (.ok (), w) from Since.runs_prepare (h := w.host) ⟨rfl, hw⟩]
  have hnote (e : Event) : Preserves (fun w => Provided a.owner [] w.host) (note e) :=
    preserves_modify fun w hw => hw
  induction hw with
  | start => exact (since_start hload).provided
  | prepare _ ih => exact hprepare _ ih
  | assign _ ih =>
    obtain ⟨_, w', hrun, hw'⟩ := ih.ends_assignPrototypes hm hk
    rw [show outcome _ _ = (.ok _, w') from hrun]
    exact hw'.mono fun _ _ hn => absurd hn List.not_mem_nil
  | lift removed target _ ih => exact hlift removed target _ ih
  | refine l graph _ ih => exact (preserves_get.bind fun _ => (hnote _).bind fun _ => preserves_pure _) _ ih
  | rebuild className _ ih =>
    exact preserves_rebuild hprepare (fun n => preserves_liftOrRecord (hlift [] (.hosted n)) hnote)
      (fun _ _ hw => ⟨hw.types, hw.prototypes⟩)
      (fun n => preserves_modify fun _ hw => hw.moveToClass className n) hnote _ ih

end Analysis

/-! ## Rebuilding -/

/-- A host that is `h` but for types and prototypes, and for a class of all internal routines in the order
of their addresses, each once, to which these have moved. -/
structure Host.Regrouped (h : Host) (className : String) (h' : Host) : Prop where
  segments : h'.segments = h.segments
  symbols : h'.symbols = h.symbols
  roster : h'.roster = h.roster
  classes : h'.classes = h.classes ++ [⟨className, h.internalNumbers⟩]
  members : ∀ n, n ∈ h.internalNumbers ↔ ∃ address, h.routineAt? address true = some n
  ordered : h.InOrder h.internalNumbers
  moved : ∀ n ∈ h.internalNumbers, (h'.routine? n).map (·.parent) = some (some className)
  kept : ∀ n ∉ h.internalNumbers, (h'.routine? n).map (·.parent) = (h.routine? n).map (·.parent)

/-- A host that has gathered its internal routines in a class has been regrouped. -/
theorem Host.Gathers.regrouped {h h₁ h' : Host} {className : String}
    (hg : h₁.Gathers className h.internalNumbers h') (hsetting : h₁.setting = h.setting)
    {rs : List Routine} (hroster : h.roster = (ofRoutines rs).roster) : h.Regrouped className h' where
  segments := hg.segments.trans (segments_of_setting hsetting)
  symbols := hg.symbols.trans (symbols_of_setting hsetting)
  roster := hg.roster_eq.trans (roster_of_setting hsetting)
  classes := by rw [hg.classes, classes_of_setting hsetting]
  members _ := mem_internalNumbers hroster
  ordered := inOrder_internalNumbers hroster
  moved n hn := by
    obtain ⟨r, hr⟩ := (inOrder_internalNumbers hroster).routines n hn
    obtain ⟨r₁, hr₁, -⟩ := exists_routine? (roster_of_setting hsetting).symm hr
    rw [hg.routine?, hr₁, Option.map_some, if_pos hn]
    rfl
  kept n hn := by
    have hparent := congrArg (Option.map (·.parent)) (routine?_of_setting hsetting n)
    rw [Option.map_map, Option.map_map] at hparent
    rw [hg.routine?, Option.map_map]
    simp only [if_neg hn]
    exact hparent

/-- Behind the lifts of a rebuild the class can be entered, and the routines are grouped into it. -/
theorem Since.ends_group {m : Module} {h : Host} {w : Workspace} (hw : Since m h w) {rs : List Routine}
    (hroster : h.roster = (Host.ofRoutines rs).roster) {className : String}
    (hnew : h.classNamed? className = none) :
    ∃ host, w.host.addClass className = .ok host ∧
      Ends (h.internalNumbers.forM (Module.group className)) { w with host } fun _ w' =>
        h.Regrouped className w'.host := by
  have hkept := roster_of_setting hw.setting
  have hnew' : w.host.classNamed? className = none := by
    rwa [Host.classNamed?, classes_of_setting hw.setting]
  have horder : w.host.InOrder ([] ++ h.internalNumbers) := by
    rw [List.nil_append, ← Host.internalNumbers_eq_of_roster hkept]
    exact Host.inOrder_internalNumbers (hkept.trans hroster)
  have hstart : w.host.Gathers className []
      { w.host with classes := w.host.classes ++ [⟨className, []⟩] } :=
    ⟨rfl, rfl, rfl, rfl, fun n => by simp [Host.routine?]⟩
  refine ⟨_, by rw [Host.addClass, hnew'], (hstart.ends_group hnew' horder).mono fun _ w' _ hw' => ?_⟩
  exact hw'.regrouped hw.setting hroster

/-- A script is not rebuilt. -/
theorem Module.outcome_rebuild_of_isScript {m : Module} (hscript : m.isScript = true)
    (className : String) (w : Workspace) : outcome (m.rebuild className) w = (.ok [], w) := by
  rw [rebuild, if_pos hscript]
  rfl

/-- A module is not rebuilt into a class that is there. -/
theorem Module.outcome_rebuild_of_classNamed? {m : Module} (hmodule : m.isScript = false)
    {className : String} {w : Workspace} (hclass : w.host.classNamed? className ≠ none) :
    outcome (m.rebuild className) w = (.error (.alreadyRebuilt className), w) := by
  rw [rebuild, if_neg (by simp [hmodule]), outcome_bind_of_runs (runs_get.mpr ⟨rfl, rfl⟩),
    if_pos (Option.isSome_iff_ne_none.mpr hclass)]
  rfl

namespace Analysis

variable {config : Config} {data : Bytes} {a : Analysis} {v w : Workspace}

/-- Lifts do not look at the classes of a host. -/
theorem Reaches.settled_and_since (hload : ofBytes config data = .ok a) (hv : a.Reaches v)
    (hw : w.host = { v.host with classes := w.host.classes }) :
    Settled a.host w ∧ Since a.owner w.host w := by
  have hsettled := hv.settled hload
  have hprovided := hv.provided hload
  refine ⟨⟨?_, ?_, ?_⟩, rfl, ?_⟩
  · rw [hw]
    exact hsettled.types
  · rw [hw]
    exact hsettled.symbols
  · rw [hw]
    exact hsettled.roster
  · rw [hw]
    exact ⟨hprovided.types, hprovided.prototypes⟩

/-- A rebuild into a new class ends with the class of all internal routines, and gives what each of them
is lifted to on its own. -/
theorem ends_rebuild (hload : ofBytes config data = .ok a) (hmodule : a.owner.isScript = false)
    (hv : a.Reaches v) (hw : w.host = { v.host with classes := w.host.classes }) {className : String}
    (hnew : w.host.classNamed? className = none) :
    Ends (a.owner.rebuild className) w fun lifted w' => w.host.Regrouped className w'.host ∧
      lifted = w.host.internalNumbers.filterMap fun n =>
        (outcome ((Converter.mk a.owner []).lift (.hosted n)) w).1.toOption := by
  obtain ⟨hloads, bodies, imports, hpublished⟩ := loads_and_published hload
  obtain ⟨hsettled, hsince⟩ := hv.settled_and_since hload hw
  have hroster := (hpublished.of_roster hsettled.roster).roster
  -- No lift has a fault that a rebuild does not record.
  have hfaults (n : Nat) (hn : n ∈ w.host.internalNumbers) (fault : Fault)
      (hfault : (outcome ((Converter.mk a.owner []).lift (.hosted n)) w).1 = .error fault) :
      fault.kind.isAnalysis = true := by
    obtain ⟨r, hr⟩ := (Host.inOrder_internalNumbers hroster).routines n hn
    exact Converter.isAnalysis_of_lift (grounded hload) hsettled hloads hr hfault
  have hlifts := ends_mapM_map (fun n hn t (ht : Since a.owner w.host t) =>
    ht.ends_liftOrRecord hloads.decoded.1.closed hloads.knowsAll hsince (List.mem_of_mem_filter hn)
      (hfaults n hn)) hsince
  rw [Module.rebuild, if_neg (by simp [hmodule])]
  refine ends_bind_get ?_
  rw [if_neg (by simp [hnew])]
  refine ends_bind_of_runs hsince.runs_prepare (ends_bind_get (hlifts.bind ?_))
  rintro _ w₁ - ⟨rfl, hw₁⟩
  -- The lifts have brought no class, so the new one can be entered.
  obtain ⟨host, hclass, hgroup⟩ := hw₁.ends_group hroster hnew
  refine ends_bind_get (ends_bind_ofExcept hclass ?_)
  refine ends_bind_of_runs (a := ⟨⟩) (runs_set.mpr rfl) (hgroup.bind fun _ w₂ _ hw₂ => ?_)
  refine ends_bind_of_runs (a := ⟨⟩) (runs_modify.mpr rfl) (ends_pure ⟨hw₂, ?_⟩)
  rw [List.reduceOption, List.filterMap_map]
  rfl

end Analysis

end MoveBytecode
