import MoveBytecode.CommandLine
import MoveBytecode.Proofs.Lift.Grouping
import MoveBytecode.Proofs.Loading.Totality

/-!
# Runs of the command line

A run on a file that can be read ends with an exit code, as every fault in it is of a class that the
command line reports (`CommandLine.serve_ends`). Faults come from the load, from a name that no function
has, and from lifts; in the standard layout every function has a routine to be lifted, as long as the code
stays in front of the slots (`Analysis.exists_routineAt?`).
-/

namespace MoveBytecode

variable {ε σ α β : Type}

/-! ## Computations that fail in known ways -/

/-- From a state of which `I` holds, a computation goes to another, and a fault with which it ends
satisfies `P`. -/
def Confined (I : σ → Prop) (P : ε → Prop) (x : ExceptT ε (StateM σ) α) : Prop :=
  ∀ s, I s → I (outcome x s).2 ∧ ∀ fault, (outcome x s).1 = .error fault → P fault

section

variable {I : σ → Prop} {P : ε → Prop}

/-- Returning a value is confined. -/
theorem confined_pure (a : α) : Confined I P (pure a : ExceptT ε (StateM σ) α) :=
  fun _ hs => ⟨hs, fun fault h => by simp [outcome_pure] at h⟩

/-- Throwing a fault that satisfies `P` is confined. -/
theorem confined_throw {e : ε} (he : P e) : Confined I P (throw e : ExceptT ε (StateM σ) α) :=
  fun _ hs => ⟨hs, fun fault h => by
    obtain rfl : e = fault := by simpa [outcome_throw] using h
    exact he⟩

/-- A computation that always ends with a value and preserves `I` is confined. -/
theorem confined_of_runs {x : ExceptT ε (StateM σ) α} (hx : ∀ s, I s → ∃ a s', Runs x s a s')
    (hI : Preserves I x) : Confined I P x := by
  intro s hs
  obtain ⟨a, s', hrun⟩ := hx s hs
  refine ⟨hI s hs, fun fault h => ?_⟩
  rw [show outcome x s = (.ok a, s') from hrun] at h
  simp at h

/-- A sequence is confined if its parts are, where they come to run. -/
theorem Confined.bind {x : ExceptT ε (StateM σ) α} {f : α → ExceptT ε (StateM σ) β}
    (hx : Confined I P x) (hf : ∀ s a s', I s → I s' → Runs x s a s' → Confined I P (f a)) :
    Confined I P (x >>= f) := by
  intro s hs
  obtain ⟨ht, hfaults⟩ := hx s hs
  rw [outcome_bind]
  rcases h : outcome x s with ⟨e | a, t⟩
  · rw [h] at ht hfaults
    refine ⟨ht, fun fault hfault => ?_⟩
    obtain rfl := Except.error.inj hfault
    exact hfaults e rfl
  · rw [h] at ht
    exact hf s a t hs ht h t ht

/-- A sequence that first reads the state is confined if the rest is with every state of which `I`
holds. -/
theorem confined_bind_get {f : σ → ExceptT ε (StateM σ) β} (hf : ∀ s, I s → Confined I P (f s)) :
    Confined I P (get >>= f) := by
  intro s hs
  rw [outcome_bind_of_runs (runs_get.mpr ⟨rfl, rfl⟩)]
  exact hf s hs s hs

/-- Mapping a list is confined if mapping each element is. -/
theorem confined_mapM {f : α → ExceptT ε (StateM σ) β} {l : List α} (hf : ∀ a ∈ l, Confined I P (f a)) :
    Confined I P (l.mapM f) := by
  induction l with
  | nil => exact confined_pure []
  | cons a rest ih =>
    rw [List.mapM_cons]
    refine (hf a List.mem_cons_self).bind fun _ b _ _ _ _ => ?_
    exact (ih fun a ha => hf a (List.mem_cons_of_mem _ ha)).bind fun _ bs _ _ _ _ => confined_pure _

end

/-- Taking over a result is confined if its faults satisfy `P`. -/
theorem confined_ofExcept {I : σ → Prop} {P : Fault → Prop} {r : Except Fault α} (hr : Raises P r) :
    Confined I P (Lift.ofExcept r : ExceptT Fault (StateM σ) α) := by
  cases r with
  | ok a => exact confined_pure a
  | error e => exact confined_throw (hr e rfl)

/-! ## Faults of the views -/

namespace CommandLine

/-- A fault that the command line reports. -/
def Reported (fault : Fault) : Prop := reports fault.kind = true

/-- The faults of the analysis are reported. -/
theorem reported_of_isAnalysis {fault : Fault} (h : fault.kind.isAnalysis = true) : Reported fault := by
  simp [Reported, reports, h]

/-- A choice of functions fails only if no function has the name, and it gives functions with bodies. -/
theorem raises_selectFunctions {m : Module} (hm : m.Closed) (name : String) :
    Raises Reported (m.selectFunctions name) := by
  unfold Module.selectFunctions
  split
  · exact raises_pure _
  · refine (hm.functionNamed? name).raises.bind fun found _ => ?_
    cases found with
    | some f => exact raises_pure _
    | none => exact raises_error rfl

/-- The functions that are chosen by name have a body in the module. -/
theorem mem_of_selectFunctions {m : Module} {name : String} {fs : List (Entry FunctionDef)}
    (h : m.selectFunctions name = .ok fs) : ∀ f ∈ fs, f ∈ m.internalFunctions := by
  unfold Module.selectFunctions at h
  split at h
  · obtain rfl := pure_eq_ok.mp h
    exact fun f hf => hf
  · obtain ⟨found, hfound, h⟩ := bind_eq_ok.mp h
    cases found with
    | none => simp [throw, throwThe, MonadExceptOf.throw] at h
    | some f =>
      obtain rfl := pure_eq_ok.mp h
      intro g hg
      rw [List.mem_singleton.mp hg]
      exact mem_of_findM? hfound

/-- A disassembly has only faults that are reported. -/
theorem raises_disassembly {m : Module} (hm : m.Closed) (name : String) :
    Raises Reported (m.disassembly name) := by
  refine (raises_selectFunctions hm name).bind fun fs hfs => ?_
  refine (answers_mapM fun f hf => ?_).raises.bind fun _ _ => raises_pure _
  exact hm.disassemble (Module.record_mem_functions (mem_of_selectFunctions hfs f hf))

/-- A graph has only faults that are reported. -/
theorem raises_graph {a : Analysis} (hm : a.owner.Closed) (name : String) :
    Raises Reported (a.graph name) := by
  refine (raises_selectFunctions hm name).bind fun fs _ => ?_
  cases fs with
  | nil => exact raises_error rfl
  | cons f rest => exact raises_pure _

/-- The source of lifted functions can always be written. -/
theorem answers_source {m : Module} (hm : m.Closed) (h : Host) (lifted : List Lift.Lifted) :
    Answers (m.source h lifted) := by
  have hmethod (r : Routine) : Answers (m.methodDeclaration r) :=
    (hm.functionNamed? r.name).bind fun _ _ => answers_pure _
  refine (answers_mapM fun l _ => ?_).bind fun _ _ => answers_pure _
  exact (hmethod l.routine).bind fun _ _ => answers_pure _

end CommandLine

namespace Analysis

open Lift CommandLine

/-- In the standard layout every function with a body has a routine, whatever has been done with the
analysis. -/
theorem exists_routineAt? {data : Bytes} {a : Analysis} (hload : ofBytes .standard data = .ok a)
    (hsize : (a.owner.internalFunctions.map fun f => f.record.code.size).sum < 0x10000000)
    {f : Entry FunctionDef} (hf : f ∈ a.owner.internalFunctions) {w : Workspace} (hw : a.Reaches w) :
    ∃ n, w.host.routineAt? f.mapping.start true = some n := by
  obtain ⟨hloads, bodies, imports, hpublished⟩ := loads_and_published hload
  exact (hpublished.of_roster hw.roster).exists_routineAt? hf fun e he =>
    Int.ne_of_gt (hloads.start_lt_slot hsize hf he)

section

variable {config : Config} {data : Bytes} {a : Analysis} (hload : ofBytes config data = .ok a)

include hload

/-- A lift of a routine that the host has fails only with faults in what is analysed. -/
theorem confined_lift_hosted {n : Nat} {w : Workspace} (hw : a.Reaches w) {r : Routine}
    (hr : w.host.routine? n = some r) :
    Confined a.Reaches Reported ((Converter.mk a.owner []).lift (.hosted n)) := by
  intro v hv
  obtain ⟨s, hs, -⟩ := Host.exists_routine? (hw.roster.trans hv.roster.symm) hr
  refine ⟨hv.lift [] _, fun fault hfault => reported_of_isAnalysis ?_⟩
  exact Converter.isAnalysis_of_lift (grounded hload) (hv.settled hload) (loads_and_published hload).1 hs
    hfault

omit hload in
/-- Preparing a lift stays in reachable workspaces and has only faults that are reported. -/
theorem confined_prepare (a : Analysis) : Confined a.Reaches Reported Lift.prepare :=
  confined_of_runs (fun _ _ => ⟨(), _, runs_modify.mpr rfl⟩) fun _ hw => hw.prepare

/-- Lifting the functions with a body stays in reachable workspaces and has only faults that are
reported. -/
theorem confined_liftInternal : Confined a.Reaches Reported a.owner.liftInternal := by
  refine (confined_prepare a).bind fun _ _ _ _ _ _ => confined_bind_get fun w hw => ?_
  refine confined_mapM fun n hn => ?_
  obtain ⟨-, bodies, imports, hpublished⟩ := loads_and_published hload
  obtain ⟨r, hr⟩ := (Host.inOrder_internalNumbers (hpublished.of_roster hw.roster).roster).routines n hn
  exact confined_lift_hosted hload hw hr

/-- Rebuilding a module stays in reachable workspaces and has only faults that are reported. -/
theorem confined_rebuild : Confined a.Reaches Reported a.owner.rebuild := by
  intro w hw
  refine ⟨hw.rebuild _, fun fault hfault => ?_⟩
  cases hkind : a.owner.isScript with
  | true =>
    rw [Module.outcome_rebuild_of_isScript hkind] at hfault
    simp at hfault
  | false =>
    -- Only a class of an earlier rebuild stops this one, and the fault that says so is reported.
    by_cases hclass : w.host.classNamed? Module.className = none
    · obtain ⟨lifted, w', hrun, -⟩ := ends_rebuild hload hkind hw rfl hclass
      rw [show outcome _ w = (.ok lifted, w') from hrun] at hfault
      simp at hfault
    · rw [Module.outcome_rebuild_of_classNamed? hkind hclass] at hfault
      obtain rfl := Except.error.inj hfault
      rfl

omit hload in
/-- Refining a lifted function stays in reachable workspaces and has only faults that are reported. -/
theorem confined_refine (a : Analysis) (l : Lift.Lifted) (graph : Option Graph) :
    Confined a.Reaches Reported (Lift.refine l graph) := by
  refine confined_of_runs (fun w _ => ?_) fun _ hw => hw.refine l graph
  exact ⟨_, _, runs_bind.mpr ⟨w, w, runs_get.mpr ⟨rfl, rfl⟩,
    runs_bind.mpr ⟨(), _, runs_modify.mpr rfl, runs_pure.mpr ⟨rfl, rfl⟩⟩⟩⟩

/-- Decompiling a module stays in reachable workspaces and has only faults that are reported. -/
theorem confined_decompile : Confined a.Reaches Reported a.decompile := by
  have hm := (loads_and_published hload).1.decoded.1.closed
  have hrest (lifted : List Lifted) : Confined a.Reaches Reported (do
      let refined ← lifted.mapM fun l => do return (← refine l (some l.graph)).2
      Lift.ofExcept (a.owner.source (← get).host refined)) := by
    refine (confined_mapM fun l _ => ?_).bind fun _ refined _ _ _ _ => ?_
    · exact (confined_refine a l _).bind fun _ _ _ _ _ _ => confined_pure _
    · exact confined_bind_get fun w _ => confined_ofExcept (answers_source hm w.host refined).raises
  refine (confined_rebuild hload).bind fun _ rebuilt _ _ _ _ => ?_
  dsimp only
  -- What was not rebuilt is lifted as it is.
  split
  · exact (confined_liftInternal hload).bind fun _ lifted _ _ _ _ => hrest lifted
  · exact (confined_pure rebuilt).bind fun _ lifted _ _ _ _ => hrest lifted

end

section

variable {data : Bytes} {a : Analysis} (hload : ofBytes .standard data = .ok a)
  (hsize : (a.owner.internalFunctions.map fun f => f.record.code.size).sum < 0x10000000)

include hload hsize

/-- Lifting one function stays in reachable workspaces and has only faults that are reported. -/
theorem confined_liftAt {f : Entry FunctionDef} (hf : f ∈ a.owner.internalFunctions) :
    Confined a.Reaches Reported (liftAt a.owner f) := by
  refine confined_bind_get fun w hw => ?_
  obtain ⟨n, hn⟩ := exists_routineAt? hload hsize hf hw
  obtain ⟨r, hr⟩ := Host.exists_routine_of_routineAt? hn
  rw [hn]
  exact confined_lift_hosted hload hw hr

/-- Lifting the functions of a name stays in reachable workspaces and has only faults that are reported.
-/
theorem confined_lift (name : String) : Confined a.Reaches Reported (a.lift name) := by
  have hm := (loads_and_published hload).1.decoded.1.closed
  refine (confined_prepare a).bind fun _ _ _ _ _ _ => ?_
  refine (confined_ofExcept (raises_selectFunctions hm name)).bind fun _ fs _ _ _ hfs => ?_
  exact confined_mapM fun f hf =>
    confined_liftAt hload hsize (mem_of_selectFunctions (runs_ofExcept.mp hfs).1 f hf)

/-- Every view of a binary in the standard layout ends, with a text or with a fault that the command line
reports. -/
theorem confined_render (v : View) (name : String) :
    Confined a.Reaches Reported (v.render a name) := by
  have hm := (loads_and_published hload).1.decoded.1.closed
  cases v with
  | tables => exact confined_ofExcept hm.showTables.raises
  | disassembly => exact confined_ofExcept (raises_disassembly hm name)
  | graph =>
    exact (confined_ofExcept (raises_graph hm name)).bind fun _ _ _ _ _ _ => confined_pure _
  | flowchart =>
    exact (confined_ofExcept (raises_graph hm name)).bind fun _ _ _ _ _ _ => confined_pure _
  | ir => exact (confined_lift hload hsize name).bind fun _ _ _ _ _ _ => confined_pure _
  | source => exact confined_decompile hload
  | stats =>
    refine Confined.bind ?_ fun _ _ _ _ _ _ => confined_pure _
    exact (confined_lift hload hsize "").bind fun _ _ _ _ _ _ => confined_pure _

end

end Analysis

/-! ## Runs -/

/-- Reading a file has only faults that are reported. -/
theorem Analysis.reported_of_ofBytes {config : Config} {data : Bytes} {fault : Fault}
    (h : ofBytes config data = .error fault) : CommandLine.Reported fault := by
  rcases (Module.classified_loadInto config data .new).ends with ⟨loaded, hload⟩ | ⟨fault', hload, hloading⟩
  · simp [ofBytes, hload, bind, Except.bind, pure, Except.pure] at h
  · obtain rfl : fault' = fault := by
      simpa [ofBytes, hload, bind, Except.bind] using h
    exact CommandLine.reported_of_isAnalysis (by simp [FaultKind.isAnalysis, hloading])

namespace CommandLine

section

variable {data : Bytes} (hsize : ∀ a, Analysis.ofBytes .standard data = .ok a →
  (a.owner.internalFunctions.map fun f => f.record.code.size).sum < 0x10000000)

include hsize

/-- There is the text of a view, or a fault that the command line reports. -/
theorem raises_ofBytes (v : View) (name : String) :
    Raises Reported (v.ofBytes .standard data name).1 := by
  unfold View.ofBytes Analysis.observe
  cases hload : Analysis.ofBytes .standard data with
  | error fault => exact raises_error (Analysis.reported_of_ofBytes hload)
  | ok a => exact (Analysis.confined_render hload (hsize a hload) v name _ .start).2

/-- A run on a file that can be read ends with exit code zero or one, if the code of the binary is not
longer than the standard layout has addresses for it. It ends with zero exactly if the file begins like a
binary and there is a text of the view, which is the output then. -/
theorem serve_ends {files : String → Except Fault Bytes} {r : Complete} (hfile : files r.file = .ok data) :
    ∃ outcome, serve files r = .ok outcome ∧ (outcome.exit = 0 ∨ outcome.exit = 1) ∧
      (outcome.exit = 0 ↔ Header.identify data = true ∧
        ∃ text, (r.view.ofBytes .standard data r.function).1 = .ok text) ∧
      (∀ text, Header.identify data = true → (r.view.ofBytes .standard data r.function).1 = .ok text →
        outcome.output = text ++ "\n") ∧
      (outcome.exit = 1 → outcome.output = "") := by
  obtain ⟨file, view, function, verbose⟩ := r
  have hraises := raises_ofBytes hsize view function
  replace hfile : files file = .ok data := hfile
  -- A run stops at the header, or with a fault of the view, or it prints a text.
  cases hidentify : Header.identify data with
  | false =>
    have hrun : serve files ⟨file, view, function, verbose⟩ = .ok ⟨1, "", unlines
        (logLines verbose (Module.headerEvents data) ++ ["error: " ++ (Fault.notABinary file).message])⟩ := by
      simp [serve, render, hfile, hidentify, reports, Fault.kind, FaultKind.isAnalysis]
    exact ⟨_, hrun, by simp⟩
  | true =>
    rcases hview : view.ofBytes .standard data function with ⟨fault | text, events⟩
    · have hreports : reports fault.kind = true := hraises fault (by rw [hview])
      have hrun : serve files ⟨file, view, function, verbose⟩ =
          .ok ⟨1, "", unlines (logLines verbose events ++ ["error: " ++ fault.message])⟩ := by
        simp [serve, render, hfile, hidentify, hview, hreports]
      exact ⟨_, hrun, by simp⟩
    · have hrun : serve files ⟨file, view, function, verbose⟩ =
          .ok ⟨0, text ++ "\n", unlines (logLines verbose events)⟩ := by
        simp [serve, render, hfile, hidentify, hview]
      exact ⟨_, hrun, by simp⟩

end

/-- The listing of the sample is printed, and the fault that ends its lift is reported. -/
theorem serve_overflowSample :
    let files : String → Except Fault Bytes := fun _ => .ok overflowSample
    (∀ a, Analysis.ofBytes .standard overflowSample = .ok a →
      (a.owner.internalFunctions.map fun f => f.record.code.size).sum < 0x10000000) ∧
    (∃ text listed, (View.disassembly.ofBytes .standard overflowSample "").1 = .ok text ∧
      serve files ⟨"sample.mv", .disassembly, "", false⟩ = .ok listed ∧ listed.exit = 0 ∧
      listed.output = text ++ "\n") ∧
    ∃ lifted, serve files ⟨"sample.mv", .ir, "", false⟩ = .ok lifted ∧ lifted.exit = 1 ∧
      lifted.output = "" := by
  intro files
  have check : (Analysis.ofBytes .standard overflowSample).toOption.all (fun a =>
      (a.owner.internalFunctions.map fun f => f.record.code.size).sum < 0x10000000) = true := by
    decide +kernel
  have hsize (a : Analysis) (hload : Analysis.ofBytes .standard overflowSample = .ok a) :
      (a.owner.internalFunctions.map fun f => f.record.code.size).sum < 0x10000000 := by
    simpa [hload, Except.toOption] using check
  have hidentify : Header.identify overflowSample = true := by decide +kernel
  have hlisting : (View.disassembly.ofBytes .standard overflowSample "").1.toOption.isSome = true := by
    decide +kernel
  have hfault : (View.ir.ofBytes .standard overflowSample "").1.toOption.isNone = true := by
    decide +kernel
  -- The listing needs no lift, so it is shown; the lift fails, so the same file is refused.
  obtain ⟨listed, hlist, -, hzero, houtput, -⟩ := serve_ends hsize
    (show files (Complete.mk "sample.mv" .disassembly "" false).file = .ok overflowSample from rfl)
  obtain ⟨lifted, hlift, hexit, hzero', -, hempty⟩ := serve_ends hsize
    (show files (Complete.mk "sample.mv" .ir "" false).file = .ok overflowSample from rfl)
  refine ⟨hsize, ?_, ?_⟩
  · obtain ⟨text, htext⟩ := Option.isSome_iff_exists.mp hlisting
    replace htext := toOption_eq_some.mp htext
    exact ⟨text, listed, htext, hlist, hzero.mpr ⟨hidentify, text, htext⟩, houtput text hidentify htext⟩
  · have hone : lifted.exit = 1 := by
      refine hexit.resolve_left fun h => ?_
      obtain ⟨-, text, htext⟩ := hzero'.mp h
      simp [htext, Except.toOption] at hfault
    exact ⟨lifted, hlift, hone, hempty hone⟩

end CommandLine

end MoveBytecode
