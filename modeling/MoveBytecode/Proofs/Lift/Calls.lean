import MoveBytecode.Proofs.Format.Assembly
import MoveBytecode.Proofs.Lift.Roster
import MoveBytecode.Proofs.Loading.Publication

/-!
# Calls

A call of a handle with a body leads to the routine at the address of the handle, and one of a handle
without a body to the first routine of its name. `Converter.call_resolved` says where that is, in every
lift of every binary in the standard layout: which function keeps an address and which routine is the
first of a name was settled when the module was published, and work on the host leaves it as it is.
-/

namespace MoveBytecode

open Lift

/-! ## Lowered instructions -/

/-- The instructions that a lift of a function in a workspace lowers, with their statements. -/
def Converter.lowered (c : Converter) (f : Entry FunctionDef) (w : Workspace) :
    List (Placed × List Stmt) :=
  match c.opened f w with
  | (.ok frame, s) =>
    (Lift.visits frame s (Graph.ofFunction f).blocks).flatMap fun v =>
      v.lowerings.filterMap fun low =>
        (outcome (lowerAt frame low.placed) low.before).1.toOption.map fun step =>
          (low.placed, step.statements)
  | (.error _, _) => []

/-- What a lift lowers an instruction to is what one of its visits ran to. -/
theorem Converter.mem_lowered {c : Converter} {f : Entry FunctionDef} {w : Workspace} {p : Placed}
    {statements : List Stmt} : (p, statements) ∈ c.lowered f w ↔
      ∃ frame s, c.opened f w = (.ok frame, s) ∧
        ∃ v ∈ Lift.visits frame s (Graph.ofFunction f).blocks, ∃ low ∈ v.lowerings, low.placed = p ∧
          ∃ step t, Runs (lowerAt frame p) low.before step t ∧ step.statements = statements := by
  unfold lowered
  rcases c.opened f w with ⟨fault | frame, s⟩
  · simp
  · simp only [List.mem_flatMap, List.mem_filterMap, Option.map_eq_some_iff, Prod.mk.injEq]
    constructor
    · rintro ⟨v, hv, low, hlow, step, hstep, rfl, rfl⟩
      refine ⟨frame, s, ⟨rfl, rfl⟩, v, hv, low, hlow, rfl, step, _, Prod.ext ?_ rfl, rfl⟩
      exact toOption_eq_some.mp hstep
    · rintro ⟨frame', s', ⟨heq, rfl⟩, v, hv, low, hlow, rfl, step, t, hrun, rfl⟩
      obtain rfl := Except.ok.inj heq
      refine ⟨v, hv, low, hlow, step, ?_, rfl, rfl⟩
      rw [show outcome (lowerAt frame low.placed) low.before = (.ok step, t) from hrun]
      rfl

/-- An instruction is lowered in a state whose host has the roster of the workspace. -/
theorem Converter.exists_runs_of_mem_lowered {c : Converter} {f : Entry FunctionDef} {w : Workspace}
    {p : Placed} {statements : List Stmt} (h : (p, statements) ∈ c.lowered f w) :
    ∃ frame s t, frame.owner = c.owner ∧ s.host.roster = w.host.roster ∧
      Runs (lower frame p.instruction p.address) s statements t := by
  obtain ⟨frame, s, hopened, v, hv, low, hlow, rfl, step, _, hrun, rfl⟩ := mem_lowered.mp h
  obtain ⟨-, t, hrun, -⟩ := runs_lowerAt hrun
  refine ⟨frame, low.before, t, (opened_of_runs hopened).owner, ?_, hrun⟩
  have hassigned : (outcome (assignPrototypes c.owner) w).2.roster = w.roster :=
    leaves_assignPrototypes c.owner w
  have hstart : s.roster = (outcome (assignPrototypes c.owner) w).2.roster :=
    (leaves_openFunction c.owner c.removed f).of_runs hopened
  exact (roster_of_mem_visits hv hlow).trans (hstart.trans hassigned)

/-! ## Callees -/

namespace Lift

/-- A call of a handle becomes a call of its callee. -/
theorem runs_lowerCall {f : Frame} {i : Instruction} {address : Int} {s t : State}
    {statements : List Stmt} (h : Runs (lowerCall f i address) s statements t) :
    ∃ k e name n r returns params, i.operandValue = .ok k ∧ f.owner.functionHandles.get k = .ok e ∧
      f.owner.functionName e.record = .ok name ∧
      (s.host.routineAt? e.mapping.start true).or (s.host.routineNamed? name) = some n ∧
      (s.host.routine? n).map Routine.bare = some r ∧
      statements = [.call { name := r.name, address := r.address } returns params] := by
  obtain ⟨k, e, name, n, signature, s₁, params, s₂, returns, r, hk, he, hname, hn, hsignature, hprototype,
    hparams, hreturns, hr, rfl⟩ := stages_lowerCall h
  have hroster : t.host.roster = s.host.roster :=
    ((leaves_mapM (fun token => leaves_state_roster f.owner fun hP => hP.push token rfl) _).of_runs
      hreturns).trans <|
      ((leaves_state_roster f.owner fun hP => hP.composes.phases.popMany _).of_runs hparams).trans <|
      (leaves_state_roster f.owner fun hP => hP.prototype n hsignature).of_runs hprototype
  obtain ⟨r', hr', hbare⟩ := Host.exists_routine? hroster hr
  refine ⟨k, e, name, n, r'.bare, returns, params.map .var, hk, he, hname, hn, by rw [hr']; rfl, ?_⟩
  rw [hbare]
  rfl

end Lift

/-! ## Where calls lead -/

namespace Module

/-- No function that keeps its address and no handle without a body in front of this one has the
name. -/
structure FirstOfName (m : Module) (e : Entry FunctionHandle) (name : String) : Prop where
  bodies : ∀ f r, m.KeepsAddress f → m.bodyRoutine f = .ok r → r.name ≠ name
  imports : ∃ before after, m.externalHandles = before ++ e :: after ∧
    ∀ e' ∈ before, ∀ r, m.importRoutine e' = .ok r → r.name ≠ name

/-- A call of a handle of this display name leads where it should. -/
structure CallResolved (m : Module) (e : Entry FunctionHandle) (name : String) (target : SymbolRef) :
    Prop where
  /-- A handle with a body leads to its address. -/
  internal : ∀ f ∈ m.internalFunctions, f.record.handle = e.index → target.address = e.mapping.start
  /-- If its function keeps the address, it leads there under the name of the function. -/
  kept : ∀ f, m.KeepsAddress f → f.record.handle = e.index → f.mapping.start = e.mapping.start →
    target.name = Symbol.recordedName .function name e.mapping.start
  /-- A handle without a body leads to its name. -/
  external : e ∈ m.externalHandles → target.name = name
  /-- If it is the first of the name, it leads to its slot, where no function is. -/
  slot : m.FirstOfName e name →
    target.address = e.mapping.start ∧ ∀ f ∈ m.internalFunctions, f.mapping.start ≠ target.address

section

variable {data : Bytes} {m : Module} {h : Host} {bodies imports : List Routine}
  {e : Entry FunctionHandle}

/-- In the standard layout the slots are behind the code, if that is not too long. -/
theorem Loads.start_lt_slot (hload : Loads .standard data m)
    (hsize : (m.internalFunctions.map fun f => f.record.code.size).sum < 0x10000000)
    {f : Entry FunctionDef} (hf : f ∈ m.internalFunctions) (he : e ∈ m.externalHandles) :
    f.mapping.start < e.mapping.start := by
  have hstop := (hload.mapping hf).2.2
  have hslot := (hload.pairwise_externalHandles (by decide)).1 e he
  have hcode : Config.standard.codeBase = 0x10000000 := rfl
  have himports : Config.standard.importsBase = 0x20000000 := rfl
  omega

/-- The callee of a handle with a body is the routine of a function that keeps the address. -/
theorem Published.callee_internal (hp : m.Published h bodies imports)
    (hload : Loads .standard data m)
    (hsize : (m.internalFunctions.map fun f => f.record.code.size).sum < 0x10000000)
    (he : e ∈ m.functionHandles.toList)
    (hbody : ∃ f ∈ m.internalFunctions, f.record.handle = e.index) :
    ∃ n g r, h.routineAt? e.mapping.start true = some n ∧ (h.routine? n).map Routine.bare = some r ∧
      m.KeepsAddress g ∧ g.mapping.start = e.mapping.start ∧ m.bodyRoutine g = .ok r := by
  obtain ⟨f, hf, -, hmapping⟩ := hload.mapping_of_internal he hbody
  rw [hmapping]
  obtain ⟨n, hn⟩ := hp.exists_routineAt? hf fun e' he' =>
    Int.ne_of_gt (hload.start_lt_slot hsize hf he')
  obtain ⟨g, r, -, hgr, hr, hstart, hkeeps⟩ := hp.body_of_routineAt? hn
  exact ⟨n, g, r, hn, hr, hkeeps, hstart, hgr⟩

/-- The callee of a handle without a body is the first routine of the name. -/
theorem Published.callee_external (hp : m.Published h bodies imports)
    (hload : Loads .standard data m)
    (hsize : (m.internalFunctions.map fun f => f.record.code.size).sum < 0x10000000)
    (he : e ∈ m.externalHandles) : h.routineAt? e.mapping.start true = none := by
  cases hn : h.routineAt? e.mapping.start true with
  | none => rfl
  | some n =>
    obtain ⟨g, -, -, -, -, hstart, hkeeps⟩ := hp.body_of_routineAt? hn
    exact absurd hstart (Int.ne_of_lt (hload.start_lt_slot hsize hkeeps.mem he))

/-- The function of a handle has the display name of the handle. -/
theorem Loads.nameOf_eq {config : Config} (hload : Loads config data m)
    (he : e ∈ m.functionHandles.toList) {f : FunctionDef} (hf : f.handle = e.index) :
    m.nameOf f = m.functionName e.record := by
  rw [nameOf, handleOf, hf, hload.decoded.1.handles.get_index he]
  rfl

/-- The callee of a handle is where the handle should lead. -/
theorem Published.callResolved (hp : m.Published h bodies imports) (hload : Loads .standard data m)
    (hsize : (m.internalFunctions.map fun f => f.record.code.size).sum < 0x10000000)
    (he : e ∈ m.functionHandles.toList) {name : String} (hname : m.functionName e.record = .ok name)
    {n : Nat} (hn : (h.routineAt? e.mapping.start true).or (h.routineNamed? name) = some n)
    {r : Routine} (hr : (h.routine? n).map Routine.bare = some r) :
    m.CallResolved e name { name := r.name, address := r.address } := by
  by_cases hbody : ∃ f ∈ m.internalFunctions, f.record.handle = e.index
  · obtain ⟨n', g, r', hn', hr', hkeeps, hstart, hgr⟩ := hp.callee_internal hload hsize he hbody
    obtain rfl : n' = n := by simpa [hn'] using hn
    obtain rfl := Option.some.inj (hr'.symm.trans hr)
    obtain ⟨gname, hgname, rfl⟩ := exists_of_bodyRoutine hgr
    obtain ⟨f, hf, hhandle⟩ := hbody
    have hexternal : e ∉ m.externalHandles := fun he' => (mem_externalHandles.mp he').2 f hf hhandle
    refine ⟨fun _ _ _ => hstart, fun f' hf' hhandle' hstart' => ?_, fun he' => absurd he' hexternal,
      fun hfirst => ?_⟩
    · -- The function whose routine is there is the one that keeps the address.
      obtain rfl := hf'.unique hkeeps (hstart'.trans hstart.symm)
      rw [hload.nameOf_eq he hhandle', hname] at hgname
      obtain rfl := Except.ok.inj hgname
      rw [← hstart]
    · obtain ⟨before, after, hsplit, -⟩ := hfirst.imports
      rw [hsplit] at hexternal
      exact absurd (List.mem_append_right _ List.mem_cons_self) hexternal
  · have he' : e ∈ m.externalHandles :=
      mem_externalHandles.mpr ⟨he, fun f hf hhandle => hbody ⟨f, hf, hhandle⟩⟩
    rw [hp.callee_external hload hsize he', Option.none_or] at hn
    obtain ⟨hempty, s, hs, hsname⟩ := hp.name_of_routineNamed? hn
    rw [hs] at hr
    obtain rfl : s.bare = r := Option.some.inj hr
    refine ⟨fun f hf hhandle => absurd ⟨f, hf, hhandle⟩ hbody,
      fun f hf hhandle _ => absurd ⟨f, hf.mem, hhandle⟩ hbody, fun _ => hsname, fun hfirst => ?_⟩
    obtain ⟨before, after, hsplit, hbefore⟩ := hfirst.imports
    have hrecorded : m.importRoutine e = .ok
        { name, address := e.mapping.start, size := e.mapping.size, internal := false } := by
      refine bind_eq_ok.mpr ⟨name, hname, ?_⟩
      rw [Symbol.recordedName_of_ne _ _ hempty]
      rfl
    obtain ⟨n', hn', hr'⟩ := hp.routineNamed?_import
      (hload.pairwise_externalHandles (by decide)).2
      (fun f hf e he => Int.ne_of_lt (hload.start_lt_slot hsize hf he)) hsplit hrecorded
      (fun f _ hf s hs => hfirst.bodies f s hf hs) hbefore
    obtain rfl : n' = n := Option.some.inj (hn'.symm.trans hn)
    rw [hs] at hr'
    have haddress : s.bare.address = e.mapping.start :=
      congrArg Routine.address (Option.some.inj hr')
    refine ⟨haddress, fun f hf => ?_⟩
    rw [haddress]
    exact Int.ne_of_lt (hload.start_lt_slot hsize hf he')

end

end Module

/-- In every lift of a function of a binary in the standard layout, whatever has been done with the
analysis before, an instruction that calls a handle becomes a call that leads where the handle
should. -/
theorem Converter.call_resolved {data : Bytes} {a : Analysis}
    (hload : Analysis.ofBytes .standard data = .ok a)
    (hsize : (a.owner.internalFunctions.map fun f => f.record.code.size).sum < 0x10000000)
    {w : Workspace} (hw : a.Reaches w) {removed : List Opcode} {f : Entry FunctionDef} {p : Placed}
    {statements : List Stmt} (hp : (p, statements) ∈ (Converter.mk a.owner removed).lowered f w)
    (hcall : p.instruction.opcode = .call) :
    ∃ k e name target returns params, p.instruction.operandValue = .ok k ∧
      a.owner.functionHandles.get k = .ok e ∧ a.owner.functionName e.record = .ok name ∧
      statements = [.call target returns params] ∧ a.owner.CallResolved e name target := by
  obtain ⟨hloads, bodies, imports, hpublished⟩ := Analysis.loads_and_published hload
  obtain ⟨frame, s, t, howner, hroster, hrun⟩ := exists_runs_of_mem_lowered hp
  simp only [lower, hcall] at hrun
  obtain ⟨k, e, name, n, r, returns, params, hk, he, hname, hn, hr, rfl⟩ := runs_lowerCall hrun
  rw [howner] at he hname
  have hpublished' := hpublished.of_roster (hroster.trans hw.roster)
  exact ⟨k, e, name, _, returns, params, hk, he, hname, rfl,
    hpublished'.callResolved hloads hsize (Pool.mem_toList_of_get he) hname hn hr⟩

/-- The callee of statements that are one call. -/
def Stmt.callee? : List Stmt → Option SymbolRef
  | [.call target _ _] => some target
  | _ => none

/-- A library with five functions, of which the last calls the handles 0 and 2 to 6 one after the other:
handle 0 has no name, handle 1 the name `M_f`, the handles 2 to 4 are those of `f`, `g` and `g` in a
module `M`, handle 5 is that of an empty function, and handle 6 that of the function behind it. -/
def callSample : Bytes :=
  Format.assemble .libra [
    ⟨.moduleHandles, [0, 0, 0, 2]⟩,
    ⟨.functionHandles, [0, 1, 0, 0, 4, 0, 1, 3, 0, 1, 5, 0, 1, 5, 0, 0, 6, 0, 0, 7, 0, 0, 8, 0]⟩,
    ⟨.addressPool, List.replicate 32 0⟩,
    ⟨.stringPool,
      [6, 0x3C, 0x53, 0x45, 0x4C, 0x46, 0x3E, 0, 1, 0x4D, 1, 0x66, 3, 0x4D, 0x5F, 0x66, 1, 0x67,
        1, 0x61, 1, 0x62, 1, 0x6D]⟩,
    ⟨.functionSignatures, [2, 0, 0]⟩, ⟨.localSignatures, [3, 0]⟩,
    ⟨.functionDefs,
      [0, 0, 0, 0, 1, 0, 0x02] ++ [1, 0, 0, 0, 1, 0, 0x02] ++ [5, 0, 0, 0, 0, 0] ++
        [6, 0, 0, 0, 1, 0, 0x02] ++
        [7, 0, 0, 0, 7, 0, 0x11, 0, 0x11, 2, 0x11, 3, 0x11, 4, 0x11, 5, 0x11, 6, 0x02]⟩]

/-- In this library the call of handle 3 leads to the imported function of its name. -/
theorem callSample_resolved : ∃ a f, Analysis.ofBytes .standard callSample = .ok a ∧
    f ∈ a.owner.internalFunctions ∧ ∃ p statements target returns params,
      (p, statements) ∈ (Converter.mk a.owner []).lowered f (.ofHost a.host) ∧
      p.instruction.opcode = .call ∧ p.instruction.operandValue = .ok 3 ∧
      statements = [.call target returns params] ∧ target.name = "M_g" ∧
      target.address = 0x20000008 := by
  have check : (Analysis.ofBytes .standard callSample).toOption.any (fun a =>
      decide ((a.owner.internalFunctions.map fun f => f.record.code.size).sum < 0x10000000) &&
      decide (∃ f ∈ a.owner.internalFunctions,
        ∃ x ∈ (Converter.mk a.owner []).lowered f (.ofHost a.host),
          x.1.instruction.opcode = .call ∧ x.1.instruction.operandValue.toOption = some 3) &&
      decide (∃ e ∈ (a.owner.functionHandles.get 3).toOption,
        a.owner.externalHandles[1]? = some e ∧ e.mapping.start = 0x20000008 ∧
        (a.owner.functionName e.record).toOption = some "M_g" ∧
        (∀ f ∈ a.owner.internalFunctions, ∀ r ∈ (a.owner.bodyRoutine f).toOption, r.name ≠ "M_g") ∧
        ∀ e' ∈ a.owner.externalHandles.take 1, ∀ r ∈ (a.owner.importRoutine e').toOption,
          r.name ≠ "M_g")) = true := by
    unfold Converter.lowered Converter.opened assignPrototypes
    rw [Host.routineNumbers_eq]
    decide +kernel
  obtain ⟨a, hload, hcheck⟩ := exists_of_any_toOption check
  simp only [Bool.and_eq_true, decide_eq_true_eq, Option.mem_def, toOption_eq_some] at hcheck
  obtain ⟨⟨hsize, f, hf, ⟨p, statements⟩, hp, hcall, hoperand⟩, e, he, hslot, hstart, hname, hbodies,
    himports⟩ := hcheck
  obtain ⟨k, e', name, target, returns, params, hk, he', hname', hstatements, hresolved⟩ :=
    Converter.call_resolved hload hsize .start hp hcall
  -- The call is that of handle 3, which is the first of its name.
  obtain rfl : k = 3 := Except.ok.inj (hk.symm.trans hoperand)
  obtain rfl : e = e' := Except.ok.inj (he.symm.trans he')
  obtain rfl : name = "M_g" := Except.ok.inj (hname'.symm.trans hname)
  have hsplit := eq_take_append_cons_drop hslot
  have hexternal : e ∈ a.owner.externalHandles := List.mem_of_getElem? hslot
  have hfirst : a.owner.FirstOfName e "M_g" :=
    ⟨fun f r hf hr => hbodies f hf.mem r hr, _, _, hsplit, himports⟩
  exact ⟨a, f, hload, hf, p, statements, target, returns, params, hp, hcall, hoperand, hstatements,
    hresolved.external hexternal, (hresolved.slot hfirst).1.trans hstart⟩

/-- Of the calls in the sample, four do not lead to the name and the address of their handle: the one of
handle 0 has the name that is made of the address, the one of handle 2 leads to a function of the
module that has the name, the one of handle 4 to handle 3, and the one of handle 5 to the function
behind the empty one. -/
theorem callSample_astray : ∃ a f, Analysis.ofBytes .standard callSample = .ok a ∧
    (a.owner.internalFunctions.map fun f => f.record.code.size).sum < 0x10000000 ∧
    f ∈ a.owner.internalFunctions ∧
    ∀ k ∈ [0, 2, 4, 5], ∃ p statements e name target,
      (p, statements) ∈ (Converter.mk a.owner []).lowered f (.ofHost a.host) ∧
      p.instruction.opcode = .call ∧ p.instruction.operandValue = .ok k ∧
      a.owner.functionHandles.get k = .ok e ∧ a.owner.functionName e.record = .ok name ∧
      Stmt.callee? statements = some target ∧
      (target.name, target.address) ≠ (name, e.mapping.start) := by
  have check : (Analysis.ofBytes .standard callSample).toOption.any (fun a =>
      decide ((a.owner.internalFunctions.map fun f => f.record.code.size).sum < 0x10000000) &&
      decide (∃ f ∈ a.owner.internalFunctions, ∀ k ∈ [0, 2, 4, 5],
        ∃ x ∈ (Converter.mk a.owner []).lowered f (.ofHost a.host),
          x.1.instruction.opcode = .call ∧ x.1.instruction.operandValue.toOption = some k ∧
          ∃ e ∈ (a.owner.functionHandles.get k).toOption,
          ∃ name ∈ (a.owner.functionName e.record).toOption,
          ∃ target ∈ Stmt.callee? x.2, (target.name, target.address) ≠ (name, e.mapping.start))) =
      true := by
    unfold Converter.lowered Converter.opened assignPrototypes
    rw [Host.routineNumbers_eq]
    decide +kernel
  -- The lift is run once; what the calls lead to is compared with the handles by decision.
  obtain ⟨a, hload, hcheck⟩ := exists_of_any_toOption check
  simp only [Bool.and_eq_true, decide_eq_true_eq, Option.mem_def, toOption_eq_some] at hcheck
  obtain ⟨hsize, f, hf, hcalls⟩ := hcheck
  refine ⟨a, f, hload, hsize, hf, fun k hk => ?_⟩
  obtain ⟨⟨p, statements⟩, hp, hcall, hoperand, e, he, name, hname, target, htarget, hne⟩ := hcalls k hk
  exact ⟨p, statements, e, name, target, hp, hcall, hoperand, he, hname, htarget, hne⟩

end MoveBytecode
