import MoveBytecode.Proofs.Lift.Calls
import MoveBytecode.Proofs.Lift.Failures
import MoveBytecode.Proofs.Loading.Symbols

/-!
# How lifts end

A binary has all that its functions need (`Analysis.grounded`), whatever has been done with the analysis.
So in the standard layout the lift of each of its internal routines either lifts every block or ends in one
of three ways (`Converter.Ending`), of which `Analysis.lift_ends` says when they occur. What a lift comes
to, it comes to in the order of the addresses (`Converter.InOrder`).
-/

namespace MoveBytecode

open Lift

/-! ## Loaded binaries -/

namespace Analysis

variable {config : Config} {data : Bytes} {a : Analysis}

/-- A binary that is loaded has all that its functions need. -/
theorem grounded (hload : ofBytes config data = .ok a) : a.owner.Grounded a.host := by
  have hloads := (loads_and_published hload).1
  refine ⟨hloads.decoded.1.closed, hloads.knowsAll, fun e he => ?_, fun e he hne => ?_⟩
  · have hentry : e.map Datum.text ∈ a.owner.dataEntries :=
      List.mem_append_right _ (List.mem_append_right _ (List.mem_map_of_mem he))
    exact exists_symbolAt? hload hentry (hloads.size_mapping_string he)
  · have hentry : e.map Datum.bytearray ∈ a.owner.dataEntries :=
      List.mem_append_right _ (List.mem_append_left _ (List.mem_map_of_mem he))
    exact exists_symbolAt? hload hentry hne

/-- In the standard layout the only handles that a call finds no routine of are those without a body and
without a name, if the code is not too long. -/
theorem calleeOf?_eq_none (hload : ofBytes .standard data = .ok a)
    (hsize : (a.owner.internalFunctions.map fun f => f.record.code.size).sum < 0x10000000)
    {e : Entry FunctionHandle} (he : e ∈ a.owner.functionHandles.toList) {name : String}
    (hname : a.owner.functionName e.record = .ok name) (hnone : calleeOf? a.host e name = none) :
    e ∈ a.owner.externalHandles ∧ name = "" := by
  obtain ⟨hloads, bodies, imports, hpublished⟩ := loads_and_published hload
  obtain ⟨hat, hnamed⟩ := Option.or_eq_none_iff.mp hnone
  -- A handle with a body leads to an address of the code, where there is a routine.
  have hexternal : e ∈ a.owner.externalHandles := by
    refine Module.mem_externalHandles.mpr ⟨he, fun f hf hhandle => ?_⟩
    obtain ⟨n, _, _, hn, -⟩ := hpublished.callee_internal hloads hsize he ⟨f, hf, hhandle⟩
    rw [hat] at hn
    simp at hn
  refine ⟨hexternal, ?_⟩
  -- The other handles lead to their names, and a name that is not empty was recorded as it is.
  by_contra hne
  have hslots := (hloads.pairwise_externalHandles (by decide)).2
  have hfree (f) (hf : f ∈ a.owner.internalFunctions) (e) (he : e ∈ a.owner.externalHandles) :
      f.mapping.start ≠ e.mapping.start := Int.ne_of_lt (hloads.start_lt_slot hsize hf he)
  obtain ⟨n, hn⟩ := hpublished.exists_routineNamed? hslots hfree hexternal hname hne
  rw [hnamed] at hn
  simp at hn

/-- Work on an analysis leaves its host settled. -/
theorem Reaches.settled (hload : ofBytes config data = .ok a) {w : Workspace} (hw : a.Reaches w) :
    Settled a.host w := by
  have htypes : a.host.types.Standard := by
    rw [types_of_ofBytes hload]
    exact TypeRegistry.standard_new
  exact hw.durable (durable_settled a.host) (settled_ofHost htypes)

end Analysis

/-- If no function has the name of a routine, the function of the routine has none. -/
theorem Module.nameOf_of_functionNamed?_none {m : Module} {f : Entry FunctionDef} {r : Routine}
    (hf : f ∈ m.internalFunctions) (hr : m.bodyRoutine f = .ok r.bare)
    (hnone : m.functionNamed? r.name = .ok none) : m.nameOf f.record = .ok "" := by
  obtain ⟨name, hname, hbare⟩ := exists_of_bodyRoutine hr
  have hrname : r.name = Symbol.recordedName .function name f.mapping.start :=
    congrArg Routine.name hbare
  have hother := forall_of_findM?_none hnone f hf
  by_cases hempty : name = ""
  · rw [hname, hempty]
  · -- A name that is not empty is recorded as it is, and leads to the function.
    rw [hrname, Symbol.recordedName_of_ne _ _ hempty, hname] at hother
    simp [bind, Except.bind, pure, Except.pure] at hother

/-! ## Endings -/

/-- An instruction calls a handle that has no body, and whose display name is empty. -/
def Lift.CallsNameless (f : Frame) (i : Instruction) : Prop :=
  i.opcode = .call ∧ ∃ (index : Nat) (e : Entry FunctionHandle), i.operandValue = .ok index ∧
    f.owner.functionHandles.get index = .ok e ∧ e ∈ f.owner.externalHandles ∧
    f.owner.functionName e.record = .ok ""

namespace Converter

/-- The lift of the function called `name` comes to a lowering, in this frame. -/
def ComesTo (c : Converter) (name : String) (w : Workspace) (frame : Frame) (low : Lowering) : Prop :=
  ∃ f s, c.owner.functionNamed? name = .ok (some f) ∧ c.opened f w = (.ok frame, s) ∧
    low ∈ attempts frame (Graph.ofFunction f).blocks s

/-- The lift of the function called `name` comes to its instructions in the order of their addresses, and
leaves none of them out up to the last that it comes to. -/
def InOrder (c : Converter) (name : String) (w : Workspace) : Prop :=
  ∀ f frame s, c.owner.functionNamed? name = .ok (some f) → c.opened f w = (.ok frame, s) →
    (attempts frame (Graph.ofFunction f).blocks s).map (·.placed) <+:
      Placed.run f.mapping.start f.record.code.instructions

/-- The blocks of a function are its listing, and a lift goes through them from the first on. -/
theorem inOrder (c : Converter) (name : String) (w : Workspace) : c.InOrder name w := by
  intro f frame s _ hopened
  have hs : s.WellFormed := State.wellFormed_of_empty (opened_of_runs hopened).stack
  rw [← Graph.flatMap_placed_build]
  exact attempts_prefix frame _ hs

/-- How the lift of a routine, which is that of the function `f`, ends. -/
inductive Ending (c : Converter) (w : Workspace) (f : Entry FunctionDef) (r : Routine) :
    Except Fault Lifted → Prop
  /-- All blocks are lifted. -/
  | lifted {l : Lifted} (hfailed : l.failed = []) : c.Ending w f r (.ok l)
  /-- No function has the name of the routine, as the display name of its function is empty. -/
  | undefined (hname : c.owner.nameOf f.record = .ok "") :
    c.Ending w f r (.error (.noDefinition r.name))
  /-- The lift comes to a call of a handle without a body whose display name is empty. -/
  | nameless {frame : Frame} {low : Lowering} (hcomes : c.ComesTo r.name w frame low)
    (hcall : CallsNameless frame low.placed.instruction) :
    c.Ending w f r (.error (.unresolvedCall "" low.placed.address))
  /-- The lift comes to an instruction that puts a value of 256 bits into a place of 64. -/
  | overflow {frame : Frame} {low : Lowering} {fault : Fault} (hcomes : c.ComesTo r.name w frame low)
    (hoverflow : Overflows frame low.placed.instruction low.before fault) :
    c.Ending w f r (.error fault)

section

variable {c : Converter} {w : Workspace} {f g : Entry FunctionDef} {r : Routine} {frame : Frame}
  {s : State} (hfound : c.owner.functionNamed? r.name = .ok (some g))
  (hopened : c.opened g w = (.ok frame, s))

include hfound hopened

/-- A lift comes to the attempts on the blocks of its function, in the frame that the function opens
with. -/
theorem comesTo_iff {frame' : Frame} {low : Lowering} :
    c.ComesTo r.name w frame' low ↔
      frame' = frame ∧ low ∈ attempts frame (Graph.ofFunction g).blocks s := by
  constructor
  · rintro ⟨g', s', hfound', hopened', hlow⟩
    obtain rfl : g = g' := Option.some.inj (Except.ok.inj (hfound.symm.trans hfound'))
    obtain ⟨rfl, rfl⟩ := Runs.unique hopened hopened'
    exact ⟨rfl, hlow⟩
  · rintro ⟨rfl, hlow⟩
    exact ⟨g, s, hfound, hopened, hlow⟩

variable {h : Host} (hcalls : ∀ i name, CallsUnknown frame h i name → name = "" ∧ CallsNameless frame i)
  {x : HostM Lifted} (hx : Decides frame h (attempts frame (Graph.ofFunction g).blocks s)
    (fun l _ => l.failed = []) x w)

include hcalls hx

/-- A lift whose end is decided ends in one of the ways that there are. -/
theorem ending_of_decides : c.Ending w f r (outcome x w).1 := by
  rcases hx.ends_or_fails with ⟨l, t, hrun, hfailed⟩ | ⟨low, hlow, fault, t, hbreaks, ht⟩
  · rw [show outcome x w = (.ok l, t) from hrun]
    exact .lifted hfailed
  · have hcomes := (comesTo_iff hfound hopened).mpr ⟨rfl, hlow⟩
    rw [ht]
    cases hbreaks with
    | overflow hoverflow => exact .overflow hcomes hoverflow
    | unknown hcall =>
      obtain ⟨rfl, hnameless⟩ := hcalls _ _ hcall
      exact .nameless hcomes hnameless

/-- Of the faults of an instruction that breaks, those for the width of a value are the ones of an
overflow. -/
theorem widthMismatch_iff_of_decides (fault : Fault) :
    (outcome x w).1 = .error fault ∧ fault.kind = .widthMismatch ↔
      ∃ frame low, c.ComesTo r.name w frame low ∧
        Overflows frame low.placed.instruction low.before fault := by
  constructor
  · rintro ⟨hfault, hkind⟩
    have hending : c.Ending w g r (outcome x w).1 := ending_of_decides hfound hopened hcalls hx
    rw [hfault] at hending
    cases hending with
    | undefined => cases hkind
    | nameless => cases hkind
    | overflow hcomes hoverflow => exact ⟨_, _, hcomes, hoverflow⟩
  · rintro ⟨frame', low, hcomes, hoverflow⟩
    obtain ⟨rfl, hlow⟩ := (comesTo_iff hfound hopened).mp hcomes
    obtain ⟨t, ht⟩ := hx.fails low hlow fault (.overflow hoverflow)
    rw [ht]
    exact ⟨rfl, hoverflow.kind_eq⟩

end

end Converter

/-- A routine of whose name there is no function is not lifted. -/
theorem Converter.outcome_lift_of_none {c : Converter} {w : Workspace} {n : Nat} {r : Routine}
    (hr : w.host.routine? n = some r) (hnone : c.owner.functionNamed? r.name = .ok none) :
    outcome (c.lift (.hosted n)) w = (.error (.noDefinition r.name), w) := by
  have hname : (RoutineRef.hosted n).nameIn w.host = r.name := by
    rw [RoutineRef.nameIn, RoutineRef.resolve?, hr, Option.map_some, Option.getD_some]
  rw [outcome_lift_of_not_found (hname ▸ hnone), hname]

/-- A function of a grounded module is opened on a host that is settled. -/
theorem Converter.exists_opened {m : Module} {h : Host} {w : Workspace} {g : Entry FunctionDef}
    (hm : m.Grounded h) (hw : Settled h w) (hg : g ∈ m.internalFunctions) :
    ∃ frame s, (Converter.mk m []).opened g w = (.ok frame, s) := by
  obtain ⟨_, w₁, hassign, hw₁⟩ := ends_assignPrototypes hm.closed hm.knows hw
  obtain ⟨frame, s, hopen, -⟩ := ends_openFunction hm (Module.record_mem_functions hg) hw₁
  refine ⟨frame, s, ?_⟩
  unfold opened
  rw [show (outcome (assignPrototypes m) w).2 = w₁ from congrArg Prod.snd hassign]
  exact hopen

/-- A function is opened on a host that is settled, and what its instructions do decides how the lift of a
routine of its name ends. -/
theorem Converter.exists_decides {m : Module} {h : Host} {w : Workspace} {g : Entry FunctionDef}
    (hm : m.Grounded h) (hw : Settled h w) {config : Config} {data : Bytes}
    (hload : Module.Loads config data m) {n : Nat} {r : Routine} (hr : w.host.routine? n = some r)
    (hfound : m.functionNamed? r.name = .ok (some g)) :
    ∃ frame s, (Converter.mk m []).opened g w = (.ok frame, s) ∧
      Decides frame h (attempts frame (Graph.ofFunction g).blocks s) (fun l _ => l.failed = [])
        ((Converter.mk m []).lift (.hosted n)) w := by
  have hg := mem_of_findM? hfound
  obtain ⟨frame, s, hopened⟩ := exists_opened hm hw hg
  obtain ⟨body, -, hagrees, hsound⟩ := sound_of_opened hopened hg hload
  exact ⟨frame, s, hopened, decides_lift hm hw hr hfound hopened hagrees hsound⟩

/-- A lift of all opcodes fails with none but faults in what is analysed. -/
theorem Converter.isAnalysis_of_lift {m : Module} {h : Host} {w : Workspace} (hm : m.Grounded h)
    (hw : Settled h w) {config : Config} {data : Bytes} (hload : Module.Loads config data m) {n : Nat}
    {r : Routine} (hr : w.host.routine? n = some r) {fault : Fault}
    (hfault : (outcome ((Converter.mk m []).lift (.hosted n)) w).1 = .error fault) :
    fault.kind.isAnalysis = true := by
  obtain ⟨found, hfound⟩ := hm.closed.functionNamed? r.name
  cases found with
  | none =>
    rw [outcome_lift_of_none hr hfound] at hfault
    obtain rfl := Except.error.inj hfault
    rfl
  | some g =>
    obtain ⟨frame, s, -, hdecides⟩ := exists_decides hm hw hload hr hfound
    rcases hdecides.ends_or_fails with ⟨l, t, hrun, -⟩ | ⟨low, -, fault', t, hbreaks, ht⟩
    · rw [show outcome _ w = (.ok l, t) from hrun] at hfault
      simp at hfault
    · rw [ht] at hfault
      obtain rfl := Except.error.inj hfault
      exact hbreaks.isAnalysis

/-- The lift of an internal routine of a binary in the standard layout, whatever has been done with the
analysis before, lifts all blocks, or it fails at the first instruction in the order of the addresses
that cannot be lowered, or for want of a function of the name; and it fails for the width of a value
exactly if it comes to an instruction that puts one of 256 bits into a place of 64. It comes to the
instructions in the order of their addresses. -/
theorem Analysis.lift_ends {data : Bytes} {a : Analysis} (hload : ofBytes .standard data = .ok a)
    (hsize : (a.owner.internalFunctions.map fun f => f.record.code.size).sum < 0x10000000)
    {w : Workspace} (hw : a.Reaches w) {n : Nat} {r : Routine} (hr : w.host.routine? n = some r)
    (hinternal : r.internal = true) :
    ∃ f, a.owner.internalFunctions[n]? = some f ∧ a.owner.bodyRoutine f = .ok r.bare ∧
      (Converter.mk a.owner []).Ending w f r
        (outcome ((Converter.mk a.owner []).lift (.hosted n)) w).1 ∧
      (∀ fault,
        (outcome ((Converter.mk a.owner []).lift (.hosted n)) w).1 = .error fault ∧
            fault.kind = .widthMismatch ↔
          ∃ frame low, (Converter.mk a.owner []).ComesTo r.name w frame low ∧
            Overflows frame low.placed.instruction low.before fault) ∧
      (Converter.mk a.owner []).InOrder r.name w := by
  obtain ⟨hloads, bodies, imports, hpublished⟩ := loads_and_published hload
  have hgrounded := grounded hload
  have hsettled := hw.settled hload
  obtain ⟨f, hf, hfr⟩ := (hpublished.of_roster hw.roster).body_of_internal hr hinternal
  refine ⟨f, hf, hfr, ?_⟩
  obtain ⟨found, hfound⟩ := hgrounded.closed.functionNamed? r.name
  cases found with
  | none =>
    have hname := Module.nameOf_of_functionNamed?_none (List.mem_of_getElem? hf) hfr hfound
    rw [Converter.outcome_lift_of_none hr hfound]
    refine ⟨.undefined hname, fun fault => ⟨?_, ?_⟩, Converter.inOrder _ _ w⟩
    · rintro ⟨hfault, hkind⟩
      obtain rfl := Except.error.inj hfault
      cases hkind
    · -- No lift comes to anything, as there is no function.
      rintro ⟨frame, low, ⟨g, s, hfound', -⟩, -⟩
      simp [hfound] at hfound'
  | some g =>
    obtain ⟨frame, s, hopened, hdecides⟩ :=
      Converter.exists_decides hgrounded hsettled hloads hr hfound
    have howner : frame.owner = a.owner := (opened_of_runs hopened).owner
    have hcalls (i : Instruction) (name : String) (hcall : CallsUnknown frame a.host i name) :
        name = "" ∧ CallsNameless frame i := by
      obtain ⟨hop, index, e, hi, he, hname, hnone⟩ := hcall
      obtain ⟨hexternal, rfl⟩ := calleeOf?_eq_none hload hsize
        (howner ▸ Pool.mem_toList_of_get he) (howner ▸ hname) hnone
      exact ⟨rfl, hop, index, e, hi, he, howner ▸ hexternal, hname⟩
    exact ⟨Converter.ending_of_decides hfound hopened hcalls hdecides,
      Converter.widthMismatch_iff_of_decides hfound hopened hcalls hdecides, Converter.inOrder _ _ w⟩

/-- A script that stores an address into a local of 64 bits: `LD_ADDR 0`, `ST_LOC 0`, `RET`. -/
def overflowSample : Bytes :=
  Format.assemble .libra [
    ⟨.moduleHandles, [0, 0]⟩, ⟨.functionHandles, [0, 1, 0]⟩, ⟨.addressPool, List.replicate 32 0⟩,
    ⟨.stringPool, [6, 0x3C, 0x53, 0x45, 0x4C, 0x46, 0x3E, 1, 0x66]⟩,
    ⟨.functionSignatures, [2, 0, 0]⟩, ⟨.localSignatures, [3, 1, 2]⟩,
    ⟨.main, [0, 0, 1, 0, 3, 0] ++ [0x07, 0] ++ [0x0D, 0] ++ [0x02]⟩]

/-- The lift of the sample fails, as it comes to an instruction that overflows. -/
theorem overflowSample_ends : ∃ a r frame low,
    Analysis.ofBytes .standard overflowSample = .ok a ∧ a.host.routine? 0 = some r ∧
      (outcome ((Converter.mk a.owner []).lift (.hosted 0)) (.ofHost a.host)).1 =
        .error (.doesNotFit "var0" 256 "local0" 64) ∧
      (Converter.mk a.owner []).ComesTo r.name (.ofHost a.host) frame low ∧
      Overflows frame low.placed.instruction low.before (.doesNotFit "var0" 256 "local0" 64) := by
  have check : (Analysis.ofBytes .standard overflowSample).toOption.any (fun a =>
      decide ((a.owner.internalFunctions.map fun f => f.record.code.size).sum < 0x10000000) &&
      (a.host.routine? 0).any (·.internal) &&
      match (outcome ((Converter.mk a.owner []).lift (.hosted 0)) (.ofHost a.host)).1 with
      | .ok _ => false
      | .error fault => fault == .doesNotFit "var0" 256 "local0" 64) = true := by
    unfold Converter.lift assignPrototypes
    rw [Host.routineNumbers_eq]
    decide +kernel
  -- That the lift fails is computed; the instruction that is to blame is found by the theorem.
  obtain ⟨a, hload, hcheck⟩ := exists_of_any_toOption check
  simp only [Bool.and_eq_true, decide_eq_true_eq, Option.any_eq_true] at hcheck
  obtain ⟨⟨hsize, r, hr, hinternal⟩, hfails⟩ := hcheck
  obtain ⟨f, -, -, -, hwidth, -⟩ := Analysis.lift_ends hload hsize .start hr hinternal
  split at hfails
  · simp at hfails
  · rename_i fault hfault
    obtain rfl := beq_iff_eq.mp hfails
    obtain ⟨frame, low, hcomes, hoverflow⟩ := (hwidth _).mp ⟨hfault, rfl⟩
    exact ⟨a, r, frame, low, hload, hr, hfault, hcomes, hoverflow⟩

end MoveBytecode
