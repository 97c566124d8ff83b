import MoveBytecode.Proofs.Lift.Course
import MoveBytecode.Proofs.Loading.Decode

/-!
# Conversions

A routine is lifted with a symbolic stack of its own, which is empty when the first block is started:
`Converter.visits` is the course of such a lift. `runs_lift` reads it off a lift that ends, and
`Converter.Lifts.sound` ties it to the listing, so that the depths of the listing are the heights of the
symbolic stack.
-/

namespace MoveBytecode

namespace Lift

/-! ## Opening a function -/

/-- A variable that is declared has the name that was asked for, and the stack stays. -/
theorem runs_declare {name : VarName} {bits : Int} {type : Option NativeType} {s s' : State} {v : Var}
    (h : Runs (declare name bits type) s v s') :
    v.name = name ∧ s'.stack = s.stack := by
  unfold Runs at h
  rw [outcome_declare] at h
  split at h
  · simp at h
  · simp only [Prod.mk.injEq, Except.ok.injEq] at h
    obtain ⟨rfl, rfl⟩ := h
    exact ⟨rfl, rfl⟩

/-- The locals of a function are variables of their numbers. -/
theorem runs_declareLocals {m : Module} {index : Nat} {tokens : List Token} {s s' : State}
    {vs : List Var} (h : Runs (declareLocals m index tokens) s vs s') :
    s'.stack = s.stack ∧ vs.map (·.name) = (List.range' index tokens.length).map .localVar := by
  induction tokens generalizing index s vs with
  | nil =>
    obtain ⟨rfl, rfl⟩ := runs_pure.mp h
    exact ⟨rfl, rfl⟩
  | cons token rest ih =>
    obtain ⟨type, t, htype, h⟩ := runs_bind.mp h
    obtain ⟨v, u, hv, h⟩ := runs_bind.mp h
    obtain ⟨ws, u', hws, h⟩ := runs_bind.mp h
    obtain ⟨rfl, rfl⟩ := runs_pure.mp h
    obtain ⟨hstack, -⟩ := still_onHost _ s _ t htype
    obtain ⟨hname, hstack'⟩ := runs_declare hv
    obtain ⟨hstack'', hnames⟩ := ih hws
    refine ⟨by rw [hstack'', hstack', hstack], ?_⟩
    rw [List.map_cons, List.length_cons, List.range'_succ, List.map_cons, hname, hnames]

/-- A function as it is opened: without values on the stack, and with a variable for each local. -/
structure Opened (m : Module) (removed : List Opcode) (f : Entry FunctionDef) (frame : Frame)
    (s : State) : Prop where
  stack : s.stack = .empty
  owner : frame.owner = m
  function : frame.function = f
  removed : frame.removed = removed
  locals : ∃ tokens, m.localsOf f.record = .ok tokens ∧
    frame.locals.toList.map (·.name) = (List.range tokens.length).map .localVar

/-- A function that opens is opened as it should be. -/
theorem opened_of_runs {m : Module} {removed : List Opcode} {f : Entry FunctionDef} {frame : Frame}
    {s s' : State} (h : Runs (openFunction m removed f) s frame s') :
    Opened m removed f frame s' := by
  simp only [openFunction, runs_bind, runs_modify, runs_ofExcept, runs_pure] at h
  obtain ⟨_, _, rfl, tokens, _, ⟨htokens, rfl⟩, locals, t, hlocals, rfl, rfl⟩ := h
  obtain ⟨hstack, hnames⟩ := runs_declareLocals hlocals
  refine ⟨hstack, rfl, rfl, rfl, tokens, htokens, ?_⟩
  rw [List.range_eq_range']
  exact hnames

/-- The variable of a local is named for the local. -/
theorem Opened.name_of_getElem? {m : Module} {removed : List Opcode} {f : Entry FunctionDef}
    {frame : Frame} {s : State} (h : Opened m removed f frame s) {index : Nat} {v : Var}
    (hv : frame.locals[index]? = some v) : v.name = .localVar index := by
  obtain ⟨tokens, -, hnames⟩ := h.locals
  have hname := congrArg (·[index]?) hnames
  simp only [List.getElem?_map, Array.getElem?_toList, hv, Option.map_some] at hname
  obtain ⟨j, hj, hjname⟩ := Option.map_eq_some_iff.mp hname.symm
  obtain ⟨_, hindex⟩ := List.getElem?_eq_some_iff.mp hj
  rw [List.getElem_range] at hindex
  rw [← hjname, hindex]

/-- A function is opened, its blocks are lifted, and its parameters and the types of its results are
found; the routine is filled in afterwards. -/
theorem runs_liftFunction {m : Module} {removed : List Opcode} {f : Entry FunctionDef} {s s' : State}
    {lifted : Routine → Lifted} (h : Runs (liftFunction m removed f) s lifted s') :
    ∃ frame t u, Runs (openFunction m removed f) s frame t ∧
      (∃ (tokens results : List Token) (params : List Var) (types : List NativeType) (v : State),
        Runs (paramVars frame 0 tokens) u params v ∧ Runs (results.mapM (typeOf frame)) v types s') ∧
      ∀ r, (lifted r).routine = r ∧ (lifted r).function = f ∧ (lifted r).scope = s'.scope ∧
        Runs (liftBlocks frame (Graph.ofFunction f).blocks #[] #[]) t
          ((lifted r).steps, (lifted r).failed.toArray) u := by
  obtain ⟨frame, t, hopen, h⟩ := runs_bind.mp h
  obtain ⟨⟨steps, failed⟩, u, hblocks, h⟩ := runs_bind.mp h
  simp only [runs_bind, runs_ofExcept, runs_get, runs_pure] at h
  obtain ⟨_, _, ⟨-, rfl⟩, _, _, ⟨-, rfl⟩, params, v, hparams, returns, v', hreturns, _, _, ⟨rfl, rfl⟩,
    rfl, rfl⟩ := h
  exact ⟨frame, t, _, hopen, ⟨_, _, params, returns, v, hparams, hreturns⟩,
    fun r => ⟨rfl, rfl, rfl, by simpa using hblocks⟩⟩

/-- A lifted function has the graph of its body. -/
theorem graph_of_runs_liftFunction {m : Module} {removed : List Opcode} {f : Entry FunctionDef}
    {s s' : State} {lifted : Routine → Lifted} (h : Runs (liftFunction m removed f) s lifted s')
    (r : Routine) : (lifted r).graph = Graph.ofFunction (lifted r).function := by
  obtain ⟨frame, t, -, h⟩ := runs_bind.mp h
  obtain ⟨⟨steps, failed⟩, u, -, h⟩ := runs_bind.mp h
  simp only [runs_bind, runs_ofExcept, runs_get, runs_pure] at h
  obtain ⟨_, _, -, _, _, -, _, _, -, _, _, -, _, _, -, rfl, -⟩ := h
  rfl

/-- The state in which work on a routine starts, without variables and values. -/
def fresh (w : Workspace) : State :=
  { toWorkspace := w, scope := .empty, stack := .empty, counter := 0 }

/-- Work on a routine ends as it does from a fresh state, and leaves the workspace of that. -/
theorem outcome_onRoutine {α : Type} (x : LiftM α) (w : Workspace) :
    outcome (onRoutine x) w = ((outcome x (fresh w)).1, (outcome x (fresh w)).2.toWorkspace) := by
  simp only [onRoutine, outcome_bind, outcome_get]
  change outcome (ofExcept (outcome x (fresh w)).1 : HostM α)
    (outcome x (fresh w)).2.toWorkspace = _
  rcases outcome x (fresh w) with ⟨_ | _, _⟩
  · rfl
  · rfl

/-- What runs on a routine has run from a state without variables and values. -/
theorem runs_onRoutine {α : Type} {x : LiftM α} {w w' : Workspace} {a : α}
    (h : Runs (onRoutine x) w a w') : ∃ s, Runs x (fresh w) a s := by
  unfold Runs at h
  rw [outcome_onRoutine, Prod.mk.injEq] at h
  exact ⟨_, Prod.ext h.1 rfl⟩

end Lift

open Lift

/-- The name of the routine that is meant, which is empty if there is none. -/
def RoutineRef.nameIn (h : Host) (target : RoutineRef) : String :=
  ((target.resolve? h).map (·.name)).getD ""

namespace Converter

/-- The frame of a function in a workspace, and the state in which its first block is started. -/
def opened (c : Converter) (f : Entry FunctionDef) (w : Workspace) : Except Fault Frame × State :=
  outcome (openFunction c.owner c.removed f) (fresh (outcome (assignPrototypes c.owner) w).2)

/-- The visits of the blocks of a function that is lifted in a workspace, in the order of the
listing. -/
def visits (c : Converter) (f : Entry FunctionDef) (w : Workspace) : List Visit :=
  match c.opened f w with
  | (.ok frame, s) => Lift.visits frame s (Graph.ofFunction f).blocks
  | (.error _, _) => []

/-- What a lift that ends has gone through. -/
structure Lifts (c : Converter) (w : Workspace) (l : Lifted) (frame : Frame) (s : State) : Prop where
  function : l.function ∈ c.owner.internalFunctions
  opened : c.opened l.function w = (.ok frame, s)
  visits : c.visits l.function w = Lift.visits frame s (Graph.ofFunction l.function).blocks
  blocks : ∃ t, Runs (liftBlocks frame (Graph.ofFunction l.function).blocks #[] #[]) s
    (l.steps, l.failed.toArray) t

/-- A routine of whose name there is no function is not lifted. -/
theorem outcome_lift_of_not_found {c : Converter} {target : RoutineRef} {w : Workspace}
    (hnone : c.owner.functionNamed? (target.nameIn w.host) = .ok none) :
    outcome (c.lift target) w =
      (.error (.noDefinition (target.nameIn w.host)), w) := by
  unfold RoutineRef.nameIn at hnone ⊢
  rw [lift, outcome_bind_of_runs (runs_get.mpr ⟨rfl, rfl⟩)]
  dsimp only
  rw [outcome_bind_of_runs (runs_ofExcept.mpr ⟨hnone, rfl⟩)]
  rfl

/-- A lift of a function that was found: the prototypes are assigned, the function is lifted in a fresh
state, and the routine is looked up again. -/
theorem outcome_lift_of_found {c : Converter} {w w₁ : Workspace} {target : RoutineRef}
    {f : Entry FunctionDef}
    (hfound : c.owner.functionNamed? (target.nameIn w.host) = .ok (some f))
    (hassign : Runs (assignPrototypes c.owner) w () w₁) :
    outcome (c.lift target) w = match outcome (liftFunction c.owner c.removed f) (fresh w₁) with
      | (.error fault, s) => (.error fault, s.toWorkspace)
      | (.ok lifted, s) =>
        (match target.resolve? s.host with
          | some r => .ok (lifted r)
          | none => .error (.noDefinition (target.nameIn w.host)),
          s.toWorkspace) := by
  unfold RoutineRef.nameIn at hfound ⊢
  rw [lift, outcome_bind_of_runs (runs_get.mpr ⟨rfl, rfl⟩)]
  dsimp only
  rw [outcome_bind_of_runs (runs_ofExcept.mpr ⟨hfound, rfl⟩)]
  dsimp only
  rw [outcome_bind_of_runs hassign, outcome_bind, outcome_onRoutine]
  rcases outcome (liftFunction c.owner c.removed f) (fresh w₁) with ⟨fault | lifted, s⟩
  · rfl
  · dsimp only
    rw [outcome_bind_of_runs (runs_get.mpr ⟨rfl, rfl⟩)]
    cases target.resolve? s.host with
    | none => rfl
    | some r => rfl

/-- A lift looks up the function by the name of the routine, gives all routines their prototypes and
lifts the function for the routine. -/
theorem runs_liftFunction_of_lift {c : Converter} {target : RoutineRef} {w w' : Workspace} {l : Lifted}
    (h : Runs (c.lift target) w l w') : ∃ f w₁ lifted s r,
      c.owner.functionNamed? (((target.resolve? w.host).map (·.name)).getD "") = .ok (some f) ∧
      Runs (assignPrototypes c.owner) w () w₁ ∧
      Runs (liftFunction c.owner c.removed f) (fresh w₁) lifted s ∧
      target.resolve? w'.host = some r ∧ l = lifted r := by
  simp only [lift, runs_bind, runs_get, runs_ofExcept] at h
  obtain ⟨_, _, ⟨rfl, rfl⟩, found, _, ⟨hfound, rfl⟩, h⟩ := h
  cases found with
  | none => exact absurd h not_runs_throw
  | some f =>
    simp only [runs_bind, runs_get] at h
    obtain ⟨_, w₁, hassign, lifted, w₂, hlifted, _, _, ⟨rfl, rfl⟩, h⟩ := h
    split at h
    · rename_i r hr
      obtain ⟨rfl, rfl⟩ := runs_pure.mp h
      obtain ⟨s, hrun⟩ := runs_onRoutine hlifted
      exact ⟨f, w₁, lifted, s, r, hfound, hassign, hrun, hr, rfl⟩
    · exact absurd h not_runs_throw

/-- A lift that ends has gone through everything that a lift goes through. -/
theorem runs_lift {c : Converter} {target : RoutineRef} {w w' : Workspace} {l : Lifted}
    (h : Runs (c.lift target) w l w') : ∃ frame s, c.Lifts w l frame s := by
  obtain ⟨f, w₁, lifted, t, r, hfound, hassign, hrun, -, rfl⟩ := runs_liftFunction_of_lift h
  obtain ⟨frame, s, u, hopen, -, hlifted⟩ := runs_liftFunction hrun
  obtain ⟨-, hfunction, -, hblocks⟩ := hlifted r
  have hopened : c.opened f w = (.ok frame, s) := by
    rw [opened, show (outcome (assignPrototypes c.owner) w).2 = w₁ from congrArg Prod.snd hassign]
    exact hopen
  rw [← hfunction] at hopened hblocks
  refine ⟨frame, s, ?_, hopened, ?_, u, hblocks⟩
  · rw [hfunction]
    exact mem_of_findM? hfound
  · rw [visits, hopened]

/-- A routine has the graph of its function. -/
theorem graph_of_runs_lift {c : Converter} {target : RoutineRef} {w w' : Workspace} {l : Lifted}
    (h : Runs (c.lift target) w l w') : l.graph = Graph.ofFunction l.function := by
  obtain ⟨_, _, _, _, r, -, -, hrun, -, rfl⟩ := runs_liftFunction_of_lift h
  exact graph_of_runs_liftFunction hrun r

/-- The body of a function that is opened is sound, in the frame that it was read with. -/
theorem sound_of_opened {c : Converter} {w : Workspace} {f : Entry FunctionDef} {frame : Frame}
    {s : State} (hopened : c.opened f w = (.ok frame, s)) (hf : f ∈ c.owner.internalFunctions)
    {config : Config} {data : Bytes} (hload : Module.Loads config data c.owner) :
    ∃ b, Body.frame c.owner f.record.handle f.record.code.locals = .ok b ∧ Agrees frame b ∧
      Body.Sound b c.owner.data f.record.code.start f.record.code.instructions := by
  obtain ⟨b, hb, hsound⟩ := hload.decoded.1.bodies _ (Module.record_mem_functions hf)
  obtain ⟨handle, signature, localTypes, name, hhandle, hsignature, -, -, -, rfl⟩ :=
    Body.frame_eq_ok.mp hb
  have hopen := opened_of_runs hopened
  refine ⟨_, hb, ⟨hopen.owner.symm, ?_⟩, hsound⟩
  intro e signature' he hsignature'
  rw [hopen.owner, hopen.function] at he
  obtain rfl := Except.ok.inj (hhandle.symm.trans he)
  rw [hopen.owner] at hsignature'
  exact Except.ok.inj (hsignature.symm.trans hsignature')

/-- The function that was lifted has a sound body, which agrees with the frame that it was lifted in. -/
theorem Lifts.sound {c : Converter} {w : Workspace} {l : Lifted} {frame : Frame} {s : State}
    (h : c.Lifts w l frame s) {config : Config} {data : Bytes}
    (hload : Module.Loads config data c.owner) :
    ∃ b, Body.frame c.owner l.function.record.handle l.function.record.code.locals = .ok b ∧
      Agrees frame b ∧ Body.Sound b c.owner.data l.function.record.code.start
        l.function.record.code.instructions := sound_of_opened h.opened h.function hload

/-- A lift ends in a well-formed state. -/
theorem Lifts.wellFormed {c : Converter} {w : Workspace} {l : Lifted} {frame : Frame} {s : State}
    (h : c.Lifts w l frame s) : s.WellFormed :=
  State.wellFormed_of_empty (opened_of_runs h.opened).stack

/-- The first routine of a file, loaded with the standard layout and lifted, passes a check. -/
def liftPasses (data : Bytes) (check : Module → Host → Lifted → Bool) : Bool :=
  match Module.loadInto .standard data .new with
  | .error _ => false
  | .ok (m, host) =>
    match outcome ((Converter.mk m []).lift (.hosted 0)) (.ofHost host) with
    | (.error _, _) => false
    | (.ok l, _) => check m host l

/-- A check that passes is passed by a lift that ends. -/
theorem exists_of_liftPasses {data : Bytes} {check : Module → Host → Lifted → Bool}
    (h : liftPasses data check = true) : ∃ (m : Module) (host : Host) (l : Lifted) (w' : Workspace),
      Module.loadInto .standard data .new = .ok (m, host) ∧
      Runs ((Converter.mk m []).lift (.hosted 0)) (.ofHost host) l w' ∧ check m host l = true := by
  unfold liftPasses at h
  split at h
  · simp at h
  · rename_i m host hload
    split at h
    · simp at h
    · rename_i l w' hlift
      exact ⟨m, host, l, w', hload, hlift, h⟩

end Converter

end MoveBytecode
