import Mathlib.Logic.Relation
import MoveBytecode.Proofs.Lift.Endings

/-!
# The operations of a lift

A lift works on its state by few operations: values are put and taken one at a time, slots are added, tokens
get types, variables are declared, events are recorded. `Passes` relates a state to all that such operations
lead to, whether or not they fail, and so to every state that a lift goes through, also within an instruction
that puts several values (`Converter.operating`). What each operation keeps is therefore kept throughout.
-/

namespace MoveBytecode

namespace Lift

/-! ## Operations -/

/-- What one operation of a lift in the module `m` makes of a state, whether or not it fails. -/
inductive Operates (m : Module) (s : State) : State → Prop
  | record (e : Event) : Operates m s (outcome (record e) s).2
  | typing (token : Token) : Operates m s (outcome (onHost (onTypes (Typing.typeOf m token))) s).2
  | prototype (number : Nat) (signature : FunctionSignature) :
    Operates m s (outcome (onHost (ensurePrototype m number signature)) s).2
  /-- Of the variables that are declared by their names, none is one of the stack. -/
  | declare {name : VarName} (bits : Int) (type : Option NativeType) (h : ∀ n, name ≠ .stackVar n) :
    Operates m s (outcome (declare name bits type) s).2
  | push {f : Frame} (token : Token) (h : f.owner = m) : Operates m s (outcome (push f token) s).2
  | pushNative (bits : Int) (type : Option NativeType) : Operates m s (outcome (pushNative bits type) s).2
  | pop : Operates m s (outcome pop s).2
  | grow : Operates m s (outcome (growBy 1) s).2
  /-- The height is set where there are as many slots. -/
  | setHeight {depth : Nat} (h : depth ≤ s.stack.slots.size) :
    Operates m s (outcome (modifyStack (·.setHeight depth)) s).2

/-- A state, and one that operations of a lift in the module `m` lead to from there. -/
def Passes (m : Module) : State → State → Prop := Relation.ReflTransGen (Operates m)

variable {m : Module} {s t u : State}

/-- What keeps states well-formed preserves their being so. -/
theorem Keeps.preserves {α : Type} {x : LiftM α} (hx : Keeps x) : Preserves State.WellFormed x :=
  fun s hs => (hx s _ _ rfl hs).1

/-- Declaring a variable is still. -/
theorem still_declare (name : VarName) (bits : Int) (type : Option NativeType) :
    Still (declare name bits type) := by
  intro s r t h
  rw [outcome_declare] at h
  split at h
  · obtain ⟨-, rfl⟩ := Prod.mk.inj h
    exact ⟨rfl, rfl⟩
  · obtain ⟨-, rfl⟩ := Prod.mk.inj h
    exact ⟨rfl, rfl⟩

/-- Each operation keeps the stack well-formed. -/
theorem Operates.wellFormed (h : Operates m s t) (hs : s.WellFormed) : t.WellFormed := by
  cases h with
  | record e => exact (still_record e).keeps.preserves s hs
  | typing token => exact (still_onHost _).keeps.preserves s hs
  | prototype number signature => exact (still_onHost _).keeps.preserves s hs
  | declare bits type _ => exact (still_declare _ bits type).keeps.preserves s hs
  | push token _ => exact (orderly_push _ token).keeps.preserves s hs
  | pushNative bits type => exact (orderly_pushNative bits type).keeps.preserves s hs
  | pop => exact orderly_pop.keeps.preserves s hs
  | grow => exact (growBy_spec hs rfl).1.1
  | @setHeight depth hdepth =>
    exact (hs.of_varAt? (t := { s with stack := s.stack.setHeight depth }) (fun _ => rfl) hdepth
      (Nat.le_refl _)).1

/-- Operations lead from well-formed states to well-formed states. -/
theorem Passes.wellFormed (h : Passes m s t) (hs : s.WellFormed) : t.WellFormed := by
  induction h with
  | refl => exact hs
  | tail _ hlast ih => exact hlast.wellFormed ih

/-! ## Parts of lifts -/

/-- The parts of lowerings are operations, or do nothing. -/
theorem composes_passes (m : Module) (u : State) : Composes m fun _ x => Preserves (Passes m u) x where
  pure := preserves_pure
  bind := Preserves.bind
  throw _ := preserves_throw _
  look _ h := preserves_get.bind h
  push token hf _ hs := hs.tail (.push token hf)
  pushNative bits type _ hs := hs.tail (.pushNative bits type)
  pop _ hs := hs.tail .pop
  prototype number _ signature _ _ hs := hs.tail (.prototype number signature)

section

variable {f : Frame} (hf : f.owner = m)

include hf

/-- Converting a token to a type passes on by operations. -/
theorem passes_typeOf (token : Token) : Preserves (Passes m u) (typeOf f token) := by
  subst hf
  exact fun _ hs => hs.tail (.typing token)

/-- Pushing a token passes on by operations. -/
theorem passes_push (token : Token) : Preserves (Passes m u) (push f token) :=
  (composes_passes m u).push token hf

/-- Lowering an instruction passes on by operations. -/
theorem passes_lowerAt (p : Placed) : Preserves (Passes m u) (lowerAt f p) := by
  have hrecord (e : Event) : Preserves (Passes m u) (record e) := fun _ hs => hs.tail (.record e)
  have hsupported : Preserves (Passes m u) (lowerSupported f p) := by
    unfold lowerSupported
    split
    · exact preserves_throw _
    · exact (composes_passes m u).lower hf _ _
  have hreport (fault : Fault) : Preserves (Passes m u) (reportFault f p fault) :=
    (preserves_ofExcept _).bind fun _ => (hrecord _).bind fun _ => preserves_throw _
  exact (hsupported.tryCatch hreport).bind fun _ =>
    (preserves_forM (fun _ => hrecord _) _).bind fun _ => preserves_pure _

/-- Lowering instructions one after the other passes on by operations. -/
theorem passes_lowerAll (ps : List Placed) (done : Array Step) :
    Preserves (Passes m u) (lowerAll f ps done) := by
  induction ps generalizing done with
  | nil => exact preserves_pure _
  | cons p rest ih => exact (passes_lowerAt hf p).bind fun _ => ih _

/-- The lowerings of instructions one after the other, from a state that was passed. -/
theorem passes_lowerings {ps : List Placed} (hs : Passes m u s) :
    ∀ low ∈ lowerings f ps s, Passes m u low.before ∧ Passes m low.before low.after := by
  induction ps generalizing s with
  | nil => simp [lowerings]
  | cons p rest ih =>
    have hstep : Passes m s (outcome (lowerAt f p) s).2 := passes_lowerAt hf p s .refl
    rw [lowerings]
    rcases hout : outcome (lowerAt f p) s with ⟨fault | step, t⟩
    · rw [hout] at hstep
      exact List.forall_mem_singleton.mpr ⟨hs, hstep⟩
    · rw [hout] at hstep
      exact List.forall_mem_cons.mpr ⟨⟨hs, hstep⟩, ih (hs.trans hstep)⟩

/-- Finding the variables of parameters passes on by operations. -/
theorem passes_paramVars (index : Nat) (tokens : List Token) :
    Preserves (Passes m u) (paramVars f index tokens) := by
  induction tokens generalizing index with
  | nil => exact preserves_pure _
  | cons token rest ih =>
    refine Preserves.bind (preserves_get.bind fun s => ?_) fun _ => (ih _).bind fun _ => preserves_pure _
    split
    · exact preserves_pure _
    · exact (passes_typeOf hf token).bind fun _ => fun _ hs => hs.tail (.declare _ _ nofun)

end

/-- Slots are added one at a time. -/
theorem growBy_succ (count : Nat) : growBy (count + 1) = growBy 1 >>= fun _ => growBy count := by
  simp only [growBy, bind_assoc, pure_bind]

/-- Filling up the stack passes on by operations. -/
theorem passes_growBy (count : Nat) : Preserves (Passes m u) (growBy count) := by
  induction count with
  | zero => exact preserves_pure _
  | succ count ih =>
    rw [growBy_succ]
    exact Preserves.bind (fun _ hs => hs.tail .grow) fun _ => ih

/-- The height is set to the depth of a block when there are as many slots. -/
theorem passes_enterBlock (hu : u.WellFormed) (depth : Nat) : Preserves (Passes m u) (enterBlock depth) := by
  intro s hs
  have hgrown := passes_growBy (depth - s.stack.slots.size) s hs
  rw [enterBlock, outcome_bind, outcome_get]
  dsimp only
  rw [outcome_bind]
  rcases hgrow : outcome (growBy (depth - s.stack.slots.size)) s with ⟨fault | _, t⟩
  · rwa [hgrow] at hgrown
  · obtain ⟨-, -, -, hsize⟩ := growBy_spec (hs.wellFormed hu) hgrow
    have hroom : t.stack.slots.size = s.stack.slots.size + (depth - s.stack.slots.size) := hsize _ rfl
    rw [hgrow] at hgrown
    have hdepth : depth ≤ t.stack.slots.size := by omega
    exact hgrown.tail (.setHeight hdepth)

section

variable {f : Frame} (hf : f.owner = m) (hu : u.WellFormed)

include hf hu

/-- Lifting a block passes on by operations. -/
theorem passes_liftBlock (b : Block) (done : Array Step) : Preserves (Passes m u) (liftBlock f b done) := by
  unfold liftBlock
  split
  · exact preserves_pure _
  · exact (passes_enterBlock hu _).bind fun _ => passes_lowerAll hf _ done

/-- Lifting blocks one after the other passes on by operations. -/
theorem passes_liftBlocks (blocks : List Block) (done : Array Step) (failed : Array (String × String)) :
    Preserves (Passes m u) (liftBlocks f blocks done failed) := by
  induction blocks generalizing done failed with
  | nil => exact preserves_pure _
  | cons b rest ih =>
    refine Preserves.bind (Preserves.tryCatch ?_ fun fault => ?_) fun result => ?_
    · exact (passes_liftBlock hf hu b done).bind fun _ => preserves_pure _
    -- The fault of a block is kept as a reason, or it ends the lift.
    · split
      · exact preserves_pure _
      · exact preserves_throw _
    · split
      · exact ih _ _
      · exact ih _ _

/-- The visits of blocks one after the other, from a state that was passed. -/
theorem passes_visits {blocks : List Block} (hs : Passes m u s) :
    ∀ v ∈ visits f s blocks, Passes m u v.entry ∧ Passes m u v.exit ∧
      ∀ low ∈ v.lowerings, Passes m u low.before ∧ Passes m low.before low.after := by
  induction blocks generalizing s with
  | nil => simp [visits]
  | cons b rest ih =>
    have hentry : Passes m u (visit f s b).entry := by
      simp only [visit, entered]
      split
      · exact hs
      · exact passes_enterBlock hu _ s hs
    have hexit : Passes m u (visit f s b).exit := passes_liftBlock hf hu b #[] s hs
    exact List.forall_mem_cons.mpr ⟨⟨hentry, hexit, passes_lowerings hf hentry⟩, ih hexit⟩

end

/-! ## Several values -/

section

variable {f : Frame} {i : Instruction} {address : Int} {statements : List Stmt}

/-- A call takes the values of its parameters, and then puts those that it returns. -/
theorem runs_call (hf : f.owner = m) (hop : i.opcode = .call) (h : Runs (lower f i address) s statements t) :
    ∃ k e signature u v params returns, i.operandValue = .ok k ∧ m.functionHandles.get k = .ok e ∧
      m.signatureOf e.record = .ok signature ∧ Passes m s u ∧
      Runs (popMany signature.params.length) u params v ∧ Runs (signature.returns.mapM (push f)) v returns t := by
  subst hf
  have hlower : lower f i address = lowerCall f i address := by simp only [lower, hop]
  obtain ⟨k, e, name, number, signature, u, params, v, returns, r, hk, he, -, -, hsignature, hprototype,
    hparams, hreturns, -, -⟩ := stages_lowerCall (hlower ▸ h)
  have hpassed : Passes f.owner s (outcome (onHost (ensurePrototype f.owner number signature)) s).2 :=
    .single (.prototype number signature)
  rw [hprototype] at hpassed
  exact ⟨k, e, signature, u, v, params, returns, hk, he, hsignature, hpassed, hparams, hreturns⟩

/-- An unpacking takes one value and then puts one for each field of its struct. -/
theorem runs_unpack (hf : f.owner = m) (hop : i.opcode = .unpack)
    (h : Runs (lower f i address) s statements t) :
    ∃ k e fields value u results, i.operandValue = .ok k ∧ m.structDefs.get k = .ok e ∧
      m.fieldsOf e.record = .ok fields ∧ Runs pop s value u ∧
      Runs (fields.mapM fun field => do push f (← Lift.ofExcept (m.fieldType field.record))) u results t := by
  subst hf
  have hlower : lower f i address = lowerUnpack f i address := by simp only [lower, hop]
  obtain ⟨k, e, value, u, fields, results, hk, he, hvalue, hfields, hresults, -⟩ :=
    stages_lowerUnpack (hlower ▸ h)
  exact ⟨k, e, fields, value, u, results, hk, he, hfields, hvalue, hresults⟩

end

end Lift

open Lift

namespace Converter

/-- The lift of the function `g` in the workspace `w`, which starts with its first block in the state `s`, is
done by operations. -/
structure Operating (c : Converter) (g : Entry FunctionDef) (w : Workspace) (frame : Frame) (s : State) :
    Prop where
  /-- So are the states passed around each block and each instruction. -/
  course : ∀ v ∈ c.visits g w, Passes c.owner s v.entry ∧ Passes c.owner s v.exit ∧
    ∀ low ∈ v.lowerings, Passes c.owner s low.before ∧ Passes c.owner low.before low.after
  /-- So are those behind the values that are taken, or put, one after the other. -/
  values : ∀ (t : State) (count : Nat) (tokens : List Token) (fields : List (Entry FieldDef)),
    Passes c.owner t (outcome (popMany count) t).2 ∧
    Passes c.owner t (outcome (tokens.mapM (push frame)) t).2 ∧
    Passes c.owner t (outcome (fields.mapM fun field => do
      push frame (← Lift.ofExcept (c.owner.fieldType field.record))) t).2
  /-- In a call these are the values of the parameters, and then those that are returned. -/
  call : ∀ {i : Instruction} {address : Int} {t t' : State} {statements : List Stmt}, i.opcode = .call →
    Runs (lower frame i address) t statements t' →
    ∃ k e signature u v params returns, i.operandValue = .ok k ∧ c.owner.functionHandles.get k = .ok e ∧
      c.owner.signatureOf e.record = .ok signature ∧ Passes c.owner t u ∧
      Runs (popMany signature.params.length) u params v ∧
      Runs (signature.returns.mapM (push frame)) v returns t'
  /-- Where a struct is unpacked, they are those of its fields. -/
  unpack : ∀ {i : Instruction} {address : Int} {t t' : State} {statements : List Stmt}, i.opcode = .unpack →
    Runs (lower frame i address) t statements t' →
    ∃ k e fields value u results, i.operandValue = .ok k ∧ c.owner.structDefs.get k = .ok e ∧
      c.owner.fieldsOf e.record = .ok fields ∧ Runs pop t value u ∧
      Runs (fields.mapM fun field => do push frame (← Lift.ofExcept (c.owner.fieldType field.record))) u
        results t'
  /-- So is the state in which the lift ends, with or without a fault. -/
  ending : Passes c.owner s
    (outcome (liftFunction c.owner c.removed g) (fresh (outcome (assignPrototypes c.owner) w).2)).2

/-- Whatever lift has come to its first block is done by operations. -/
theorem operating {c : Converter} {g : Entry FunctionDef} {w : Workspace} {frame : Frame} {s : State}
    (hopened : c.opened g w = (.ok frame, s)) : c.Operating g w frame s := by
  have hopen := opened_of_runs hopened
  have hs : s.WellFormed := State.wellFormed_of_empty hopen.stack
  refine ⟨fun v hv => ?_, fun t count tokens fields => ⟨?_, ?_, ?_⟩, runs_call hopen.owner,
    runs_unpack hopen.owner, ?_⟩
  · rw [visits, hopened] at hv
    exact passes_visits hopen.owner hs .refl v hv
  · exact (composes_passes c.owner t).phases.popMany count t .refl
  · exact preserves_mapM (fun token => passes_push hopen.owner token) tokens t .refl
  · exact preserves_mapM (fun field => (preserves_ofExcept _).bind fun token =>
      passes_push hopen.owner token) fields t .refl
  · -- Behind the blocks, the parameters and the types of the results are found.
    rw [liftFunction, outcome_bind_of_runs hopened]
    refine Preserves.bind (passes_liftBlocks hopen.owner hs _ _ _) (fun _ => ?_) s .refl
    exact (preserves_ofExcept _).bind fun _ => (preserves_ofExcept _).bind fun _ =>
      (passes_paramVars hopen.owner _ _).bind fun _ =>
      (preserves_mapM (passes_typeOf hopen.owner) _).bind fun _ => preserves_get.bind fun _ =>
      preserves_pure _

end Converter

end MoveBytecode
