import MoveBytecode.Proofs.Lift.Stack
import MoveBytecode.Proofs.Run

/-!
# Orderly computations

Whatever a lift does, and whether or not it ends with a fault, its stack stays well-formed and evolves.
`Orderly` says so of a computation, together with the one class of faults that it does not end with:
the one after which a lift goes on with the next block. Both are shown for the operations of the stack
and composed from there.
-/

namespace MoveBytecode.Lift

variable {α β : Type}

/-- The faults that a lift records and goes on after. -/
def Recorded (fault : Fault) : Prop := fault.kind = .unsupportedConversion

/-- A computation that keeps states well-formed and lets them evolve. -/
def Keeps (x : LiftM α) : Prop :=
  ∀ s r s', outcome x s = (r, s') → s.WellFormed → s'.WellFormed ∧ s.Evolves s'

/-- A computation that keeps states well-formed and ends with no fault that a lift would go on
after. -/
structure Orderly (x : LiftM α) : Prop where
  keeps : Keeps x
  spares : Spares (fun fault => ¬ Recorded fault) x

/-- A computation that leaves the stack and the counter alone. -/
def Still (x : LiftM α) : Prop :=
  ∀ s r s', outcome x s = (r, s') → s'.stack = s.stack ∧ s'.counter = s.counter

/-- Being still is leaving the stack and the counter alone. -/
theorem still_iff_leaves {x : LiftM α} :
    Still x ↔ Leaves (fun s : State => (s.stack, s.counter)) x := by
  constructor
  · intro h s
    obtain ⟨hstack, hcounter⟩ := h s _ _ rfl
    exact Prod.ext hstack hcounter
  · intro h s r s' hrun
    have hs := h s
    rw [hrun] at hs
    exact Prod.mk.inj hs

/-- A still computation keeps states well-formed, as it does not touch what that is about. -/
theorem Still.keeps {x : LiftM α} (h : Still x) : Keeps x := by
  intro s r s' hrun hwf
  obtain ⟨hstack, hcounter⟩ := h s r s' hrun
  exact hwf.congr hstack (by omega)

/-- A still computation is orderly if it ends with no fault that a lift would go on after. -/
theorem Still.orderly {x : LiftM α} (h : Still x)
    (hs : Spares (fun fault => ¬ Recorded fault) x) : Orderly x := ⟨h.keeps, hs⟩

/-- A sequence keeps states well-formed if its parts do. -/
theorem Keeps.bind {x : LiftM α} {f : α → LiftM β} (hx : Keeps x) (hf : ∀ a, Keeps (f a)) :
    Keeps (x >>= f) := by
  intro s r s' hrun hwf
  rw [outcome_bind] at hrun
  rcases hs : outcome x s with ⟨e | a, t⟩
  · simp only [hs, Prod.mk.injEq] at hrun
    obtain ⟨-, rfl⟩ := hrun
    exact hx s _ t hs hwf
  · simp only [hs] at hrun
    obtain ⟨ht, hst⟩ := hx s _ t hs hwf
    obtain ⟨hs', hts⟩ := hf a t r s' hrun ht
    exact ⟨hs', hst.trans hts⟩

/-- A computation with a handler keeps states well-formed if both do. -/
theorem Keeps.tryCatch {x : LiftM α} {handler : Fault → LiftM α} (hx : Keeps x)
    (hh : ∀ e, Keeps (handler e)) : Keeps (tryCatch x handler) := by
  intro s r s' hrun hwf
  rw [outcome_tryCatch] at hrun
  rcases hs : outcome x s with ⟨e | a, t⟩
  · simp only [hs] at hrun
    obtain ⟨ht, hst⟩ := hx s _ t hs hwf
    obtain ⟨hs', hts⟩ := hh e t r s' hrun ht
    exact ⟨hs', hst.trans hts⟩
  · simp only [hs, Prod.mk.injEq] at hrun
    obtain ⟨-, rfl⟩ := hrun
    exact hx s _ t hs hwf

/-- A sequence is orderly if its parts are. -/
theorem Orderly.bind {x : LiftM α} {f : α → LiftM β} (hx : Orderly x) (hf : ∀ a, Orderly (f a)) :
    Orderly (x >>= f) :=
  ⟨hx.keeps.bind fun a => (hf a).keeps, spares_bind hx.spares fun a => (hf a).spares⟩

/-- Returning a value is still. -/
theorem still_pure (a : α) : Still (pure a : LiftM α) := still_iff_leaves.mpr (leaves_pure a)

/-- Throwing a fault is still. -/
theorem still_throw (e : Fault) : Still (throw e : LiftM α) := still_iff_leaves.mpr (leaves_throw e)

/-- Reading the state is still. -/
theorem still_get : Still (get : LiftM State) := still_iff_leaves.mpr leaves_get

/-- Changing the state is still if the change leaves the stack and the counter as they are. -/
theorem still_modify {f : State → State}
    (h : ∀ s, (f s).stack = s.stack ∧ (f s).counter = s.counter) :
    Still (modify f : LiftM PUnit) :=
  still_iff_leaves.mpr (leaves_modify fun s => Prod.ext (h s).1 (h s).2)

/-- A result that is taken over leaves everything alone. -/
theorem leaves_ofExcept {σ τ : Type} {obs : σ → τ} (r : Except Fault α) :
    Leaves obs (ofExcept r : ExceptT Fault (StateM σ) α) := by
  cases r with
  | ok a => exact leaves_pure a
  | error e => exact leaves_throw e

/-- A result that is taken over is still. -/
theorem still_ofExcept (r : Except Fault α) : Still (ofExcept r : LiftM α) :=
  still_iff_leaves.mpr (leaves_ofExcept r)

/-- Recording an event is still. -/
theorem still_record (e : Event) : Still (record e) :=
  still_modify fun _ => ⟨rfl, rfl⟩

/-- Work on the host ends as it does alone, and changes the workspace alone. -/
theorem outcome_onHost (x : HostM α) (s : State) :
    outcome (onHost x) s =
      ((outcome x s.toWorkspace).1, { s with toWorkspace := (outcome x s.toWorkspace).2 }) := by
  simp only [onHost, outcome_bind, outcome_get]
  change outcome (ofExcept (outcome x s.toWorkspace).1 : LiftM α)
    { s with toWorkspace := (outcome x s.toWorkspace).2 } = _
  rcases outcome x s.toWorkspace with ⟨_ | _, _⟩
  · rfl
  · rfl

/-- What is done on the host is still. -/
theorem still_onHost (x : HostM α) : Still (onHost x) := by
  intro s r s' h
  rw [outcome_onHost, Prod.mk.injEq] at h
  obtain ⟨-, rfl⟩ := h
  exact ⟨rfl, rfl⟩

/-- Converting a token to a type is still. -/
theorem still_typeOf (f : Frame) (token : Token) : Still (typeOf f token) := still_onHost _

/-- A variable of a new name enters the scope; a name that is in use is refused. -/
theorem outcome_declare (name : VarName) (bits : Int) (type : Option NativeType) (s : State) :
    outcome (declare name bits type) s =
      if s.scope.contains name then (.error (.variableExists name.text), s)
      else (.ok { name, bits }, { s with scope := s.scope.add { name, bits } type }) := by
  simp only [declare, outcome_bind, outcome_get]
  split
  · simp only [outcome_bind, outcome_throw]
  · simp only [outcome_bind, outcome_modify, outcome_pure]

/-- A new variable for a stack position has the next number, and changes nothing else of the
stack. -/
theorem newStackVar_spec {bits : Int} {type : Option NativeType} {s s' : State} {r : Except Fault Var}
    (h : outcome (newStackVar bits type) s = (r, s')) :
    s'.stack = s.stack ∧ s'.counter = s.counter + 1 ∧
      (∀ v, r = .ok v → v.name = .stackVar s.counter ∧ v.bits = bits) ∧
      ∀ fault, r = .error fault → ¬ Recorded fault := by
  simp only [newStackVar, outcome_bind, outcome_get, outcome_modify, outcome_declare] at h
  split at h
  · obtain ⟨rfl, rfl⟩ := Prod.mk.inj h
    refine ⟨rfl, rfl, by simp, fun fault hf => ?_⟩
    obtain rfl := Except.error.inj hf
    exact nofun
  · obtain ⟨rfl, rfl⟩ := Prod.mk.inj h
    refine ⟨rfl, rfl, fun v hv => ?_, by simp⟩
    obtain rfl := Except.ok.inj hv
    exact ⟨rfl, rfl⟩

/-! ## Operations of the stack -/

/-- A new variable that is stored in the slot at the height. -/
def storeNew (bits : Int) (type : Option NativeType) (token : Option Token) : LiftM Var := do
  let v ← newStackVar bits type
  modifyStack (·.store ⟨v, token⟩)
  return v

/-- Storing a new variable either puts the variable of the next number, or it fails plainly with the
stack as it was; a number is used up in both cases. -/
theorem storeNew_spec {bits : Int} {type : Option NativeType} {token : Option Token} {s s' : State}
    {r : Except Fault Var} (h : outcome (storeNew bits type token) s = (r, s')) :
    (∃ v, r = .ok v ∧ v.name = .stackVar s.counter ∧ s'.counter = s.counter + 1 ∧
      s'.stack = s.stack.store ⟨v, token⟩) ∨
    (∃ fault, r = .error fault ∧ ¬ Recorded fault ∧ s'.counter = s.counter + 1 ∧
      s'.stack = s.stack) := by
  rcases hnew : outcome (newStackVar bits type) s with ⟨fault | v, t⟩
  · obtain ⟨hstack, hcounter, -, hfault⟩ := newStackVar_spec hnew
    simp only [storeNew, outcome_bind, hnew, Prod.mk.injEq] at h
    obtain ⟨rfl, rfl⟩ := h
    exact .inr ⟨fault, rfl, hfault fault rfl, hcounter, hstack⟩
  · obtain ⟨hstack, hcounter, hvar, -⟩ := newStackVar_spec hnew
    simp only [storeNew, outcome_bind, hnew, modifyStack, outcome_modify, outcome_pure,
      Prod.mk.injEq] at h
    obtain ⟨rfl, rfl⟩ := h
    exact .inl ⟨v, rfl, (hvar v rfl).1, hcounter, by simp only [hstack]⟩

/-- Storing a new variable is orderly. -/
theorem orderly_storeNew (bits : Int) (type : Option NativeType) (token : Option Token) :
    Orderly (storeNew bits type token) := by
  constructor
  · intro s r s' h hs
    rcases storeNew_spec h with ⟨v, -, hname, hcounter, hstack⟩ | ⟨fault, -, -, hcounter, hstack⟩
    · have hslots := OperandStack.varAt?_store hs.height_le ⟨v, token⟩
      rw [← hstack] at hslots
      refine hs.of_fresh hslots ?_ hname (Nat.le_refl _) (by omega)
      rw [hstack]
      exact OperandStack.height_store_le hs.height_le _
    · exact hs.congr hstack (by omega)
  · intro s fault s' h
    rcases storeNew_spec h with ⟨v, hv, -⟩ | ⟨fault', hf, hrecorded, -⟩
    · simp at hv
    · obtain rfl := Except.error.inj hf
      exact hrecorded

/-- A new variable that is stored stands on top of those before. -/
theorem vars_of_storeNew {bits : Int} {type : Option NativeType} {token : Option Token}
    {s s' : State} {v : Var} (hs : s.WellFormed) (h : Runs (storeNew bits type token) s v s') :
    s'.stack.vars = s.stack.vars ++ [v] := by
  rcases storeNew_spec h with ⟨w, hw, -, -, hstack⟩ | ⟨fault, hf, -⟩
  · obtain rfl := Except.ok.inj hw
    refine OperandStack.vars_eq_concat hs.height_le (by rw [hstack]; rfl) (fun k hk => ?_) ?_
    · rw [hstack, OperandStack.varAt?_store hs.height_le, if_neg (by omega)]
    · rw [hstack, OperandStack.varAt?_store hs.height_le, if_pos rfl]
  · simp at hf

/-- A push takes the slot at the height again or stores a new variable in it. -/
theorem outcome_push (f : Frame) (token : Token) (s : State) :
    outcome (push f token) s = match s.stack.reusable? token with
      | some v => (.ok v, { s with stack := s.stack.keep })
      | none => outcome (do
          let type ← typeOf f token
          storeNew type.bits (some type) (some token)) s := by
  rw [push, outcome_bind, outcome_get]
  dsimp only
  cases s.stack.reusable? token with
  | some v => rfl
  | none => rfl

/-! ## Faults -/

/-- A result that is no fault after which a lift goes on. -/
def Plain (r : Except Fault α) : Prop := ∀ fault, r = .error fault → ¬ Recorded fault

/-- A returned value is plain. -/
theorem plain_pure (a : α) : Plain (pure a : Except Fault α) := by
  intro fault h
  simp [pure, Except.pure] at h

/-- A sequence of results is plain if its parts are. -/
theorem Plain.bind {r : Except Fault α} {f : α → Except Fault β} (hr : Plain r)
    (hf : ∀ a, Plain (f a)) : Plain (r >>= f) := by
  intro fault h
  cases r with
  | ok a => exact hf a fault h
  | error e =>
    obtain rfl := Except.error.inj h
    exact hr e rfl

/-- Looking up a pool is plain. -/
theorem plain_get (p : Pool α) (index : Int) : Plain (p.get index) := by
  intro fault h
  unfold Pool.get at h
  split at h
  · split at h
    · simp at h
    · obtain rfl := Except.error.inj h
      exact nofun
  · obtain rfl := Except.error.inj h
    exact nofun

/-- Mapping a list is plain if mapping each element is. -/
theorem plain_mapM {f : α → Except Fault β} (hf : ∀ a, Plain (f a)) (l : List α) :
    Plain (l.mapM f) := by
  induction l with
  | nil => exact plain_pure []
  | cons a rest ih =>
    rw [List.mapM_cons]
    exact (hf a).bind fun _ => ih.bind fun _ => plain_pure _

/-- A plain result that is taken over ends with no recorded fault. -/
theorem spares_ofExcept {σ : Type} {r : Except Fault α} (hr : Plain r) :
    Spares (fun fault => ¬ Recorded fault) (ofExcept r : ExceptT Fault (StateM σ) α) := by
  cases r with
  | ok a => exact spares_pure a
  | error e => exact spares_throw (hr e rfl)

/-- What is done on the host has the faults that it has there. -/
theorem spares_onHost {x : HostM α} {P : Fault → Prop} (h : Spares P x) : Spares P (onHost x) := by
  intro s fault s' hrun
  rw [outcome_onHost, Prod.mk.injEq] at hrun
  exact h s.toWorkspace fault _ (Prod.ext hrun.1 rfl)

/-- What is done with the types changes them in the workspace and nothing else. -/
theorem outcome_onTypes (x : TypeM α) (w : Workspace) :
    outcome (onTypes x) w = ((outcome x w.host.types).1,
      { w with host := { w.host with types := (outcome x w.host.types).2 } }) := by
  simp only [onTypes, outcome_bind, outcome_get]
  change outcome (ofExcept (outcome x w.host.types).1 : HostM α)
    { w with host := { w.host with types := (outcome x w.host.types).2 } } = _
  rcases outcome x w.host.types with ⟨_ | _, _⟩
  · rfl
  · rfl

/-- What is done with the types has the faults that it has there. -/
theorem spares_onTypes {x : TypeM α} {P : Fault → Prop} (h : Spares P x) :
    Spares P (onTypes x) := by
  intro w fault w' hrun
  rw [outcome_onTypes, Prod.mk.injEq] at hrun
  exact h w.host.types fault _ (Prod.ext hrun.1 rfl)

/-- Looking up a string is plain. -/
theorem plain_string (m : Module) (index : Int) : Plain (m.string index) :=
  (plain_get _ _).bind fun _ => plain_pure _

/-- Looking up the host name of a struct is plain. -/
theorem plain_structHostName (m : Module) (handle : Int) : Plain (m.structHostName handle) :=
  (plain_get _ _).bind fun _ =>
    Plain.bind ((plain_get _ _).bind fun _ => (plain_string m _).bind fun _ =>
      Plain.bind ((plain_get _ _).bind fun _ => (plain_string m _).bind fun _ => plain_pure _)
        fun _ => plain_pure _) fun _ => plain_pure _

/-- Looking up the name of a function is plain. -/
theorem plain_functionName (m : Module) (h : FunctionHandle) : Plain (m.functionName h) := by
  refine (plain_string m _).bind fun _ => (plain_get _ _).bind fun _ =>
    (plain_string m _).bind fun _ => ?_
  split
  · exact plain_pure _
  · exact plain_pure _

/-- Looking up the signature of a function is plain. -/
theorem plain_signatureOf (m : Module) (h : FunctionHandle) : Plain (m.signatureOf h) :=
  (plain_get _ _).bind fun _ => plain_pure _

/-- Typing a token may fail, but not so that a lift would go on. -/
theorem spares_typing (m : Module) (token : Token) :
    Spares (fun fault => ¬ Recorded fault) (Typing.typeOf m token) := by
  have named : ∀ name, Spares (fun fault => ¬ Recorded fault) (Typing.moveType name) := by
    intro name
    refine spares_bind spares_get fun registry => ?_
    split
    · exact spares_pure _
    · exact spares_throw (by rintro ⟨⟩)
  induction token with
  | bool | integer | string | address | bytearray => exact named _
  | reference mutable target ih =>
    exact spares_bind ih fun _ => spares_bind spares_get fun _ => spares_pure _
  | anyReference mutable => exact spares_bind spares_get fun _ => spares_pure _
  | struct handle =>
    refine spares_bind ?_ fun _ => spares_bind spares_get fun _ => spares_pure _
    unfold Typing.structureOf
    split
    · rename_i fault hname
      exact spares_throw (plain_structHostName m handle fault hname)
    · exact spares_bind spares_get fun _ => spares_bind (spares_set _) fun _ => spares_pure _
  | anyStruct => exact spares_throw (by rintro ⟨⟩)

/-- Converting a token to a type ends with no recorded fault. -/
theorem spares_typeOf (f : Frame) (token : Token) :
    Spares (fun fault => ¬ Recorded fault) (typeOf f token) :=
  spares_onHost (spares_onTypes (spares_typing f.owner token))

/-! ## Pushes and pops -/

/-- Pushing a token is orderly. -/
theorem orderly_push (f : Frame) (token : Token) : Orderly (push f token) := by
  -- Either the slot has a variable of this type already, or a new one is made and stored.
  have hnew : Orderly (do
      let type ← typeOf f token
      storeNew type.bits (some type) (some token)) :=
    ((still_typeOf f token).orderly (spares_typeOf f token)).bind fun _ => orderly_storeNew _ _ _
  constructor
  · intro s r s' h hs
    rw [outcome_push] at h
    split at h
    · rename_i v hv
      obtain ⟨-, rfl⟩ := Prod.mk.inj h
      have := OperandStack.lt_of_varAt? (OperandStack.varAt?_of_reusable hv)
      exact hs.of_varAt? (fun _ => rfl) (by simp only [OperandStack.keep]; omega) (Nat.le_refl _)
    · exact hnew.keeps s r s' h hs
  · intro s fault s' h
    rw [outcome_push] at h
    split at h
    · simp at h
    · exact hnew.spares s fault s' h

/-- A token that is pushed puts one variable on top. -/
theorem vars_of_push {f : Frame} {token : Token} {s s' : State} {v : Var} (hs : s.WellFormed)
    (h : Runs (push f token) s v s') : s'.stack.vars = s.stack.vars ++ [v] := by
  rw [Runs, outcome_push] at h
  split at h
  · rename_i w hw
    obtain ⟨hv, rfl⟩ := Prod.mk.inj h
    obtain rfl := Except.ok.inj hv
    exact OperandStack.vars_eq_concat hs.height_le rfl (fun _ _ => rfl) (OperandStack.varAt?_of_reusable hw)
  · obtain ⟨type, t, htype, hstore⟩ := runs_bind.mp h
    obtain ⟨hstack, hcounter⟩ := still_typeOf f token s _ t htype
    obtain ⟨ht, -⟩ := hs.congr hstack (by omega)
    rw [vars_of_storeNew ht hstore, hstack]

/-- Pushing a type of the host is orderly. -/
theorem orderly_pushNative (bits : Int) (type : Option NativeType) :
    Orderly (pushNative bits type) := orderly_storeNew bits type none

/-- A type of the host that is pushed puts one variable on top. -/
theorem vars_of_pushNative {bits : Int} {type : Option NativeType} {s s' : State} {v : Var}
    (hs : s.WellFormed) (h : Runs (pushNative bits type) s v s') :
    s'.stack.vars = s.stack.vars ++ [v] := vars_of_storeNew hs h

/-- Returning a value is orderly. -/
theorem orderly_pure (a : α) : Orderly (pure a : LiftM α) :=
  (still_pure a).orderly (spares_pure a)

/-- Reading the state is orderly. -/
theorem orderly_get : Orderly (get : LiftM State) := still_get.orderly spares_get

/-- Taking over a plain result is orderly. -/
theorem orderly_ofExcept {r : Except Fault α} (hr : Plain r) : Orderly (ofExcept r : LiftM α) :=
  (still_ofExcept r).orderly (spares_ofExcept hr)

/-- Throwing a fault that a lift does not record is orderly. -/
theorem orderly_throw {e : Fault} (he : ¬ Recorded e) : Orderly (throw e : LiftM α) :=
  (still_throw e).orderly (spares_throw he)

/-- What is done on the host is orderly if it ends with no recorded fault there. -/
theorem orderly_onHost {x : HostM α} (hx : Spares (fun fault => ¬ Recorded fault) x) :
    Orderly (onHost x) := (still_onHost x).orderly (spares_onHost hx)

/-- What a pop takes is the last of the values; the slots stay. -/
theorem pop_eq_ok {s s' : OperandStack} {v : Var} (h : s.pop = .ok (v, s')) :
    s.height = s'.height + 1 ∧ s'.slots = s.slots ∧ s.varAt? s'.height = some v := by
  unfold OperandStack.pop at h
  split at h
  · simp at h
  · rename_i height hheight
    split at h
    · rename_i slot hslot
      obtain ⟨rfl, rfl⟩ := Prod.mk.inj (Except.ok.inj h)
      exact ⟨hheight, rfl, by simp [OperandStack.varAt?, hslot]⟩
    · simp at h

/-- Popping a stack is plain. -/
theorem plain_pop (s : OperandStack) : Plain s.pop := by
  intro fault h
  unfold OperandStack.pop at h
  split at h
  · obtain rfl := Except.error.inj h
    exact nofun
  · split at h
    · simp at h
    · obtain rfl := Except.error.inj h
      exact nofun

/-- A pop takes the top of the stack and leaves the rest, or fails and leaves the state. -/
theorem outcome_pop (s : State) :
    outcome pop s = match s.stack.pop with
      | .ok (v, stack) => (.ok v, { s with stack })
      | .error fault => (.error fault, s) := by
  rw [pop, outcome_bind, outcome_get]
  dsimp only
  rcases s.stack.pop with fault | ⟨v, stack⟩
  · rfl
  · rfl

/-- A pop is orderly. -/
theorem orderly_pop : Orderly pop := by
  constructor
  · intro s r s' h hs
    rw [outcome_pop] at h
    split at h
    · rename_i v stack hpop
      obtain ⟨-, rfl⟩ := Prod.mk.inj h
      obtain ⟨hheight, hslots, -⟩ := pop_eq_ok hpop
      refine hs.of_varAt? (fun k => ?_) ?_ (Nat.le_refl _)
      · simp only [OperandStack.varAt?, hslots]
      · have := hs.height_le
        simp only [hslots]
        omega
    · obtain ⟨-, rfl⟩ := Prod.mk.inj h
      exact ⟨hs, .refl _⟩
  · intro s fault s' h
    rw [outcome_pop] at h
    split at h
    · simp at h
    · rename_i fault' hpop
      obtain ⟨h, -⟩ := Prod.mk.inj h
      obtain rfl := Except.error.inj h
      exact plain_pop _ _ hpop

/-- A pop takes the variable on top. -/
theorem vars_of_pop {s s' : State} {v : Var} (hs : s.WellFormed) (h : Runs pop s v s') :
    s.stack.vars = s'.stack.vars ++ [v] := by
  rw [Runs, outcome_pop] at h
  split at h
  · rename_i w stack hpop
    obtain ⟨hv, rfl⟩ := Prod.mk.inj h
    obtain rfl := Except.ok.inj hv
    obtain ⟨hheight, hslots, htop⟩ := pop_eq_ok hpop
    have := hs.height_le
    refine OperandStack.vars_eq_concat (by simp only [hslots]; omega) hheight (fun k _ => ?_) htop
    simp only [OperandStack.varAt?, hslots]
  · simp at h

/-- Popping several values is orderly. -/
theorem orderly_popInto (count : Nat) (above : List Var) : Orderly (popInto count above) := by
  induction count generalizing above with
  | zero => exact orderly_pure above
  | succ count ih => exact orderly_pop.bind fun _ => ih _

/-- Popping several values takes as many from the top, in the order of the stack, and puts them before
those taken already. -/
theorem vars_of_popInto {count : Nat} {above vs : List Var} {s s' : State} (hs : s.WellFormed)
    (h : Runs (popInto count above) s vs s') : ∃ taken, vs = taken ++ above ∧
      taken.length = count ∧ s.stack.vars = s'.stack.vars ++ taken := by
  induction count generalizing above s with
  | zero =>
    obtain ⟨rfl, rfl⟩ := runs_pure.mp h
    exact ⟨[], rfl, rfl, by simp⟩
  | succ count ih =>
    obtain ⟨v, t, hpop, h⟩ := runs_bind.mp h
    obtain ⟨taken, rfl, hlength, hvars⟩ := ih (orderly_pop.keeps s _ t hpop hs).1 h
    refine ⟨taken ++ [v], by simp, by simp [hlength], ?_⟩
    rw [vars_of_pop hs hpop, hvars, List.append_assoc]

/-- Popping a number of values is orderly. -/
theorem orderly_popMany (count : Nat) : Orderly (popMany count) := orderly_popInto count []

/-- The values that are taken are the last ones, in the order in which they were put there. -/
theorem vars_of_popMany {count : Nat} {vs : List Var} {s s' : State} (hs : s.WellFormed)
    (h : Runs (popMany count) s vs s') :
    vs.length = count ∧ s.stack.vars = s'.stack.vars ++ vs := by
  obtain ⟨taken, rfl, hlength, hvars⟩ := vars_of_popInto hs h
  rw [List.append_nil]
  exact ⟨hlength, hvars⟩

/-- Values that are pushed one after the other come last, in this order. -/
theorem vars_of_mapM {f : α → LiftM Var} (hf : ∀ a, Orderly (f a))
    (hvars : ∀ a s v s', s.WellFormed → Runs (f a) s v s' → s'.stack.vars = s.stack.vars ++ [v])
    {l : List α} {vs : List Var} {s s' : State} (hs : s.WellFormed) (h : Runs (l.mapM f) s vs s') :
    vs.length = l.length ∧ s'.stack.vars = s.stack.vars ++ vs := by
  induction l generalizing vs s with
  | nil =>
    obtain ⟨rfl, rfl⟩ := runs_pure.mp h
    exact ⟨rfl, by simp⟩
  | cons a rest ih =>
    rw [List.mapM_cons] at h
    obtain ⟨v, t, hv, h⟩ := runs_bind.mp h
    obtain ⟨ws, u, hws, h⟩ := runs_bind.mp h
    obtain ⟨rfl, rfl⟩ := runs_pure.mp h
    obtain ⟨hlength, hrest⟩ := ih ((hf a).keeps s _ t hv hs).1 hws
    refine ⟨by simp [hlength], ?_⟩
    rw [hrest, hvars a s v t hs hv, List.append_assoc]
    rfl

/-! ## Entering blocks -/

/-- A slot that is added above all others, with a variable of its own. -/
theorem wellFormed_grow {s t : State} (hs : s.WellFormed) {v : Var}
    (hname : v.name = .stackVar s.counter) (hcounter : t.counter = s.counter + 1)
    (hstack : t.stack = s.stack.grow ⟨v, none⟩) : t.WellFormed ∧ s.Evolves t := by
  have hslots := OperandStack.varAt?_grow s.stack ⟨v, none⟩
  rw [← hstack] at hslots
  refine hs.of_fresh hslots ?_ hname (Nat.le_refl _) (by omega)
  have := hs.height_le
  simp only [hstack, OperandStack.grow, Array.size_push]
  omega

/-- Growing adds slots and leaves those that exist as they are, also where it ends with a fault. -/
theorem growBy_spec {count : Nat} {s s' : State} {r : Except Fault Unit} (hs : s.WellFormed)
    (h : outcome (growBy count) s = (r, s')) :
    (s'.WellFormed ∧ s.Evolves s') ∧ s'.stack.height = s.stack.height ∧
      (∀ k v, s.stack.varAt? k = some v → s'.stack.varAt? k = some v) ∧
      ∀ u, r = .ok u → s'.stack.slots.size = s.stack.slots.size + count := by
  induction count generalizing s with
  | zero =>
    obtain ⟨rfl, rfl⟩ := Prod.mk.inj h
    exact ⟨⟨hs, .refl _⟩, rfl, fun _ _ hv => hv, fun _ _ => rfl⟩
  | succ count ih =>
    rcases hnew : outcome (newStackVar 64 none) s with ⟨fault | v, t⟩
    · -- No variable could be made; the slots are as many as before.
      obtain ⟨hstack, hcounter, -, -⟩ := newStackVar_spec hnew
      simp only [growBy, outcome_bind, hnew, Prod.mk.injEq] at h
      obtain ⟨rfl, rfl⟩ := h
      exact ⟨hs.congr hstack (by omega), by rw [hstack], fun k v hv => by rwa [hstack], by simp⟩
    · obtain ⟨hstack, hcounter, hvar, -⟩ := newStackVar_spec hnew
      simp only [growBy, outcome_bind, hnew, modifyStack, outcome_modify] at h
      obtain ⟨hwf, hevolves⟩ := wellFormed_grow
        (t := { t with stack := t.stack.grow ⟨v, none⟩ }) hs (hvar v rfl).1 hcounter
        (by simp only [hstack])
      obtain ⟨⟨hwf', hevolves'⟩, hheight, hslots, hsize⟩ := ih hwf h
      refine ⟨⟨hwf', hevolves.trans hevolves'⟩, ?_, fun k w hw => hslots k w ?_, fun u hu => ?_⟩
      · rw [hheight]
        simp only [OperandStack.grow, hstack]
      · have := OperandStack.lt_of_varAt? hw
        simp only [hstack]
        rw [OperandStack.varAt?_grow, if_neg (by omega)]
        exact hw
      · rw [hsize u hu]
        simp only [OperandStack.grow, hstack, Array.size_push]
        omega

/-- Entering a block sets the height and leaves the slots that exist as they are. -/
theorem enterBlock_spec {depth : Nat} {s s' : State} {r : Except Fault Unit} (hs : s.WellFormed)
    (h : outcome (enterBlock depth) s = (r, s')) :
    (s'.WellFormed ∧ s.Evolves s') ∧
      (∀ k v, s.stack.varAt? k = some v → s'.stack.varAt? k = some v) ∧
      ∀ u, r = .ok u → s'.stack.height = depth := by
  simp only [enterBlock, outcome_bind, outcome_get] at h
  -- Slots are added up to the depth first, so that the height can be set to it.
  rcases hgrow : outcome (growBy (depth - s.stack.slots.size)) s with ⟨fault | u, t⟩
  · obtain ⟨hwf, -, hslots, -⟩ := growBy_spec hs hgrow
    simp only [hgrow, Prod.mk.injEq] at h
    obtain ⟨rfl, rfl⟩ := h
    exact ⟨hwf, hslots, by simp⟩
  · obtain ⟨⟨hwf, hevolves⟩, -, hslots, hsize⟩ := growBy_spec hs hgrow
    simp only [hgrow, modifyStack, outcome_modify, Prod.mk.injEq] at h
    obtain ⟨rfl, rfl⟩ := h
    have := hsize u rfl
    obtain ⟨hwf', hevolves'⟩ := hwf.of_varAt? (t := { t with stack := t.stack.setHeight depth })
      (fun _ => rfl) (by simp only [OperandStack.setHeight]; omega) (Nat.le_refl _)
    exact ⟨⟨hwf', hevolves.trans hevolves'⟩, hslots, fun _ _ => rfl⟩

/-- Making a new variable ends with no recorded fault. -/
theorem spares_newStackVar (bits : Int) (type : Option NativeType) :
    Spares (fun fault => ¬ Recorded fault) (newStackVar bits type) :=
  fun _ fault _ h => (newStackVar_spec h).2.2.2 fault rfl

/-- Filling up the stack ends with no recorded fault. -/
theorem spares_growBy (count : Nat) : Spares (fun fault => ¬ Recorded fault) (growBy count) := by
  induction count with
  | zero => exact spares_pure _
  | succ count ih =>
    exact spares_bind (spares_newStackVar 64 none) fun _ => spares_bind (spares_modify _) fun _ => ih

/-- Entering a block is orderly. -/
theorem orderly_enterBlock (depth : Nat) : Orderly (enterBlock depth) :=
  ⟨fun _ _ _ h hs => (enterBlock_spec hs h).1,
    spares_bind spares_get fun _ => spares_bind (spares_growBy _) fun _ => spares_modify _⟩

end MoveBytecode.Lift
