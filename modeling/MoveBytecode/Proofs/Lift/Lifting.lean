import MoveBytecode.Lift.Routine
import MoveBytecode.Proofs.Lift.Lowering

/-!
# What all lifts have in common

A lift is put together from the parts of lowerings and from what surrounds them: variables are declared,
slots are added to the stack, tokens get types, events are recorded, and faults are caught. A property of
computations that these have and that their composition keeps (`Pervades`) is therefore one of the lift of
every function (`Pervades.liftFunction`).
-/

namespace MoveBytecode.Lift

/-- A property of computations that the parts of lifts in the module `m` have and that their composition
keeps. -/
structure Pervades (m : Module) (P : ∀ α : Type, LiftM α → Prop) : Prop where
  pure : ∀ {α : Type} (a : α), P α (pure a)
  bind : ∀ {α β : Type} {x : LiftM α} {f : α → LiftM β}, P α x → (∀ a, P β (f a)) → P β (x >>= f)
  throw : ∀ {α : Type} (e : Fault), P α (throw e)
  tryCatch : ∀ {α : Type} {x : LiftM α} {handler : Fault → LiftM α}, P α x →
    (∀ e, P α (handler e)) → P α (tryCatch x handler)
  /-- What is done with a state may only depend on what a lift looks at. -/
  look : ∀ {α : Type} {f : State → LiftM α}, (∀ s t, s.outlook = t.outlook → f s = f t) →
    (∀ s, P α (f s)) → P α (get >>= f)
  /-- The variables and the stack may change. -/
  change : ∀ (scope : Scope → Scope) (stack : OperandStack → OperandStack) (counter : Nat → Nat),
    P Unit (modify fun s =>
      { s with scope := scope s.scope, stack := stack s.stack, counter := counter s.counter })
  record : ∀ e : Event, P Unit (record e)
  typing : ∀ token : Token, P NativeType (onHost (onTypes (Typing.typeOf m token)))
  prototype : ∀ (number : Nat) {h : FunctionHandle} {signature : FunctionSignature},
    m.signatureOf h = .ok signature → P Unit (onHost (ensurePrototype m number signature))

/-- A pop looks at the stack and changes nothing else. -/
theorem pop_eq : pop = (do
    let (v, stack) ← ofExcept (← get).stack.pop
    modifyStack fun _ => stack
    return v) := by
  funext s
  change outcome pop s = outcome _ s
  rw [outcome_pop, outcome_bind, outcome_get]
  dsimp only
  rcases s.stack.pop with fault | ⟨v, stack⟩
  · rfl
  · rfl

namespace Pervades

variable {m : Module} {f : Frame} {P : ∀ α : Type, LiftM α → Prop} {α β : Type}

/-- Taking over a result has the property. -/
theorem ofExcept (hP : Pervades m P) (r : Except Fault α) : P α (Lift.ofExcept r) := by
  cases r with
  | ok a => exact hP.pure a
  | error e => exact hP.throw e

/-- Mapping a list has the property if mapping each element has it. -/
theorem mapM (hP : Pervades m P) {g : α → LiftM β} (hg : ∀ a, P β (g a)) (l : List α) :
    P (List β) (l.mapM g) := by
  induction l with
  | nil => exact hP.pure []
  | cons a rest ih =>
    rw [List.mapM_cons]
    exact hP.bind (hg a) fun _ => hP.bind ih fun _ => hP.pure _

/-- A loop over a list has the property if its body has it. -/
theorem forM (hP : Pervades m P) {g : α → LiftM Unit} (hg : ∀ a, P Unit (g a)) (l : List α) :
    P Unit (l.forM g) := by
  induction l with
  | nil => exact hP.pure _
  | cons a rest ih => exact hP.bind (hg a) fun _ => ih

/-! ## Variables and the stack -/

/-- Declaring a variable has the property. -/
theorem declare (hP : Pervades m P) (name : VarName) (bits : Int) (type : Option NativeType) :
    P Var (declare name bits type) := by
  have hadd (v : Var) : P Var (do
      modify fun s => { s with scope := s.scope.add v type }
      return v) :=
    hP.bind (hP.change (·.add v type) id id) fun _ => hP.pure v
  refine hP.look (fun s t hst => by rw [scope_of_outlook hst]) fun s => ?_
  split
  -- A name that is taken is refused.
  · exact hP.bind (hP.throw _) fun _ => hadd _
  · exact hadd _

/-- Making a new variable has the property. -/
theorem newStackVar (hP : Pervades m P) (bits : Int) (type : Option NativeType) :
    P Var (newStackVar bits type) :=
  hP.look (fun s t hst => by rw [counter_of_outlook hst]) fun s =>
    hP.bind (hP.change id id fun _ => s.counter + 1) fun _ => hP.declare _ bits type

/-- Changing the stack has the property. -/
theorem modifyStack (hP : Pervades m P) (change : OperandStack → OperandStack) :
    P Unit (modifyStack change) := hP.change id change id

/-- Pushing a type of the host has the property. -/
theorem pushNative (hP : Pervades m P) (bits : Int) (type : Option NativeType) :
    P Var (pushNative bits type) :=
  hP.bind (hP.newStackVar bits type) fun _ => hP.bind (hP.modifyStack _) fun _ => hP.pure _

/-- Pushing a token has the property. -/
theorem push (hP : Pervades m P) (token : Token) (hf : f.owner = m) : P Var (push f token) := by
  subst hf
  refine hP.look (fun s t hst => by rw [stack_of_outlook hst]) fun s => ?_
  split
  -- A slot of the token that is left from before is taken again.
  · exact hP.bind (hP.modifyStack _) fun _ => hP.pure _
  · exact hP.bind (hP.typing token) fun _ => hP.bind (hP.newStackVar _ _) fun _ =>
      hP.bind (hP.modifyStack _) fun _ => hP.pure _

/-- A pop has the property. -/
theorem pop (hP : Pervades m P) : P Var pop := by
  rw [pop_eq]
  refine hP.look (fun s t hst => by rw [stack_of_outlook hst]) fun s => ?_
  exact hP.bind (hP.ofExcept _) fun _ => hP.bind (hP.modifyStack _) fun _ => hP.pure _

/-- Filling up the stack has the property. -/
theorem growBy (hP : Pervades m P) (count : Nat) : P Unit (growBy count) := by
  induction count with
  | zero => exact hP.pure _
  | succ count ih =>
    exact hP.bind (hP.newStackVar _ _) fun _ => hP.bind (hP.modifyStack _) fun _ => ih

/-- Entering a block has the property. -/
theorem enterBlock (hP : Pervades m P) (depth : Nat) : P Unit (enterBlock depth) :=
  hP.look (fun s t hst => by rw [stack_of_outlook hst]) fun _ =>
    hP.bind (hP.growBy _) fun _ => hP.modifyStack _

/-! ## Instructions and blocks -/

/-- A property that pervades lifts is one that lowerings compose to. -/
theorem composes (hP : Pervades m P) : Composes m P where
  pure := hP.pure
  bind := hP.bind
  throw _ := hP.throw _
  look := hP.look
  push := hP.push
  pushNative := hP.pushNative
  pop := hP.pop
  prototype := hP.prototype

/-- Lowering an instruction has the property. -/
theorem lowerAt (hP : Pervades m P) (hf : f.owner = m) (p : Placed) : P Step (lowerAt f p) := by
  have hsupported : P (List Stmt) (lowerSupported f p) := by
    unfold lowerSupported
    split
    · exact hP.throw _
    · exact hP.composes.lower hf _ _
  have hreport (fault : Fault) : P (List Stmt) (reportFault f p fault) :=
    hP.bind (hP.ofExcept _) fun _ => hP.bind (hP.record _) fun _ => hP.throw _
  exact hP.bind (hP.tryCatch hsupported hreport) fun _ =>
    hP.bind (hP.forM (fun _ => hP.record _) _) fun _ => hP.pure _

/-- Lowering instructions one after the other has the property. -/
theorem lowerAll (hP : Pervades m P) (hf : f.owner = m) (ps : List Placed) (done : Array Step) :
    P (Array Step) (lowerAll f ps done) := by
  induction ps generalizing done with
  | nil => exact hP.pure _
  | cons p rest ih => exact hP.bind (hP.lowerAt hf p) fun _ => ih _

/-- Lifting a block has the property. -/
theorem liftBlock (hP : Pervades m P) (hf : f.owner = m) (b : Block) (done : Array Step) :
    P (Array Step) (liftBlock f b done) := by
  unfold Lift.liftBlock
  split
  · exact hP.pure _
  · exact hP.bind (hP.enterBlock _) fun _ => hP.lowerAll hf _ done

/-- Lifting blocks one after the other has the property. -/
theorem liftBlocks (hP : Pervades m P) (hf : f.owner = m) (blocks : List Block) (done : Array Step)
    (failed : Array (String × String)) :
    P (Array Step × Array (String × String)) (liftBlocks f blocks done failed) := by
  induction blocks generalizing done failed with
  | nil => exact hP.pure _
  | cons b rest ih =>
    refine hP.bind (hP.tryCatch ?_ fun fault => ?_) fun result => ?_
    · exact hP.bind (hP.liftBlock hf b done) fun _ => hP.pure _
    -- The fault of a block is kept as a reason, or it ends the lift.
    · split
      · exact hP.pure _
      · exact hP.throw _
    · split
      · exact ih _ _
      · exact ih _ _

/-! ## Functions -/

/-- Declaring the variables of locals has the property. -/
theorem declareLocals (hP : Pervades m P) (index : Nat) (tokens : List Token) :
    P (List Var) (declareLocals m index tokens) := by
  induction tokens generalizing index with
  | nil => exact hP.pure _
  | cons token rest ih =>
    exact hP.bind (hP.typing token) fun _ => hP.bind (hP.declare _ _ _) fun _ =>
      hP.bind (ih _) fun _ => hP.pure _

/-- Finding the variables of parameters has the property. -/
theorem paramVars (hP : Pervades m P) (hf : f.owner = m) (index : Nat) (tokens : List Token) :
    P (List Var) (paramVars f index tokens) := by
  subst hf
  induction tokens generalizing index with
  | nil => exact hP.pure _
  | cons token rest ih =>
    refine hP.bind (hP.look (fun s t hst => by rw [scope_of_outlook hst]) fun s => ?_) fun _ =>
      hP.bind (ih _) fun _ => hP.pure _
    split
    · exact hP.pure _
    · exact hP.bind (hP.typing token) fun _ => hP.declare _ _ _

/-- The registers are declared, and the stack is empty. -/
theorem start (hP : Pervades m P) : P Unit (modify fun s => { s with
    scope := (Scope.empty.setRegister programCounter).setRegister stackPointer
    stack := .empty
    counter := 0 }) := hP.change (fun _ => _) (fun _ => _) fun _ => _

/-- Opening a function has the property. -/
theorem openFunction (hP : Pervades m P) (removed : List Opcode) (g : Entry FunctionDef) :
    P Frame (openFunction m removed g) :=
  hP.bind hP.start fun _ => hP.bind (hP.ofExcept _) fun _ =>
    hP.bind (hP.declareLocals 0 _) fun _ => hP.pure _

/-- A property that pervades lifts is one of the lift of every function. -/
theorem liftFunction (hP : Pervades m P) (removed : List Opcode) (g : Entry FunctionDef) :
    P (Routine → Lifted) (liftFunction m removed g) := by
  simp only [Lift.liftFunction, Lift.openFunction, bind_assoc, pure_bind]
  refine hP.bind hP.start fun _ => hP.bind (hP.ofExcept _) fun localTypes =>
    hP.bind (hP.declareLocals 0 _) fun locals => ?_
  -- What follows is done in the frame of the function, which is one of the module.
  have hframe : (Frame.mk m g localTypes.toArray locals.toArray removed).owner = m := rfl
  exact hP.bind (hP.liftBlocks hframe _ _ _) fun _ => hP.bind (hP.ofExcept _) fun _ =>
    hP.bind (hP.ofExcept _) fun _ => hP.bind (hP.paramVars hframe _ _) fun _ =>
    hP.bind (hP.mapM hP.typing _) fun _ =>
    hP.look (fun s t hst => by rw [scope_of_outlook hst]) fun _ => hP.pure _

end Pervades

end MoveBytecode.Lift
