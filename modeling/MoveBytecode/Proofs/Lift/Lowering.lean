import MoveBytecode.Lift.Lowering
import MoveBytecode.Proofs.Host.Directory
import MoveBytecode.Proofs.Lift.Orderly

/-!
# What all lowerings have in common

The lowering of every opcode is put together from a few parts: pushes and pops, the prototype that a call
gives, looks at a part of the state (`State.outlook`), and results and faults that have no effect. It has
two phases, as it takes values first and puts others then, and the walk over the lowerings is for
properties of these (`Phases.lower`). A property of all parts that their composition keeps (`Composes`) is
therefore one of all lowerings (`Composes.lower`). That they are orderly is an instance (`orderly_lower`):
whether or not a lowering ends with a fault, the symbolic stack stays well-formed and evolves.
-/

namespace MoveBytecode.Lift

/-! ## Results without an effect -/

/-- The operand of an instruction is there or missing plainly. -/
theorem plain_operandValue (i : Instruction) : Plain i.operandValue := by
  intro fault h
  unfold Instruction.operandValue at h
  split at h
  · simp at h
  · obtain rfl := Except.error.inj h
    exact nofun

/-- Making an operation is plain. -/
theorem plain_operation (op : Operator) (operands : List Expr) : Plain (Ir.operation op operands) := by
  intro fault h
  unfold Ir.operation at h
  split at h
  · simp at h
  · split at h
    · simp at h
    · obtain rfl := Except.error.inj h
      exact nofun

/-- Extending a value is plain. -/
theorem plain_zeroExtend (e : Expr) (bits : Int) : Plain (Ir.zeroExtend e bits) := by
  intro fault h
  unfold Ir.zeroExtend at h
  split at h
  · obtain rfl := Except.error.inj h
    exact nofun
  · simp at h

/-- Making an assignment is plain. -/
theorem plain_assign (target : Var) (source : Expr) : Plain (Ir.assign target source) := by
  refine Plain.bind (fun fault h => ?_) fun _ => plain_pure _
  unfold Ir.checkFit at h
  split at h
  · obtain rfl := Except.error.inj h
    exact nofun
  · simp at h

/-- Looking up the type of a field is plain. -/
theorem plain_fieldType (m : Module) (d : FieldDef) : Plain (m.fieldType d) :=
  (plain_get _ _).bind fun _ => plain_pure _

/-! ## What a lift looks at -/

/-- What a lift looks at in a state: the variables and the operand stack, and of the host the symbols and
the roster. -/
structure Outlook where
  scope : Scope
  stack : OperandStack
  counter : Nat
  symbols : Array Symbol
  roster : List (Int × Nat) × Array Routine

/-- What a lift looks at in this state. -/
def State.outlook (s : State) : Outlook :=
  { scope := s.scope, stack := s.stack, counter := s.counter, symbols := s.host.symbols,
    roster := s.host.roster }

section

variable {s t : State} (h : s.outlook = t.outlook)

include h

/-- States that look alike have the same scope. -/
theorem scope_of_outlook : s.scope = t.scope := congrArg Outlook.scope h

/-- States that look alike have the same stack. -/
theorem stack_of_outlook : s.stack = t.stack := congrArg Outlook.stack h

/-- States that look alike have made as many variables. -/
theorem counter_of_outlook : s.counter = t.counter := congrArg Outlook.counter h

/-- States that look alike have the same routines, prototypes and classes apart. -/
theorem roster_of_outlook : s.host.roster = t.host.roster := congrArg Outlook.roster h

/-- States that look alike have the same symbols at all addresses. -/
theorem symbolAt?_of_outlook (address : Int) : s.host.symbolAt? address = t.host.symbolAt? address := by
  have hsymbols : s.host.symbols = t.host.symbols := congrArg Outlook.symbols h
  rw [Host.symbolAt?, Host.symbolAt?, hsymbols]

end

/-! ## The walk over the lowerings -/

/-- A property of computations that the parts of lowerings in the module `m` have and that their
composition keeps. The faults among the parts are those after which no lift goes on. -/
structure Composes (m : Module) (P : ∀ α : Type, LiftM α → Prop) : Prop where
  pure : ∀ {α : Type} (a : α), P α (pure a)
  bind : ∀ {α β : Type} {x : LiftM α} {f : α → LiftM β}, P α x → (∀ a, P β (f a)) → P β (x >>= f)
  throw : ∀ {α : Type} {e : Fault}, ¬ Recorded e → P α (throw e)
  /-- What is done with a state may only depend on what a lift looks at. -/
  look : ∀ {α : Type} {f : State → LiftM α}, (∀ s t, s.outlook = t.outlook → f s = f t) →
    (∀ s, P α (f s)) → P α (get >>= f)
  push : ∀ {f : Frame} (token : Token), f.owner = m → P Var (push f token)
  pushNative : ∀ (bits : Int) (type : Option NativeType), P Var (pushNative bits type)
  pop : P Var pop
  prototype : ∀ (number : Nat) {h : FunctionHandle} {signature : FunctionSignature},
    m.signatureOf h = .ok signature → P Unit (onHost (ensurePrototype m number signature))

/-- A property of computations that looks at a state have, results and faults without an effect among
them, and that their composition keeps. -/
structure Looks (P : ∀ α : Type, LiftM α → Prop) : Prop where
  pure : ∀ {α : Type} (a : α), P α (pure a)
  bind : ∀ {α β : Type} {x : LiftM α} {f : α → LiftM β}, P α x → (∀ a, P β (f a)) → P β (x >>= f)
  throw : ∀ {α : Type} {e : Fault}, ¬ Recorded e → P α (throw e)
  /-- What is done with a state may only depend on what a lift looks at. -/
  look : ∀ {α : Type} {f : State → LiftM α}, (∀ s t, s.outlook = t.outlook → f s = f t) →
    (∀ s, P α (f s)) → P α (get >>= f)

/-- Properties of the two phases of a lowering in the module `m`: `T` is one of what takes values and
prepares a call, `U` is one of what puts values, and `W` is one of what does first the one and then the
other. -/
structure Phases (m : Module) (T U W : ∀ α : Type, LiftM α → Prop) : Prop where
  takes : Looks T
  puts : Looks U
  bind : ∀ {α β : Type} {x : LiftM α} {f : α → LiftM β}, T α x → (∀ a, W β (f a)) → W β (x >>= f)
  last : ∀ {α : Type} {x : LiftM α}, U α x → W α x
  pop : T Var pop
  prototype : ∀ (number : Nat) {h : FunctionHandle} {signature : FunctionSignature},
    m.signatureOf h = .ok signature → T Unit (onHost (ensurePrototype m number signature))
  push : ∀ {f : Frame} (token : Token), f.owner = m → U Var (push f token)
  pushNative : ∀ (bits : Int) (type : Option NativeType), U Var (pushNative bits type)

/-! ### Looks -/

namespace Looks

variable {P : ∀ α : Type, LiftM α → Prop} {α β : Type}

/-- Taking over a plain result has the property. -/
theorem ofExcept (hP : Looks P) {r : Except Fault α} (hr : Plain r) : P α (Lift.ofExcept r) := by
  cases r with
  | ok a => exact hP.pure a
  | error e => exact hP.throw (hr e rfl)

/-- Mapping a list has the property if mapping each element has it. -/
theorem mapM (hP : Looks P) {f : α → LiftM β} (hf : ∀ a, P β (f a)) (l : List α) :
    P (List β) (l.mapM f) := by
  induction l with
  | nil => exact hP.pure []
  | cons a rest ih =>
    rw [List.mapM_cons]
    exact hP.bind (hf a) fun _ => hP.bind ih fun _ => hP.pure _

/-- Reading the operand of an instruction is a look. -/
theorem operand (hP : Looks P) (i : Instruction) : P Nat (operand i) :=
  hP.ofExcept (plain_operandValue i)

/-- Looking up the local of an instruction is a look. -/
theorem localVar (hP : Looks P) (f : Frame) (i : Instruction) : P Var (localVar f i) := by
  refine hP.bind (hP.operand i) fun _ => ?_
  split
  · exact hP.pure _
  · exact hP.throw nofun

/-- Looking up the type of a local is a look. -/
theorem localType (hP : Looks P) (f : Frame) (i : Instruction) : P Token (localType f i) := by
  refine hP.bind (hP.operand i) fun _ => ?_
  split
  · exact hP.pure _
  · exact hP.throw nofun

/-- Looking up the struct of an instruction is a look. -/
theorem structOf (hP : Looks P) (f : Frame) (i : Instruction) : P StructDef (structOf f i) :=
  hP.bind (hP.operand i) fun _ => hP.bind (hP.ofExcept (plain_get _ _)) fun _ => hP.pure _

/-- Looking up the symbol at an address is a look. -/
theorem dataSymbol (hP : Looks P) (address : Int) : P SymbolRef (dataSymbol address) := by
  refine hP.look (fun s t hst => by rw [symbolAt?_of_outlook hst]) fun _ => ?_
  split
  · exact hP.pure _
  · exact hP.throw nofun

/-- Looking up the callee of a handle is a look. -/
theorem callee (hP : Looks P) (f : Frame) (h : Entry FunctionHandle) (address : Int) :
    P Nat (callee f h address) := by
  refine hP.bind (hP.ofExcept (plain_functionName _ _)) fun name => hP.look (fun s t hst => ?_) fun _ => ?_
  · have hroster := roster_of_outlook hst
    simp only [Host.routineAt?_eq hroster, Host.routineNamed?_eq hroster]
  dsimp only
  split
  · exact hP.pure _
  · split
    · exact hP.pure _
    · exact hP.throw nofun

end Looks

/-! ### Phases -/

namespace Phases

variable {m : Module} {f : Frame} {T U W : ∀ α : Type, LiftM α → Prop} {α β : Type}

/-- Returning a value is the last that a lowering does. -/
theorem pure (hP : Phases m T U W) (a : α) : W α (Pure.pure a) := hP.last (hP.puts.pure a)

/-- What follows a result is given its value. -/
theorem ofExcept_bind (hP : Phases m T U W) {r : Except Fault α} {g : α → LiftM β} (hr : Plain r)
    (hg : ∀ a, r = .ok a → W β (g a)) : W β (Lift.ofExcept r >>= g) := by
  cases r with
  | ok a =>
    change W β (Pure.pure a >>= g)
    rw [pure_bind]
    exact hg a rfl
  | error e => exact hP.last (hP.puts.throw (hr e rfl))

/-- Popping several values belongs to the first phase. -/
theorem popInto (hP : Phases m T U W) (count : Nat) (above : List Var) :
    T (List Var) (popInto count above) := by
  induction count generalizing above with
  | zero => exact hP.takes.pure above
  | succ count ih => exact hP.takes.bind hP.pop fun _ => ih _

/-- Popping a number of values belongs to the first phase. -/
theorem popMany (hP : Phases m T U W) (count : Nat) : T (List Var) (popMany count) :=
  hP.popInto count []

/-- Pushing a token and assigning to its variable belongs to the second phase. -/
theorem pushAssign (hP : Phases m T U W) (hf : f.owner = m) (token : Token) (source : Expr) :
    U (List Stmt) (pushAssign f token source) :=
  hP.puts.bind (hP.push token hf) fun _ => hP.puts.bind (hP.puts.ofExcept (plain_assign _ _)) fun _ =>
    hP.puts.pure _

/-- A value is assigned that was put last. -/
theorem assigned (hP : Phases m T U W) (hf : f.owner = m) (token : Token) (source : Expr) :
    W (List Stmt) (Lift.pushAssign f token source) := hP.last (hP.pushAssign hf token source)

/-- A value is put last, for statements that name it. -/
theorem named (hP : Phases m T U W) (hf : f.owner = m) (token : Token) (make : Var → List Stmt) :
    W (List Stmt) (Lift.push f token >>= fun v => Pure.pure (make v)) :=
  hP.last (hP.puts.bind (hP.push token hf) fun _ => hP.puts.pure _)

/-- A constant puts one value. -/
theorem lowerConstant (hP : Phases m T U W) (hf : f.owner = m) (token : Token) (mapping : Extent) :
    W (List Stmt) (lowerConstant f token mapping) := by
  unfold Lift.lowerConstant
  split
  · exact hP.assigned hf token _
  · exact hP.bind (hP.takes.dataSymbol _) fun _ => hP.assigned hf token _

/-- A conditional branch takes one value. -/
theorem lowerBranch (hP : Phases m T U W) (i : Instruction) (address : Int) :
    W (List Stmt) (lowerBranch i address) := by
  refine hP.bind hP.pop fun _ => ?_
  split
  · exact hP.bind (hP.takes.ofExcept (plain_operation _ _)) fun _ => hP.pure _
  · exact hP.bind (hP.takes.pure _) fun _ => hP.pure _

/-- A call takes the values of its parameters and then puts those that it returns. -/
theorem lowerCall (hP : Phases m T U W) (hf : f.owner = m) (i : Instruction) (address : Int) :
    W (List Stmt) (lowerCall f i address) := by
  subst hf
  refine hP.bind (hP.takes.operand i) fun _ => hP.bind (hP.takes.ofExcept (plain_get _ _)) fun h =>
    hP.bind (hP.takes.callee f h address) fun number =>
    hP.ofExcept_bind (plain_signatureOf _ _) fun signature hsignature =>
    hP.bind (hP.prototype number hsignature) fun _ => hP.bind (hP.popMany _) fun params => hP.last <|
    hP.puts.bind (hP.puts.mapM (fun token => hP.push token rfl) _) fun returns =>
    hP.puts.look (fun s t hst => ?_) fun _ => ?_
  · -- The call names the routine, and does not say more of it than the roster.
    have hbare := Host.map_bare_routine? (roster_of_outlook hst) number
    cases hs : s.host.routine? number with
    | none =>
      rw [hs, Option.map_none, eq_comm, Option.map_eq_none_iff] at hbare
      rw [hbare]
    | some r =>
      obtain ⟨r', hr', hrr'⟩ := Host.exists_routine? (roster_of_outlook hst) hs
      rw [hr']
      simp only [Routine.name_eq_of_bare hrr', Routine.address_eq_of_bare hrr']
  · split
    · exact hP.puts.pure _
    · exact hP.puts.throw nofun

/-- A read takes a reference and then puts a value. -/
theorem lowerRead (hP : Phases m T U W) (hf : f.owner = m) (i : Instruction) (address : Int) :
    W (List Stmt) (lowerRead f i address) := by
  refine hP.bind hP.pop fun _ => hP.last <|
    hP.puts.look (fun s t hst => by rw [scope_of_outlook hst]) fun _ => ?_
  split
  · exact hP.puts.bind (hP.pushNative _ _) fun _ => hP.puts.pure _
  · exact hP.puts.bind (hP.push _ hf) fun _ => hP.puts.pure _

/-- A freeze takes a reference and then puts one. -/
theorem lowerFreeze (hP : Phases m T U W) (i : Instruction) (address : Int) :
    W (List Stmt) (lowerFreeze i address) :=
  hP.bind hP.pop fun _ => hP.last <|
    hP.puts.look (fun s t hst => by rw [scope_of_outlook hst]) fun _ =>
    hP.puts.bind (hP.pushNative _ _) fun _ => hP.puts.pure _

/-- A negation takes a value and then puts one. -/
theorem lowerNot (hP : Phases m T U W) (hf : f.owner = m) : W (List Stmt) (lowerNot f) :=
  hP.bind hP.pop fun _ => hP.bind (hP.takes.ofExcept (plain_operation _ _)) fun _ =>
    hP.bind (hP.takes.ofExcept (plain_zeroExtend _ _)) fun _ => hP.assigned hf _ _

/-- An operation of two values takes them and then puts the result. -/
theorem lowerBinary (hP : Phases m T U W) (hf : f.owner = m) (op : Operator) :
    W (List Stmt) (lowerBinary f op) :=
  hP.bind hP.pop fun _ => hP.bind hP.pop fun _ =>
    hP.bind (hP.takes.ofExcept (plain_operation _ _)) fun _ =>
    hP.bind (hP.takes.ofExcept (plain_zeroExtend _ _)) fun _ => hP.assigned hf _ _

/-- An instruction of the ledger takes its operands and then puts its results. -/
theorem lowerLedger (hP : Phases m T U W) (hf : f.owner = m) (i : Instruction) (address : Int) :
    W (List Stmt) (lowerLedger f i address) :=
  hP.bind (hP.popMany _) fun _ => hP.last <|
    hP.puts.bind (hP.puts.mapM (fun token => hP.push token hf) _) fun _ => hP.puts.pure _

/-- Taking a struct apart takes it and then puts its fields. -/
theorem lowerUnpack (hP : Phases m T U W) (hf : f.owner = m) (i : Instruction) (address : Int) :
    W (List Stmt) (lowerUnpack f i address) :=
  hP.bind (hP.takes.structOf f i) fun _ => hP.bind hP.pop fun _ =>
    hP.bind (hP.takes.ofExcept (plain_mapM (fun _ => plain_get _ _) _)) fun _ => hP.last <|
    hP.puts.bind (hP.puts.mapM (fun _ =>
      hP.puts.bind (hP.puts.ofExcept (plain_fieldType _ _)) fun _ => hP.push _ hf) _) fun _ =>
    hP.puts.pure _

/-- The lowering of every opcode takes values first and puts others then. -/
theorem lower (hP : Phases m T U W) (hf : f.owner = m) (i : Instruction) (address : Int) :
    W (List Stmt) (lower f i address) := by
  -- Each lowering is a chain of reads, pops and pushes, and the proof follows its binds.
  have ledger := hP.lowerLedger hf i address
  unfold Lift.lower
  cases i.opcode with
  | pop => exact hP.bind hP.pop fun _ => hP.pure _
  | ret =>
    exact hP.bind (hP.takes.ofExcept (plain_get _ _)) fun _ =>
      hP.bind (hP.takes.ofExcept (plain_signatureOf _ _)) fun _ => hP.bind (hP.popMany _) fun _ =>
      hP.pure _
  | brTrue | brFalse => exact hP.lowerBranch i address
  | branch => exact hP.pure _
  | ldConst => exact hP.bind (hP.takes.operand i) fun _ => hP.assigned hf _ _
  | ldTrue | ldFalse => exact hP.assigned hf _ _
  | ldAddr =>
    exact hP.bind (hP.takes.operand i) fun _ => hP.bind (hP.takes.ofExcept (plain_get _ _)) fun _ =>
      hP.assigned hf _ _
  | ldStr | ldBytearray =>
    exact hP.bind (hP.takes.operand i) fun _ => hP.bind (hP.takes.ofExcept (plain_get _ _)) fun _ =>
      hP.lowerConstant hf _ _
  | copyLoc =>
    exact hP.bind (hP.takes.localType f i) fun _ => hP.bind (hP.takes.localVar f i) fun _ =>
      hP.assigned hf _ _
  | moveLoc =>
    exact hP.bind (hP.takes.localVar f i) fun _ => hP.bind (hP.takes.localType f i) fun _ => hP.last <|
      hP.puts.bind (hP.pushAssign hf _ _) fun _ =>
      hP.puts.bind (hP.puts.ofExcept (plain_assign _ _)) fun _ => hP.puts.pure _
  | stLoc =>
    exact hP.bind (hP.takes.localVar f i) fun _ => hP.bind hP.pop fun _ =>
      hP.bind (hP.takes.ofExcept (plain_assign _ _)) fun _ => hP.pure _
  | ldRefLoc =>
    exact hP.bind (hP.takes.localVar f i) fun _ => hP.bind (hP.takes.localType f i) fun _ =>
      hP.named hf _ _
  | ldRefField =>
    exact hP.bind (hP.takes.operand i) fun _ => hP.bind (hP.takes.ofExcept (plain_get _ _)) fun _ =>
      hP.bind hP.pop fun _ => hP.bind (hP.takes.ofExcept (plain_get _ _)) fun _ =>
      hP.bind (hP.takes.dataSymbol _) fun _ =>
      hP.bind (hP.takes.ofExcept (plain_fieldType _ _)) fun _ => hP.named hf _ _
  | call => exact hP.lowerCall hf i address
  | pack =>
    exact hP.bind (hP.takes.structOf f i) fun _ => hP.bind (hP.popMany _) fun _ => hP.named hf _ _
  | unpack => exact hP.lowerUnpack hf i address
  | readRef => exact hP.lowerRead hf i address
  | writeRef => exact hP.bind hP.pop fun _ => hP.bind hP.pop fun _ => hP.pure _
  | freezeRef => exact hP.lowerFreeze i address
  | not => exact hP.lowerNot hf
  | borrowRef | moveFrom =>
    exact hP.bind (hP.takes.structOf f i) fun _ => hP.bind hP.pop fun _ => hP.named hf _ _
  | moveTo => exact hP.bind hP.pop fun _ => hP.pure _
  | add | sub | mul | mod | div | bitOr | bitAnd | xor | or | and | eq | neq | lt | gt | le | ge =>
    exact hP.lowerBinary hf _
  | assert | getTxnGasUnitPrice | getTxnMaxGasUnits | getGasRemaining | getTxnSender | «exists»
    | releaseRef | createAccount | emitEvent | getTxnSequenceNumber | getTxnPublicKey =>
    exact ledger

end Phases

namespace Composes

variable {m : Module} {P : ∀ α : Type, LiftM α → Prop}

/-- A property that composes is one of both phases. -/
theorem phases (hP : Composes m P) : Phases m P P P where
  takes := ⟨hP.pure, hP.bind, hP.throw, hP.look⟩
  puts := ⟨hP.pure, hP.bind, hP.throw, hP.look⟩
  bind := hP.bind
  last h := h
  pop := hP.pop
  prototype := hP.prototype
  push := hP.push
  pushNative := hP.pushNative

/-- A property that composes is one of the lowering of every opcode. -/
theorem lower (hP : Composes m P) {f : Frame} (hf : f.owner = m) (i : Instruction) (address : Int) :
    P (List Stmt) (lower f i address) := hP.phases.lower hf i address

end Composes

/-! ## Lowerings are orderly -/

/-- Providing a callee with a prototype ends with no recorded fault. -/
theorem spares_ensurePrototype (m : Module) (number : Nat) (signature : FunctionSignature) :
    Spares (fun fault => ¬ Recorded fault) (ensurePrototype m number signature) := by
  have htypes : ∀ tokens, Spares (fun fault => ¬ Recorded fault) (Typing.typesOf m tokens) :=
    fun tokens => spares_mapM (spares_typing m) tokens
  refine spares_bind spares_get fun _ => ?_
  split
  · refine spares_bind (spares_bind (spares_onTypes ?_) fun _ => ?_) fun _ => spares_modify _
    · exact spares_bind (htypes _) fun _ => spares_bind (htypes _) fun _ => spares_pure _
    · split
      · exact spares_bind (spares_modify _) fun _ => spares_pure _
      · exact spares_pure _
  · exact spares_pure _

/-- Orderliness is a property that composes. -/
theorem composes_orderly (m : Module) : Composes m fun _ x => Orderly x where
  pure := orderly_pure
  bind := Orderly.bind
  throw := orderly_throw
  look _ h := orderly_get.bind h
  push {f} token _ := orderly_push f token
  pushNative := orderly_pushNative
  pop := orderly_pop
  prototype number _ signature _ := orderly_onHost (spares_ensurePrototype m number signature)

/-- The lowering of every opcode is orderly. -/
theorem orderly_lower (f : Frame) (i : Instruction) (address : Int) :
    Orderly (lower f i address) := (composes_orderly f.owner).lower rfl i address

end MoveBytecode.Lift
