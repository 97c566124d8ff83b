import MoveBytecode.Event
import MoveBytecode.Host.Basic
import MoveBytecode.Ir.Build
import MoveBytecode.Ir.Scope
import MoveBytecode.Lift.Stack
import MoveBytecode.Typing

/-!
# The state of a lift

A lift works on a host, which keeps the prototypes and types that it brings, and on the variables
and the operand stack of one routine. Both survive a fault as far as they had come.
-/

namespace MoveBytecode.Lift

/-- What a lift leaves behind: a host, and the events in the order in which they happened. -/
structure Workspace where
  host : Host
  events : Array Event

/-- The workspace of a host. -/
def Workspace.ofHost (host : Host) : Workspace := ⟨host, #[]⟩

/-- A computation on a workspace. -/
abbrev HostM := ExceptT Fault (StateM Workspace)

/-- What changes while a routine is lifted. -/
structure State extends Workspace where
  scope : Scope
  stack : OperandStack
  /-- How many variables were made for stack positions. -/
  counter : Nat

/-- A computation on the state of a routine. -/
abbrev LiftM := ExceptT Fault (StateM State)

/-- What does not change while a routine is lifted: the module, the function, the types and the
variables of its locals, and the opcodes that are not to be lowered. -/
structure Frame where
  owner : Module
  function : Entry FunctionDef
  localTypes : Array Token
  locals : Array Var
  removed : List Opcode

/-! ## Working on a host -/

/-- Records an event. -/
def note (e : Event) : HostM Unit :=
  modify fun w => { w with events := w.events.push e }

/-- The result of a computation that has no effect. -/
def ofExcept {m : Type → Type} [Monad m] [MonadExcept Fault m] {α : Type}
    (result : Except Fault α) : m α :=
  match result with
  | .ok value => pure value
  | .error fault => throw fault

/-- Runs a computation on the types of a host. -/
def onTypes {α : Type} (x : TypeM α) : HostM α := do
  let w ← get
  let (result, types) := x.run.run w.host.types
  set { w with host := { w.host with types } }
  ofExcept result

/-- The prototype of a signature. -/
def prototypeOf (m : Module) (signature : FunctionSignature) : HostM Prototype := do
  let prototype ← onTypes (Typing.prototypeOf m signature)
  if 2 ≤ signature.returns.length then note (.severalReturns signature)
  return prototype

/-- Gives the routine with this number a prototype, unless it has one. -/
def ensurePrototype (m : Module) (number : Nat) (signature : FunctionSignature) : HostM Unit := do
  match (← get).host.routine? number with
  | some { prototype := none, .. } =>
    let prototype ← prototypeOf m signature
    modify fun w =>
      { w with host := w.host.updateRoutine number fun r => { r with prototype := some prototype } }
  | _ => return

/-- Gives a routine without a prototype the one of the first handle of its name. -/
def assignPrototype (m : Module) (number : Nat) : HostM Unit := do
  match (← get).host.routine? number with
  | some { prototype := none, name, .. } =>
    match ← ofExcept (m.handleNamed? name) with
    | none => return
    | some h => ensurePrototype m number (← ofExcept (m.signatureOf h.record))
  | _ => return

/-- Gives every routine without a prototype the one of the first handle of its name, in the order of
the addresses. -/
def assignPrototypes (m : Module) : HostM Unit := do
  (← get).host.routineNumbers.forM (assignPrototype m)

/-! ## Working on a routine -/

/-- Runs a computation on the workspace of a routine. -/
def onHost {α : Type} (x : HostM α) : LiftM α := do
  let s ← get
  let (result, workspace) := x.run.run s.toWorkspace
  set { s with toWorkspace := workspace }
  ofExcept result

/-- The native type of a token. -/
def typeOf (f : Frame) (token : Token) : LiftM NativeType :=
  onHost (onTypes (Typing.typeOf f.owner token))

/-- Records an event. -/
def record (e : Event) : LiftM Unit :=
  modify fun s => { s with events := s.events.push e }

/-- Enters a new variable, whose name may not be in use. -/
def declare (name : VarName) (bits : Int) (type : Option NativeType) : LiftM Var := do
  if (← get).scope.contains name then throw (.variableExists name.text)
  let v : Var := { name, bits }
  modify fun s => { s with scope := s.scope.add v type }
  return v

/-- A new variable for a stack position. -/
def newStackVar (bits : Int) (type : Option NativeType) : LiftM Var := do
  let number := (← get).counter
  modify fun s => { s with counter := number + 1 }
  declare (.stackVar number) bits type

/-- Changes the operand stack. -/
def modifyStack (change : OperandStack → OperandStack) : LiftM Unit :=
  modify fun s => { s with stack := change s.stack }

/-- Puts a value of a type onto the stack and returns its variable. -/
def push (f : Frame) (token : Token) : LiftM Var := do
  match (← get).stack.reusable? token with
  | some v =>
    modifyStack .keep
    return v
  | none =>
    let type ← typeOf f token
    let v ← newStackVar type.bits (some type)
    modifyStack (·.store ⟨v, some token⟩)
    return v

/-- Puts a value onto the stack whose native type is known and whose token is not. -/
def pushNative (bits : Int) (type : Option NativeType) : LiftM Var := do
  let v ← newStackVar bits type
  modifyStack (·.store ⟨v, none⟩)
  return v

/-- Takes the value on top of the stack. -/
def pop : LiftM Var := do
  let s ← get
  let (v, stack) ← ofExcept s.stack.pop
  set { s with stack }
  return v

/-- Takes `count` values from the stack and puts them in front of `above`, in the order in which
they were put there. -/
def popInto : (count : Nat) → (above : List Var) → LiftM (List Var)
  | 0, above => return above
  | count + 1, above => do popInto count ((← pop) :: above)

/-- Takes `count` values from the stack, in the order in which they were put there. -/
def popMany (count : Nat) : LiftM (List Var) := popInto count []

/-- Adds `count` slots of unknown type. -/
def growBy : (count : Nat) → LiftM Unit
  | 0 => return
  | count + 1 => do
    let v ← newStackVar 64 none
    modifyStack (·.grow ⟨v, none⟩)
    growBy count

/-- Sets the stack to the depth at which a block is entered; a block that is reached only from
further on may expect slots that do not exist yet. -/
def enterBlock (depth : Nat) : LiftM Unit := do
  growBy (depth - (← get).stack.slots.size)
  modifyStack (·.setHeight depth)

end MoveBytecode.Lift
