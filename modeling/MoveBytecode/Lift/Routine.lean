import MoveBytecode.Flow.Graph
import MoveBytecode.Lift.Lowering
import MoveBytecode.Listing.Basic

/-!
# Lifting routines

A routine is lifted block by block in the order of the listing. A block with an opcode that is not
to be lowered is left out and recorded; every other fault ends the lift. The result keeps the
statements with the instruction that each comes from.
-/

namespace MoveBytecode

namespace Lift

/-- The statements of the instruction at an address. -/
structure Step where
  address : Int
  statements : List Stmt

/-- A routine in the intermediate form. -/
structure Lifted where
  routine : Routine
  function : Entry FunctionDef
  graph : Graph
  /-- The statements of each instruction that was lowered, in order. -/
  steps : Array Step
  params : List Var
  returns : List NativeType
  /-- The blocks that were left out, by label, with the reason. -/
  failed : List (String × String)
  /-- The variables of the routine and their types. -/
  scope : Scope

namespace Lifted

/-- The statements of a routine. -/
def statements (l : Lifted) : List Stmt :=
  l.steps.toList.flatMap (·.statements)

/-- The statements that each step has, as a range of the positions from `start` on. -/
def rangesFrom (start : Nat) (done : Array (Int × Nat × Nat)) :
    List Step → Array (Int × Nat × Nat)
  | [] => done
  | step :: rest =>
    let stop := start + step.statements.length
    rangesFrom stop (done.push (step.address, start, stop)) rest

/-- For each address that was lowered, the positions `[start, stop)` of its statements. -/
def ranges (l : Lifted) : List (Int × Nat × Nat) :=
  (rangesFrom 0 #[] l.steps.toList).toList

/-- The name of the type of a variable. -/
def typeName (l : Lifted) (v : Var) : String :=
  ((l.scope.typeOf v).map NativeType.name).getD "None"

/-- A routine as text: its parameters, its statements and the blocks that were left out. -/
def text (l : Lifted) : String :=
  let params := l.params.map fun v => v.text ++ ": " ++ l.typeName v
  String.intercalate "\n"
    ((l.routine.name ++ "(" ++ String.intercalate ", " params ++ "):") ::
      l.statements.map (fun s => "  " ++ s.text) ++
      l.failed.map (fun (label, reason) => "  # " ++ label ++ ": " ++ reason))

end Lifted

/-! ## Blocks -/

/-- The statements of an instruction whose opcode is to be lowered. -/
def lowerSupported (f : Frame) (p : Placed) : LiftM (List Stmt) :=
  if f.removed.contains p.instruction.opcode then
    throw (.unsupportedConversion p.instruction.opcode.operation p.address)
  else lower f p.instruction p.address

/-- Records that an instruction could not be lowered, and goes on with the fault. -/
def reportFault (f : Frame) (p : Placed) (fault : Fault) : LiftM (List Stmt) := do
  let text ← ofExcept (f.owner.showInstruction p.instruction p.address)
  record (.notLowered p.address p.instruction.raw text)
  throw fault

/-- The statements of a placed instruction. -/
def lowerAt (f : Frame) (p : Placed) : LiftM Step := do
  let statements ← tryCatch (lowerSupported f p) (reportFault f p)
  statements.forM fun s => record (.lowered p.address s)
  return ⟨p.address, statements⟩

/-- The statements of placed instructions, behind those in `done`. -/
def lowerAll (f : Frame) : List Placed → Array Step → LiftM (Array Step)
  | [], done => return done
  | p :: rest, done => do
    let step ← lowerAt f p
    lowerAll f rest (done.push step)

/-- The statements of a block, behind those in `done`. -/
def liftBlock (f : Frame) (b : Block) (done : Array Step) : LiftM (Array Step) := do
  match b.placed with
  | [] => return done
  | first :: rest =>
    enterBlock first.instruction.depthBefore
    lowerAll f (first :: rest) done

/-- The steps of the blocks of a graph, and the blocks that were left out. -/
def liftBlocks (f : Frame) :
    List Block → Array Step → Array (String × String) → LiftM (Array Step × Array (String × String))
  | [], done, failed => return (done, failed)
  | b :: rest, done, failed => do
    let outcome ← tryCatch (do return Sum.inl (← liftBlock f b done)) fun fault =>
      match fault with
      | .unsupportedConversion .. => return Sum.inr fault.message
      | _ => throw fault
    match outcome with
    | .inl done => liftBlocks f rest done failed
    | .inr reason => liftBlocks f rest done (failed.push (b.label, reason))

/-! ## Routines -/

/-- Declares the locals of a function, from number `index` on. -/
def declareLocals (m : Module) : (index : Nat) → List Token → LiftM (List Var)
  | _, [] => return []
  | index, token :: rest => do
    let type ← onHost (onTypes (Typing.typeOf m token))
    let v ← declare (.localVar index) token.bits (some type)
    return v :: (← declareLocals m (index + 1) rest)

/-- The variable of a parameter: the local of its number, which is declared if there is none. -/
def paramVar (f : Frame) (index : Nat) (token : Token) : LiftM Var := do
  match (← get).scope.find? (.localVar index) with
  | some v => return v
  | none =>
    let type ← typeOf f token
    declare (.localVar index) token.bits (some type)

/-- The variables of the parameters, from number `index` on. -/
def paramVars (f : Frame) : (index : Nat) → List Token → LiftM (List Var)
  | _, [] => return []
  | index, token :: rest => do
    let v ← paramVar f index token
    return v :: (← paramVars f (index + 1) rest)

/-- Starts on a function: the registers and the locals are declared, and the stack is empty. -/
def openFunction (m : Module) (removed : List Opcode) (f : Entry FunctionDef) : LiftM Frame := do
  modify fun s => { s with
    scope := (Scope.empty.setRegister programCounter).setRegister stackPointer
    stack := .empty
    counter := 0 }
  let localTypes ← ofExcept (m.localsOf f.record)
  let locals ← declareLocals m 0 localTypes
  return ⟨m, f, localTypes.toArray, locals.toArray, removed⟩

/-- Lifts a function for a routine. -/
def liftFunction (m : Module) (removed : List Opcode) (f : Entry FunctionDef) :
    LiftM (Routine → Lifted) := do
  let frame ← openFunction m removed f
  let graph := Graph.ofFunction f
  let (steps, failed) ← liftBlocks frame graph.blocks #[] #[]
  let h ← ofExcept (m.handleOf f.record)
  let signature ← ofExcept (m.signatureOf h.record)
  let params ← paramVars frame 0 signature.params
  let returns ← signature.returns.mapM (typeOf frame)
  let scope := (← get).scope
  return fun routine =>
    { routine, function := f, graph, steps, params, returns, failed := failed.toList, scope }

/-- Runs a computation on a fresh state. -/
def onRoutine {α : Type} (x : LiftM α) : HostM α := do
  let w ← get
  let (result, state) :=
    x.run.run { toWorkspace := w, scope := .empty, stack := .empty, counter := 0 }
  set state.toWorkspace
  ofExcept result

end Lift

open Lift

/-- What lifts the routines of a module: the opcodes in `removed` are not lowered. -/
structure Converter where
  owner : Module
  removed : List Opcode := []

/-- A routine to be lifted: one of the host, or one that no host knows. -/
inductive RoutineRef where
  | hosted (number : Nat)
  | detached (routine : Routine)

namespace RoutineRef

/-- The routine that is meant. -/
def resolve? (h : Host) : RoutineRef → Option Routine
  | .hosted number => h.routine? number
  | .detached routine => some routine

end RoutineRef

namespace Converter

/-- Lifts a routine: the function is the first of its name. The prototypes of all routines are known
before the first instruction is lowered. -/
def lift (c : Converter) (target : RoutineRef) : HostM Lifted := do
  let name := ((target.resolve? (← get).host).map (·.name)).getD ""
  match ← Lift.ofExcept (c.owner.functionNamed? name) with
  | none => throw (.noDefinition name)
  | some f =>
    assignPrototypes c.owner
    let lifted ← onRoutine (liftFunction c.owner c.removed f)
    match target.resolve? (← get).host with
    | some routine => return lifted routine
    | none => throw (.noDefinition name)

/-- Lifts routines of the host one after the other. -/
def liftAll (c : Converter) (numbers : List Nat) : HostM (List Lifted) :=
  numbers.mapM fun number => c.lift (.hosted number)

end Converter

/-- Enters the Move types into the host, as every conversion does first. -/
def Lift.prepare : HostM Unit :=
  modify fun w => { w with host := w.host.withMoveTypes }

/-- Lifts the internal routines of a host in the order of their addresses. -/
def Module.liftInternal (m : Module) : HostM (List Lifted) := do
  Lift.prepare
  let numbers := (← get).host.internalNumbers
  (Converter.mk m []).liftAll numbers

end MoveBytecode
