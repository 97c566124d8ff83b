import MoveBytecode.Analysis

/-!
# Sessions

A session works on one analysis step by step: it lifts routines with a converter that can be told to
leave out opcodes, patches opcodes in the loaded module, refines, rebuilds and renders. Every step
sees what the steps before it left, also of a step that failed.
-/

namespace MoveBytecode

open Lift

/-- The state of a session: the module, the host, the opcodes that are left out, and the routines
lifted so far. -/
structure Session where
  owner : Module
  workspace : Workspace
  removed : List Opcode
  lifted : Array Lifted

/-- A step of a session. -/
abbrev SessionM := ExceptT Fault (StateM Session)

/-- How often each statement and each untranslated operation occurs in the routines of a session,
and each statement in all of them. -/
structure SessionStats where
  kinds : List (List (String × Nat))
  untranslated : List (List (String × Nat))
  total : List (String × Nat)

namespace Session

/-- Begins a session on an analysis; with `fresh` its routines are lifted against a host that knows
nothing of the module. -/
def ofAnalysis (a : Analysis) (fresh : Bool) : Session where
  owner := a.owner
  workspace := .ofHost (if fresh then Host.new else a.host).withMoveTypes
  removed := []
  lifted := #[]

/-- The position that `index` names in a list of `size` items; positions below zero count from the
end. -/
def position (size : Nat) (index : Int) : Except Fault Nat :=
  let i := if index < 0 then index + size else index
  if 0 ≤ i ∧ i < size then .ok i.toNat else .error .noSuchPosition

/-- Runs a computation on the host. -/
def onHost {α : Type} (x : HostM α) : SessionM α := do
  let s ← get
  let (result, workspace) := x.run.run s.workspace
  set { s with workspace }
  Lift.ofExcept result

/-- The converter of the session. -/
def converter (s : Session) : Converter := ⟨s.owner, s.removed⟩

/-- Lifts a routine and keeps it. -/
def liftRef (target : RoutineRef) : SessionM Lifted := do
  let lifted ← onHost ((← get).converter.lift target)
  modify fun s => { s with lifted := s.lifted.push lifted }
  return lifted

/-- Lifts the routine of a name and keeps it. -/
def liftNamed (name : String) : SessionM (Option Lifted) := do
  match (← get).workspace.host.routineNamed? name with
  | none => return none
  | some number => return some (← liftRef (.hosted number))

/-- Lifts a routine that the host does not know and keeps it. -/
def liftAs (name : String) (address size : Int) : SessionM Lifted :=
  liftRef (.detached { name, address, size })

/-- Lifts the routine of a name with all opcodes. -/
def liftFresh (name : String) : SessionM (Option Lifted) := do
  let m := (← get).owner
  match (← get).workspace.host.routineNamed? name with
  | none => return none
  | some number =>
    onHost prepare
    return some (← onHost ((Converter.mk m []).lift (.hosted number)))

/-- Lifts the internal routines with all opcodes. -/
def liftModule : SessionM (List Lifted) := do
  let m := (← get).owner
  onHost m.liftInternal

/-- Lifts a block of no routine, which cannot be done. -/
def blockOutside : SessionM Unit := throw .outsideRoutine

/-- The opcode of a mnemonic. -/
def opcodeOf (mnemonic : String) : Except Fault Opcode :=
  match Opcode.ofMnemonic? mnemonic with
  | some opcode => .ok opcode
  | none => .error (.nameUnknown mnemonic)

/-- Leaves out the opcode of a mnemonic from now on. -/
def unsupported (mnemonic : String) : SessionM Unit := do
  let opcode ← Lift.ofExcept (opcodeOf mnemonic)
  modify fun s => { s with removed := opcode :: s.removed }

/-- The function with another opcode in its instruction number `i`. -/
def patchFunction (i : Nat) (opcode : Opcode) (f : Entry FunctionDef) : Entry FunctionDef :=
  f.map fun d =>
    { d with code := { d.code with
        instructions := d.code.instructions.modify i fun insn => { insn with opcode } } }

/-- Replaces the opcode of an instruction of the function of a name by that of a mnemonic and nothing
else of the instruction; gives the instruction as text. -/
def patch (name : String) (index : Int) (mnemonic : String) : SessionM String := do
  let s ← get
  match ← Lift.ofExcept (s.owner.functionNamed? name) with
  | none => throw (.noFunction name)
  | some f =>
    let i ← Lift.ofExcept (position f.record.code.instructions.length index)
    let opcode ← Lift.ofExcept (opcodeOf mnemonic)
    let patched := patchFunction i opcode f
    let owner :=
      match s.owner.main with
      | some _ => { s.owner with main := some patched }
      | none =>
        { s.owner with
          functionDefs := { s.owner.functionDefs with
            entries := s.owner.functionDefs.entries.setIfInBounds f.index patched } }
    set { s with owner }
    return ((patched.record.code.instructions[i]?).map Instruction.text).getD ""

/-- Refines the types of a routine lifted before, by the graph of the routine or without one. -/
def retype (index : Int) (useGraph : Bool) : SessionM (Nat × Lifted) := do
  let s ← get
  let i ← Lift.ofExcept (position s.lifted.size index)
  match s.lifted[i]? with
  | none => throw .noSuchPosition
  | some l =>
    let (count, refined) ← onHost (refine l (if useGraph then some l.graph else none))
    modify fun s => { s with lifted := s.lifted.setIfInBounds i refined }
    return (count, refined)

/-- Rebuilds the module into a class. -/
def rebuild (className : String) : SessionM (List Lifted) := do
  let m := (← get).owner
  onHost (m.rebuild className)

/-- Gives every routine a prototype and lists the routines. -/
def assignPrototypes : SessionM (List Routine) := do
  let m := (← get).owner
  onHost (Lift.assignPrototypes m)
  return (← get).workspace.host.routineList

/-- The pseudo-source of the routines lifted so far. -/
def render : SessionM String := do
  let s ← get
  Lift.ofExcept (s.owner.source s.workspace.host s.lifted.toList)

/-- The declarations of a class and of the routine of a name. -/
def declare (className routineName : Option String) : SessionM (List String) := do
  let s ← get
  let r := routineName.bind s.workspace.host.routineCalled?
  Lift.ofExcept (s.owner.declarations className r)

/-- Statistics of the routines lifted so far. -/
def stats (s : Session) : SessionStats where
  kinds := s.lifted.toList.map fun l => Stats.kinds l.statements
  untranslated := s.lifted.toList.map fun l => Stats.untranslated l.statements
  total := Stats.total s.lifted.toList

end Session

end MoveBytecode
