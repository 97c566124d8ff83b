import MoveBytecode.Flow.Mermaid
import MoveBytecode.Load.Events
import MoveBytecode.Refine
import MoveBytecode.Source
import MoveBytecode.Stats

/-!
# Analyses

A binary that has been loaded into a host of its own, and the views of it: its tables, its listing,
the graph of a function, its routines in the intermediate form, and its pseudo-source. Views that
lift routines work on the host and record events.
-/

namespace MoveBytecode

open Lift

/-- A loaded binary and the host with its layout. -/
structure Analysis where
  owner : Module
  host : Host

namespace Analysis

/-- Loads a binary into a host of its own. -/
def ofBytes (config : Config) (data : Bytes) : Except Fault Analysis := do
  let (owner, host) ← Module.loadInto config data .new
  return ⟨owner, host⟩

/-- The events of loading a binary. -/
def events (config : Config) (data : Bytes) : List Event :=
  Module.decodeEvents config data ++
    match ofBytes config data with
    | .error _ => []
    | .ok a =>
      Module.layoutEvents a.host ++
        [.loaded a.owner.kind.name a.owner.internalFunctions.length a.host.symbols.size]

/-- The result of a computation on the host of an analysis, and the workspace that it leaves. -/
def run {α : Type} (a : Analysis) (x : HostM α) : Except Fault α × Workspace :=
  x.run.run (.ofHost a.host)

/-- Loads a binary and does something with it; the events are those of the load and of what is done
with it. -/
def observe {α : Type} (config : Config) (data : Bytes) (x : Analysis → HostM α) :
    Except Fault α × List Event :=
  let loading := events config data
  match ofBytes config data with
  | .error fault => (.error fault, loading)
  | .ok a =>
    let (result, w) := a.run (x a)
    (result, loading ++ w.events.toList)

/-- The graph of the function called `name`, or of the first function if `name` is empty. -/
def graph (a : Analysis) (name : String) : Except Fault Graph := do
  match ← a.owner.selectFunctions name with
  | [] => throw .noFunctions
  | f :: _ => return Graph.ofFunction f

/-- Lifts the routine at the addresses of a function. That there is one is not checked. -/
def liftAt (m : Module) (f : Entry FunctionDef) : HostM Lifted := do
  match (← get).host.routineAt? f.mapping.start true with
  | some number => (Converter.mk m []).lift (.hosted number)
  | none => throw .routineNotGiven

/-- Lifts the functions called `name`, or all functions if `name` is empty. -/
def lift (a : Analysis) (name : String) : HostM (List Lifted) := do
  prepare
  (← Lift.ofExcept (a.owner.selectFunctions name)).mapM (liftAt a.owner)

/-- The intermediate form of the functions called `name`, or of all functions if `name` is
empty. -/
def ir (a : Analysis) (name : String) : HostM String := do
  return String.intercalate "\n\n" ((← a.lift name).map Lifted.text)

/-- How often each kind of statement occurs in the binary. -/
def stats (a : Analysis) : HostM (List (String × Nat)) := do
  return Stats.total (← a.lift "")

/-- The pseudo-source of the binary: a module is rebuilt, the routines of a script are lifted, and
the types of either are refined. -/
def decompile (a : Analysis) : HostM String := do
  let rebuilt ← a.owner.rebuild
  let lifted ← if a.owner.isScript then a.owner.liftInternal else pure rebuilt
  let refined ← lifted.mapM fun l => do return (← refine l (some l.graph)).2
  Lift.ofExcept (a.owner.source (← get).host refined)

end Analysis

/-! ## Views -/

/-- The views of a binary. -/
inductive View where
  | tables
  | disassembly
  | graph
  | flowchart
  | ir
  | source
  | stats
  deriving DecidableEq, Repr

/-- A count as a line of a JSON object. -/
def statLine (entry : String × Nat) : String :=
  "  " ++ Text.quoteJson entry.1 ++ s!": {entry.2}"

/-- Counts as a JSON object with a line for each, in the order of the keys. -/
def statsText (counts : List (String × Nat)) : String :=
  let sorted := counts.mergeSort fun a b => a.1 ≤ b.1
  if sorted.isEmpty then "\x7b\x7d"
  else "\x7b\n" ++ String.intercalate ",\n" (sorted.map statLine) ++ "\n\x7d"

/-- The text of a view; those that show functions show the ones called `name`, or all or the first
if `name` is empty. -/
def View.render (v : View) (a : Analysis) (name : String) : HostM String := do
  match v with
  | .tables => Lift.ofExcept a.owner.showTables
  | .disassembly => Lift.ofExcept (a.owner.disassembly name)
  | .graph => return (← Lift.ofExcept (a.graph name)).text
  | .flowchart => return Mermaid.render (← Lift.ofExcept (a.graph name))
  | .ir => a.ir name
  | .source => a.decompile
  | .stats => return statsText (← a.stats)

/-- Loads a binary and renders a view of it; the events are those of the load and of the view. -/
def View.ofBytes (v : View) (config : Config) (data : Bytes) (name : String) :
    Except Fault String × List Event :=
  Analysis.observe config data fun a => v.render a name

end MoveBytecode
