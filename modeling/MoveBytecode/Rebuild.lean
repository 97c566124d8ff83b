import MoveBytecode.Lift.Routine

/-!
# Rebuilding modules

The routines of a module are lifted and grouped into one class of the host. A routine that cannot be
lifted is recorded and grouped all the same; a script has nothing to group.
-/

namespace MoveBytecode

open Lift

namespace Module

/-- The name of the class that a module is rebuilt into. -/
def className : String := "DecompiledModule"

/-- Lifts a routine; a fault in what is analysed is recorded, any other goes on. -/
def liftOrRecord (m : Module) (number : Nat) : HostM (Option Lifted) := do
  let name := (((← get).host.routine? number).map (·.name)).getD ""
  tryCatch (do return some (← (Converter.mk m []).lift (.hosted number))) fun fault => do
    if fault.kind.isAnalysis then
      note (.notLifted name)
      return none
    else throw fault

/-- Puts a routine into a class. -/
def group (className : String) (number : Nat) : HostM Unit :=
  modify fun w =>
    { w with host := (w.host.addMethod className number).moveToClass number className }

/-- Lifts the internal routines of a module and groups them into a new class; gives the routines
that could be lifted. -/
def rebuild (m : Module) (className : String := Module.className) : HostM (List Lifted) := do
  if m.isScript then return []
  if ((← get).host.classNamed? className).isSome then throw (.alreadyRebuilt className)
  prepare
  let numbers := (← get).host.internalNumbers
  let lifted ← numbers.mapM m.liftOrRecord
  let w ← get
  let host ← Lift.ofExcept (w.host.addClass className)
  set { w with host }
  numbers.forM (group className)
  note (.rebuilt numbers.length className)
  return lifted.reduceOption

end Module

end MoveBytecode
