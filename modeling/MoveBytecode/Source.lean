import MoveBytecode.Rebuild

/-!
# Pseudo-source

A module as source text: a header that names the class of its routines, and each routine with its
declaration and its statements.
-/

namespace MoveBytecode.Module

open Lift

/-- The header of a class; a script has none. -/
def classDeclaration (m : Module) (name : String) : List String :=
  if m.isScript then [] else ["module " ++ name]

/-- The types that a prototype returns, or void if there is nothing to show of them. -/
def returnsText (p : Prototype) : String :=
  let text := NativeType.listText p.returns
  if text.isEmpty then "void" else text

/-- The parameters of a prototype with their names. -/
def paramsText (p : Prototype) : String :=
  String.intercalate ", " (p.params.zipIdx.map fun (t, i) => s!"{t.name} local{i}")

/-- The declaration of a routine: its flags, its types and its name. -/
def methodDeclaration (m : Module) (r : Routine) : Except Fault String := do
  let flags := match ← m.functionNamed? r.name with
    | some f => flagsText f.record.flags
    | none => ""
  let declaration := match r.prototype with
    | some p => returnsText p ++ " " ++ r.name ++ "(" ++ paramsText p ++ ")"
    | none => r.name ++ "()"
  return Text.trim (flags ++ " " ++ declaration)

/-- The declarations of a class and of a routine, as far as they are given. -/
def declarations (m : Module) (className : Option String) (r : Option Routine) :
    Except Fault (List String) := do
  let header := className.toList.flatMap m.classDeclaration
  let methods ← r.toList.mapM m.methodDeclaration
  return header ++ methods

/-- What stands in front of the statements of a routine. -/
def margin : String := "    "

/-- The lines of a routine behind `indent`. -/
def routineSource (m : Module) (indent : String) (l : Lifted) : Except Fault (List String) := do
  let header ← m.methodDeclaration l.routine
  return (indent ++ header ++ " \x7b") ::
    (l.statements.map fun s => indent ++ margin ++ s.text) ++
      (l.failed.map fun (label, reason) => indent ++ margin ++ "// " ++ label ++ ": " ++ reason) ++
      [indent ++ "\x7d"]

/-- A module with lifted routines as source text; the routines stand inside the class of the module
if the host has it. -/
def source (m : Module) (h : Host) (lifted : List Lifted) : Except Fault String := do
  let header :=
    if (h.classNamed? className).isSome then m.classDeclaration className else []
  let indent := if header.isEmpty then "" else margin
  let routines ← lifted.mapM (m.routineSource indent)
  return String.intercalate "\n"
    (header.map (· ++ " \x7b") ++ routines.flatten ++ header.map fun _ => "\x7d")

end MoveBytecode.Module
