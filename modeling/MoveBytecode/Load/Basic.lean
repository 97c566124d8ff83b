import MoveBytecode.Listing.Tables
import MoveBytecode.Load.Directory
import MoveBytecode.Load.Layout
import MoveBytecode.Load.References
import MoveBytecode.Load.Table

/-!
# Loading

A load checks the header, reads the directory, then the tables without code, checks the references
between their records, reads the tables with code, decides whether the binary is a library or a
script, lists the tables if that is asked for, and lays the module out. The first fault in this
order is the one that is reported.
-/

namespace MoveBytecode.Module

/-- What a binary is: a script has a `main` function and defines nothing else, or defines nothing at
all. -/
def resolveKind (m : Module) : Except Fault Module :=
  if m.main.isSome then
    if m.hasDefinitions then .error .scriptWithDefinitions else .ok { m with kind := .script }
  else if m.hasDefinitions then .ok { m with kind := .library }
  else .ok { m with kind := .script }

/-- The module of a binary with its directory read and its tables still unread. -/
def readDirectory (data : Bytes) : Except Fault Module := do
  let magic ← Header.check data
  let c ← Cursor.make data Header.size none
  let sections ← (Directory.read.runAt c).1
  return start data magic sections

/-- The directory entries of the tables without code. -/
def dataSections (m : Module) : List Section :=
  m.sections.filter (!·.kind.holdsCode)

/-- The directory entries of the tables with code. -/
def codeSections (m : Module) : List Section :=
  m.sections.filter (·.kind.holdsCode)

/-- The module with its tables read. -/
def readTables (m : Module) : Except Fault Module := do
  let m ← m.dataSections.foldlM Table.decode m
  m.checkReferences
  let m ← m.codeSections.foldlM Table.decode m
  m.resolveKind

/-- The module of a binary before its layout. -/
def decode (data : Bytes) : Except Fault Module := do
  (← readDirectory data).readTables

/-- The listing of the tables for the log, if that is asked for; the module has no addresses yet. -/
def dump (config : Config) (m : Module) : Except Fault (Option String) := do
  if config.dumpTables then return some (← m.showTables) else return none

/-- The module of a binary. -/
def load (config : Config) (data : Bytes) : Except Fault Module := do
  let m ← decode data
  let _ ← m.dump config
  return (m.layOut config).1

/-- The module of a binary, and a host with its layout. -/
def loadInto (config : Config) (data : Bytes) (h : Host) : Except Fault (Module × Host) := do
  let m ← decode data
  let _ ← m.dump config
  let (m, bounds) := m.layOut config
  let h ← m.publish config bounds h
  return (m, h)

end MoveBytecode.Module
