/-!
# Configuration

Where a load maps the parts of a binary, and whether it logs the tables that it read.
-/

namespace MoveBytecode

/-- The settings of a load. -/
structure Config where
  /-- The first address of the constants. -/
  dataBase : Int := 0
  /-- The first address of the function bodies. -/
  codeBase : Int := 0x10000000
  /-- The first address of the slots of imported functions. -/
  importsBase : Int := 0x20000000
  /-- How many addresses a slot has. -/
  pointerSize : Int := 8
  /-- Whether to log the tables. -/
  dumpTables : Bool := false
  deriving DecidableEq, Repr

/-- The settings that hold unless others are given. -/
def Config.standard : Config := {}

end MoveBytecode
