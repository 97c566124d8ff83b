import MoveBytecode.Ir.Basic
import MoveBytecode.Record
import MoveBytecode.TableKind
import MoveBytecode.Fault

/-!
# Events

What is worth a line in a log, by what happened. An event has a level, the part of the program that
reports it, and a wording.
-/

namespace MoveBytecode

/-- How much an event matters. -/
inductive Level where
  | debug
  | info
  | warning
  | error
  deriving DecidableEq, Repr

namespace Level

/-- The name of a level. -/
def name : Level → String
  | .debug => "DEBUG"
  | .info => "INFO"
  | .warning => "WARNING"
  | .error => "ERROR"

/-- The place of a level among the levels. -/
def rank : Level → Nat
  | .debug => 0
  | .info => 1
  | .warning => 2
  | .error => 3

/-- The level of a name. -/
def ofName? (name : String) : Option Level :=
  [Level.debug, .info, .warning, .error].find? (·.name == name)

end Level

/-- What happened. -/
inductive Event where
  /-- Input of another version was met. -/
  | versionRefused (fault : Fault)
  /-- A table is about to be read. -/
  | readingTable (kind : TableKind) (offset size : Nat)
  /-- A function's body is about to be read. -/
  | readingBody (position handle maxStack locals count : Nat)
  /-- A function's signature and locals are known. -/
  | readingFunction (name : String) (params returns : Nat)
  /-- An instruction has been read. -/
  | readInstruction (i : Instruction)
  /-- All tables have been read. -/
  | tables (text : String)
  /-- A segment was published. -/
  | segment (name : String) (base stop : Int)
  /-- A binary has been loaded. -/
  | loaded (kind : String) (functions symbols : Nat)
  /-- A routine returns several values. -/
  | severalReturns (signature : FunctionSignature)
  /-- An instruction could not be lowered. -/
  | notLowered (address : Int) (raw : Bytes) (text : String)
  /-- An instruction was lowered to a statement. -/
  | lowered (address : Int) (statement : Stmt)
  /-- A routine could not be lifted. -/
  | notLifted (name : String)
  /-- The routines of a module were grouped into a class. -/
  | rebuilt (count : Nat) (className : String)
  /-- Types were refined. -/
  | refined (count : Nat) (name : String)

namespace Event

open Text

/-- The level of an event. -/
def level : Event → Level
  | readingTable .. | readInstruction _ | segment .. | severalReturns _ | lowered ..
  | refined .. => .debug
  | readingBody .. | readingFunction .. | tables _ | loaded .. | rebuilt .. => .info
  | versionRefused _ => .warning
  | notLowered .. | notLifted _ => .error

/-- The part of the program that reports an event. -/
def channel : Event → String
  | versionRefused _ => "movevm.identifier"
  | readingTable .. | readingBody .. | tables _ => "movevm.loader"
  | readingFunction .. | readInstruction _ => "movevm.bytecode"
  | segment .. => "movevm.host"
  | loaded .. => "movevm.api"
  | severalReturns _ => "movevm.type_bridge"
  | notLowered .. | lowered .. => "movevm.lifter"
  | notLifted _ | rebuilt .. => "movevm.rebuilder"
  | refined .. => "movevm.extensions"

/-- The wording of an event. -/
def text : Event → String
  | versionRefused fault => fault.message
  | readingTable kind offset size => s!"Decoding {kind.name} at 0x{hex offset} ({size} bytes)"
  | readingBody position handle maxStack locals count =>
    s!"Parsing bytecode at 0x{hex position}: fh={handle}, mss={maxStack}, sig={locals}, " ++
      s!"insncnt={count}"
  | readingFunction name params returns => s!"Parsing {name}: in={params} out={returns}"
  | readInstruction i =>
    s!"#{i.index}/{i.offset}: {i.text}  [{i.depthBefore},{i.depthAfter}]"
  | tables text => text
  | segment name base stop => s!"Segment {name}: 0x{hex base}-0x{hex stop}"
  | loaded kind functions symbols =>
    s!"Loaded {kind}: {functions} function(s), {symbols} symbol(s)"
  | severalReturns signature =>
    s!"Function has {signature.returns.length} return values: {signature.text}"
  | notLowered address raw text =>
    s!"Instruction cannot be converted: {hex address}h: {hexBytes raw}: {text}"
  | lowered address statement => s!"0x{hex address} -> {statement.text}"
  | notLifted name => s!"Cannot lift routine {name}"
  | rebuilt count className => s!"Rebuilt {count} routine(s) into {className}"
  | refined count name => s!"Refined {count} type(s) in {name}"

/-- Whether an event is of a level or above it. -/
def reaches (e : Event) (level : Level) : Bool := level.rank ≤ e.level.rank

/-- An event as a line of a log that shows levels. -/
def line (e : Event) : String := e.level.name ++ " " ++ e.channel ++ ": " ++ e.text

end Event

end MoveBytecode
