import MoveBytecode.Host.Segment
import MoveBytecode.NativeType.Registry

/-!
# The host

The host is what a load publishes its layout to: segments of memory, symbols, the routines that the
function symbols stand for, classes that group routines, and the native types. Every routine ever
registered keeps its number, so a class goes on holding a routine whose address has been taken over
by another.
-/

namespace MoveBytecode

/-- What a symbol stands for. -/
inductive SymbolKind where
  | variable
  | function
  /-- A slot that holds the address of a function elsewhere. -/
  | pointer
  deriving DecidableEq, Repr

/-- The name of a kind of symbols. -/
def SymbolKind.name : SymbolKind → String
  | .variable => "variable"
  | .function => "function"
  | .pointer => "ptrfunction"

/-- Every kind of symbols. -/
def SymbolKind.all : List SymbolKind := [.variable, .function, .pointer]

/-- The kind of a name. -/
def SymbolKind.ofName (name : String) : Except Fault SymbolKind :=
  match all.find? (·.name == name) with
  | some kind => .ok kind
  | none => .error (.symbolKindUnknown name)

/-- A named address. -/
structure Symbol where
  kind : SymbolKind
  flags : Flags
  poolIndex : Int
  name : String
  address : Int
  size : Int
  dataType : Option String
  deriving DecidableEq, Repr

namespace Symbol

/-- The flags that a number stands for: a symbol may be contiguous or imported. -/
def flagsOf (n : Int) : Flags := .ofInt 2 n

/-- No flag. -/
def noFlag : Flags := 0

/-- The flag of a function whose addresses are one run. -/
def contiguous : Flags := 1

/-- The flag of a function elsewhere. -/
def imported : Flags := 2

/-- The name of a symbol that was given none. -/
def defaultName (kind : SymbolKind) (address : Int) : String :=
  (match kind with
    | .variable => "gvar_"
    | .function | .pointer => "sub_") ++ Text.hex address

end Symbol

/-- A routine: internal ones have a body in this module. -/
structure Routine where
  name : String
  address : Int
  size : Int
  internal : Bool := true
  prototype : Option Prototype := none
  /-- The class that the routine was moved to. -/
  parent : Option String := none
  deriving DecidableEq, Repr

/-- A class and the numbers of its routines. -/
structure ClassItem where
  name : String
  methods : List Nat
  deriving DecidableEq, Repr

/-- What a load publishes its layout to. -/
structure Host where
  types : TypeRegistry
  segments : List Segment
  symbols : Array Symbol
  /-- Every routine ever registered. -/
  routines : Array Routine
  /-- The number of the routine at each address, in the order in which addresses were first
  taken. -/
  directory : List (Int × Nat)
  classes : List ClassItem
  deriving DecidableEq

namespace Host

/-- The host that nothing has been published to. -/
def new : Host where
  types := .new 64
  segments := []
  symbols := #[]
  routines := #[]
  directory := []
  classes := []

/-- The host with the Move types. -/
def withMoveTypes (h : Host) : Host := { h with types := h.types.withMoveTypes }

/-! ## Memory -/

/-- The host with one more segment. -/
def addSegment (h : Host) (s : Segment) : Host :=
  { h with segments := h.segments ++ [s] }

/-- The first segment with this name. -/
def segmentNamed? (h : Host) (name : String) : Option Segment :=
  h.segments.find? (·.name == name)

/-- The first segment that spans `size` addresses from `address` on. -/
def segmentAt? (h : Host) (address : Int) (size : Int := 1) : Option Segment :=
  h.segments.find? (·.contains address size)

/-- The bytes of `size` addresses from `address` on. -/
def read (h : Host) (address size : Int) : Except Fault Bytes :=
  match h.segmentAt? address size with
  | some s => .ok (s.read address size)
  | none => .error (.noSegment address size)

/-- The segments with `bytes` written to the first that spans them, if one does. -/
def writeFirst (address : Int) (bytes : Bytes) : List Segment → Option (List Segment)
  | [] => none
  | s :: rest =>
    if s.contains address bytes.size then some (s.write address bytes :: rest)
    else (writeFirst address bytes rest).map (s :: ·)

/-- The host with `bytes` at the addresses from `address` on. -/
def write (h : Host) (address : Int) (bytes : Bytes) : Except Fault Host :=
  match writeFirst address bytes h.segments with
  | some segments => .ok { h with segments }
  | none => .error (.noSegment address bytes.size)

/-! ## Symbols and routines -/

/-- The directory with `address` leading to the routine `number`; an address that was taken keeps
its place. -/
def assign (directory : List (Int × Nat)) (address : Int) (number : Nat) : List (Int × Nat) :=
  if directory.any (·.1 == address) then
    directory.map fun (a, n) => if a == address then (a, number) else (a, n)
  else directory ++ [(address, number)]

/-- The host with one more routine, at its address. -/
def addRoutine (h : Host) (r : Routine) : Host :=
  { h with
    routines := h.routines.push r
    directory := assign h.directory r.address h.routines.size }

/-- Records a symbol; the symbol of a function, here or elsewhere, brings a routine with it. A
symbol without a name is named after its address. -/
def addSymbol (h : Host) (kind : SymbolKind) (flags : Flags) (poolIndex : Int) (name : String)
    (address size : Int) (dataType : Option String) : Symbol × Host :=
  let name := if name.isEmpty then Symbol.defaultName kind address else name
  let symbol : Symbol := ⟨kind, flags, poolIndex, name, address, size, dataType⟩
  let h := { h with symbols := h.symbols.push symbol }
  match kind with
  | .variable => (symbol, h)
  | .function => (symbol, h.addRoutine { name, address, size, internal := true })
  | .pointer => (symbol, h.addRoutine { name, address, size, internal := false })

/-- The first symbol at an address. -/
def symbolAt? (h : Host) (address : Int) : Option Symbol :=
  h.symbols.find? (·.address == address)

/-- The numbers of the routines that have an address, in the order of the addresses. -/
def routineNumbers (h : Host) : List Nat :=
  (h.directory.mergeSort fun a b => a.1 ≤ b.1).map (·.2)

/-- The routine with a number. -/
def routine? (h : Host) (number : Nat) : Option Routine := h.routines[number]?

/-- The routines that have an address, in the order of the addresses. -/
def routineList (h : Host) : List Routine :=
  h.routineNumbers.filterMap h.routine?

/-- The numbers of the internal routines, in the order of the addresses. -/
def internalNumbers (h : Host) : List Nat :=
  h.routineNumbers.filter fun n => (h.routine? n).any (·.internal)

/-- The number of the routine at an address. -/
def numberAt? (h : Host) (address : Int) : Option Nat :=
  h.directory.lookup address

/-- The number of the routine at an address, if it is internal where that is asked for. -/
def routineAt? (h : Host) (address : Int) (internalOnly : Bool := false) : Option Nat :=
  (h.numberAt? address).filter fun n => !internalOnly || (h.routine? n).any (·.internal)

/-- The number of the first routine with this name, in the order in which addresses were taken. -/
def routineNamed? (h : Host) (name : String) : Option Nat :=
  (h.directory.find? fun (_, n) => (h.routine? n).any (·.name == name)).map (·.2)

/-- The routine at an address, if it is internal where that is asked for. -/
def routineFor? (h : Host) (address : Int) (internalOnly : Bool) : Option Routine :=
  (h.routineAt? address internalOnly).bind h.routine?

/-- The first routine with this name. -/
def routineCalled? (h : Host) (name : String) : Option Routine :=
  (h.routineNamed? name).bind h.routine?

/-- The host with another routine under a number. -/
def updateRoutine (h : Host) (number : Nat) (f : Routine → Routine) : Host :=
  { h with routines := h.routines.modify number f }

/-! ## Classes -/

/-- The class with this name. -/
def classNamed? (h : Host) (name : String) : Option ClassItem :=
  h.classes.find? (·.name == name)

/-- The host with a new class without methods. -/
def addClass (h : Host) (name : String) : Except Fault Host :=
  match h.classNamed? name with
  | some _ => .error (.classExists name)
  | none => .ok { h with classes := h.classes ++ [⟨name, []⟩] }

/-- The methods of a class. -/
def methodsOf (h : Host) (c : ClassItem) : List Routine :=
  c.methods.filterMap h.routine?

/-- The host with a routine among the methods of a class, unless one equal to it is there. -/
def addMethod (h : Host) (className : String) (number : Nat) : Host :=
  { h with
    classes := h.classes.map fun c =>
      if c.name == className && !(c.methods.any fun n => h.routine? n == h.routine? number) then
        { c with methods := c.methods ++ [number] }
      else c }

/-- The host with a routine that belongs to a class. -/
def moveToClass (h : Host) (number : Nat) (className : String) : Host :=
  h.updateRoutine number fun r => { r with parent := some className }

end Host

end MoveBytecode
