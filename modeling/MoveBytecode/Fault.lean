import MoveBytecode.Instruction
import MoveBytecode.Signature.Kind
import MoveBytecode.TableKind
import MoveBytecode.Text.Quoted
import MoveBytecode.Text.Utf8

/-!
# Faults

Everything that can go wrong, by cause. `Fault.message` words a cause and `Fault.kind` classifies
it; the classes say which stage refused its input, and callers that recover do so by class.
-/

namespace MoveBytecode

/-- The classes of faults. -/
inductive FaultKind where
  /-- A read passes the bound of its cursor. -/
  | endOfInput
  /-- A number is longer or larger than its field allows. -/
  | varintOverflow
  /-- Bytes that are no signature, or a signature that has no bytes. -/
  | malformedSignature
  /-- A table whose body is not what its kind asks for. -/
  | malformedTable
  /-- A record that refers to nothing. -/
  | unresolvedReference
  /-- A look-up or a bound outside its container. -/
  | indexOutOfRange
  /-- A byte that is no opcode. -/
  | unknownOpcode
  /-- An instruction that takes more values than there are. -/
  | stackUnderflow
  /-- A body that leaves values behind. -/
  | unbalancedStack
  /-- Input without the header of a binary. -/
  | unrecognizedFormat
  /-- A binary of another version. -/
  | unsupportedVersion
  /-- A routine that cannot be lifted. -/
  | lifting
  /-- An instruction without a lowering. -/
  | unsupportedConversion
  /-- A pop from an empty symbolic stack. -/
  | stackEmpty
  /-- A call of a routine that the host does not know. -/
  | unresolvedCallTarget
  /-- A value that is wider than its place. -/
  | widthMismatch
  /-- Input that is no binary at all, as the command line finds it. -/
  | analysis
  /-- An argument outside what an operation is defined for. -/
  | invalidValue
  /-- A name that is not in a registry. -/
  | unknownKey
  /-- A position outside a list. -/
  | noSuchPosition
  /-- Nothing where a value is needed. -/
  | notANumber
  /-- A path that does not lead to a file. -/
  | fileSystem
  deriving DecidableEq, Repr

namespace FaultKind

/-- The classes by which a load refuses its input. -/
def isLoading : FaultKind → Bool
  | .endOfInput | .varintOverflow | .malformedSignature | .malformedTable | .unresolvedReference
  | .indexOutOfRange | .unknownOpcode | .stackUnderflow | .unbalancedStack | .unrecognizedFormat
  | .unsupportedVersion => true
  | _ => false

/-- The classes by which a lift refuses a routine. -/
def isLifting : FaultKind → Bool
  | .lifting | .unsupportedConversion | .stackEmpty | .unresolvedCallTarget | .widthMismatch => true
  | _ => false

/-- The classes of faults in what is analysed, as against faults in how the analysis is used. -/
def isAnalysis (k : FaultKind) : Bool :=
  k.isLoading || k.isLifting || k == .analysis

end FaultKind

/-- The causes of faults. -/
inductive Fault where
  -- reading bytes
  | readerBounds (start stop : Int) (size : Nat)
  | windowBounds (offset size : Int) (available : Nat)
  | shortRead (count : Int) (position bound : Nat)
  | tooWideFor31Bits (value : Nat)
  | varintTooLong (limit : Nat)
  | varintTooLarge (value : Nat)
  | varintNegative (value : Int)
  -- the header
  | headerTooShort (size : Nat)
  | magicUnknown
  | versionUnsupported (major minor : Nat)
  -- signatures
  | tokenTooDeep (limit : Nat)
  | typeByteUnknown (byte : UInt8)
  | signatureKindMismatch (expected : SignatureKind) (found : UInt8)
  | tooManyTokens (count : Nat)
  | referenceWithoutTarget (mutable : Bool)
  | structWithoutHandle
  -- pools and tables
  | indexOutOfRange (pool : String) (index : Int) (size : Nat)
  | tableKindUnknown (byte : UInt8)
  | tableBeyondInput (kind : TableKind) (offset size available : Nat)
  | addressPoolSize (size : Nat)
  | entryLength (length : Int) (position : Nat)
  | stringNotUtf8 (position : Nat) (defect : Text.Utf8.Defect)
  | duplicateMain
  | scriptWithDefinitions
  | unresolvedEntry (holder pool : String) (index : Int) (size : Nat)
  | fieldsBeyondTable (structDef first stop available : Nat)
  | functionHandleUnknown (handle : Nat)
  | localsUnknown (signature : Nat)
  -- function bodies
  | tooManyLocals (count : Int)
  | opcodeUnknown (byte : UInt8) (position : Nat)
  | localBeyondCount (opcode : Opcode) (index count : Nat)
  | operandBeyondPool (opcode : Opcode) (pool : String) (index size : Nat)
  | stackUnderflow (function : String) (instruction : Instruction) (pops : Nat)
  | stackUnbalanced (function : String) (depth : Nat)
  | branchBeyondBody (function : String) (index target count : Nat)
  -- lifting
  | noDefinition (routine : String)
  | outsideRoutine
  | operandMissing (opcode : Opcode)
  | noSuchPosition
  | stackEmpty
  | unresolvedCall (function : String) (address : Int)
  | unsupportedConversion (operation : String) (address : Int)
  | variableExists (name : String)
  | noDataSymbol (address : Int)
  | cannotExtend (bits target : Int)
  | doesNotFit (source : String) (sourceBits : Int) (target : String) (targetBits : Int)
  | negativeShift
  | noOperands
  | operationUnknown (name : String)
  | symbolKindUnknown (name : String)
  | nameUnknown (name : String)
  | stepWithoutNode (step : Int)
  -- types and the host
  | moveTypeUndefined (name : String)
  | aliasOfUnknown (name : String)
  | handleNotGiven
  | routineNotGiven
  | noSegment (address size : Int)
  | classExists (name : String)
  | alreadyRebuilt (name : String)
  -- queries and the command line
  | noFunction (name : String)
  | noFunctions
  | notABinary (path : String)
  | fileMissing (path : String)
  | fileIsDirectory (path : String)
  | fileIsNoDirectory (path : String)
  | pathTooLong (path : String)
  | pathWithNull
  deriving DecidableEq, Repr

namespace Fault

open Text

/-- The class of a cause. -/
def kind : Fault → FaultKind
  | readerBounds .. | windowBounds .. | shortRead .. => .endOfInput
  | tooWideFor31Bits _ | varintTooLong _ | varintTooLarge _ => .varintOverflow
  | headerTooShort _ | magicUnknown => .unrecognizedFormat
  | versionUnsupported .. => .unsupportedVersion
  | tokenTooDeep _ | typeByteUnknown _ | signatureKindMismatch .. | tooManyTokens _
  | referenceWithoutTarget _ | structWithoutHandle => .malformedSignature
  | tableKindUnknown _ | addressPoolSize _ | entryLength .. | stringNotUtf8 .. | duplicateMain
  | scriptWithDefinitions => .malformedTable
  | unresolvedEntry .. | fieldsBeyondTable .. | functionHandleUnknown _ | localsUnknown _
  | localBeyondCount .. | operandBeyondPool .. => .unresolvedReference
  | indexOutOfRange .. | tableBeyondInput .. | tooManyLocals _ | branchBeyondBody .. =>
    .indexOutOfRange
  | opcodeUnknown .. => .unknownOpcode
  | stackUnderflow .. => .stackUnderflow
  | stackUnbalanced .. => .unbalancedStack
  | noDefinition _ | outsideRoutine | variableExists _ | noDataSymbol _ => .lifting
  | stackEmpty => .stackEmpty
  | unresolvedCall .. => .unresolvedCallTarget
  | unsupportedConversion .. => .unsupportedConversion
  | cannotExtend .. | doesNotFit .. => .widthMismatch
  | varintNegative _ | operandMissing _ | negativeShift | noOperands | operationUnknown _
  | symbolKindUnknown _ | stepWithoutNode _ | noSegment .. | classExists _ | alreadyRebuilt _ | noFunction _
  | noFunctions | pathWithNull => .invalidValue
  | noSuchPosition => .noSuchPosition
  | moveTypeUndefined _ | aliasOfUnknown _ | nameUnknown _ => .unknownKey
  | handleNotGiven | routineNotGiven => .notANumber
  | notABinary _ => .analysis
  | fileMissing _ | fileIsDirectory _ | fileIsNoDirectory _ | pathTooLong _ => .fileSystem

/-- The wording of a cause. -/
def message : Fault → String
  | readerBounds start stop size =>
    s!"Invalid reader bounds [{start}, {stop}) for a buffer of {size} bytes"
  | windowBounds offset size available =>
    s!"Range [{offset}, {offset + size}) exceeds a buffer of {available} bytes"
  | shortRead count position bound =>
    s!"Reading {count} byte(s) at offset {position} passes the bound {bound}"
  | tooWideFor31Bits value => s!"Value 0x{hex value} does not fit in 31 bits"
  | varintTooLong limit => s!"Variable-length integer longer than {limit} bytes"
  | varintTooLarge value => s!"varu16 value 0x{hex value} exceeds 0xFFFF"
  | varintNegative value => s!"Cannot encode negative value {value}"
  | headerTooShort size => s!"Input too short for a Move header ({size} bytes)"
  | magicUnknown => "No LIBRAVM/DIEMVM magic at offset 0"
  | versionUnsupported major minor => s!"Unsupported Move file-format version {major}.{minor}"
  | tokenTooDeep limit => s!"Signature token nested deeper than {limit}"
  | typeByteUnknown byte => s!"Unknown serialized type 0x{hexPadded 2 byte.toNat}"
  | signatureKindMismatch expected found =>
    s!"Expected a {expected.name} signature (0x{hexPadded 2 expected.code.toNat}), " ++
      s!"got 0x{hexPadded 2 found.toNat}"
  | tooManyTokens count => s!"Too many tokens for a u8 count: {count}"
  | referenceWithoutTarget mutable =>
    (if mutable then "MUTABLE_REFERENCE" else "REFERENCE") ++ " token without an inner token"
  | structWithoutHandle => "STRUCT token without a struct handle index"
  | indexOutOfRange pool index size => s!"{pool}: index {index} out of range (size {size})"
  | tableKindUnknown byte => s!"Unknown table type 0x{hexPadded 2 byte.toNat}"
  | tableBeyondInput kind offset size available =>
    s!"Table {kind.name} [0x{hex offset}, 0x{hex (offset + size)}) " ++
      s!"exceeds the input ({available} bytes)"
  | addressPoolSize size => s!"Address pool size {size} is not a multiple of 32"
  | entryLength length position => s!"Invalid pool entry length {length} at 0x{hex position}"
  | stringNotUtf8 position defect =>
    s!"String at 0x{hex position} is not UTF-8: " ++ defect.message
  | duplicateMain => "Duplicate MAIN table"
  | scriptWithDefinitions => "A script cannot hold definitions besides main()"
  | unresolvedEntry holder pool index size =>
    s!"{holder} refers to {pool} index {index} (size {size})"
  | fieldsBeyondTable structDef first stop available =>
    s!"Struct definition {structDef} fields [{first}, {stop}) exceed {available} field(s)"
  | functionHandleUnknown handle => s!"Function definition refers to unknown handle {handle}"
  | localsUnknown signature =>
    s!"Function definition refers to unknown locals signature {signature}"
  | tooManyLocals count => s!"Function declares {count} locals; at most 256 are addressable"
  | opcodeUnknown byte position =>
    s!"Unknown opcode 0x{hexPadded 2 byte.toNat} at file offset 0x{hex position}"
  | localBeyondCount opcode index count =>
    s!"{opcode.mnemonic}: local @{index} but the function has {count} locals"
  | operandBeyondPool opcode pool index size =>
    s!"{opcode.mnemonic}: {pool} index {index} out of range (size {size})"
  | stackUnderflow function i pops =>
    s!"{function}: #{i.index} {i.text} pops {pops} value(s) at depth {i.depthBefore}"
  | stackUnbalanced function depth => s!"{function}: stack depth {depth} at the end of the body"
  | branchBeyondBody function index target count =>
    s!"{function}: #{index} branches to #{target} of {count}"
  | noDefinition routine => s!"No function definition for routine {quote routine}"
  | outsideRoutine => "lift_basic_block called outside a routine conversion"
  | operandMissing opcode => s!"{opcode.mnemonic} has no operand"
  | noSuchPosition => "list index out of range"
  | stackEmpty => "Pop from an empty operand stack"
  | unresolvedCall function address =>
    s!"Cannot resolve routine {quote function} called at 0x{hex address}"
  | unsupportedConversion operation address =>
    s!"Cannot convert instruction: {operation} at 0x{hex address}"
  | variableExists name => s!"Variable {quote name} already exists in this routine"
  | noDataSymbol address => s!"No data symbol at 0x{hex address}"
  | cannotExtend bits target => s!"Cannot zero-extend {bits} bits to {target}"
  | doesNotFit source sourceBits target targetBits =>
    s!"{source} ({sourceBits} bits) does not fit in {target} ({targetBits} bits)"
  | negativeShift => "negative shift count"
  | noOperands => "max() arg is an empty sequence"
  | operationUnknown name => s!"{quote name} is not a valid OperationType"
  | symbolKindUnknown name => s!"{quote name} is not a valid SymbolKind"
  | nameUnknown name => name
  | stepWithoutNode step => s!"step {step} made no node"
  | moveTypeUndefined name =>
    s!"Move type {quote name} is not defined; call define_move_types first"
  | aliasOfUnknown name => s!"Cannot alias unknown type {quote name}"
  | handleNotGiven => "'<=' not supported between instances of 'int' and 'NoneType'"
  | routineNotGiven => "'NoneType' object has no attribute 'name'"
  | noSegment address size => s!"No segment spans 0x{hex address}+{size}"
  | classExists name => s!"Class {quote name} already exists"
  | alreadyRebuilt name => s!"Module already rebuilt as {quote name}"
  | noFunction name => s!"No function named {quote name}"
  | noFunctions => "The binary defines no functions"
  | notABinary path => s!"{path} is not a Move 1.0 binary"
  | fileMissing path => s!"[Errno 2] No such file or directory: {quote path}"
  | fileIsDirectory path => s!"[Errno 21] Is a directory: {quote path}"
  | fileIsNoDirectory path => s!"[Errno 20] Not a directory: {quote path}"
  | pathTooLong path => s!"[Errno 36] File name too long: {quote path}"
  | pathWithNull => "embedded null byte"

end Fault

end MoveBytecode
