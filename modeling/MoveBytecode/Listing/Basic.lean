import MoveBytecode.Module.Names
import MoveBytecode.Text.Blank

/-!
# Listings

Records, operands and functions as text, with the numbers in them followed to names. On the records
of a loaded module none of these fails.
-/

namespace MoveBytecode

namespace Listing

/-- What stands in front of an indented line. -/
def indent : String := "  "

/-- A text with `margin` behind every line break. -/
def withMargin (margin : String) (text : String) : String :=
  text.toList.foldl (fun done c => if c = '\n' then done ++ "\n" ++ margin else done.push c) ""

end Listing

namespace Module

open Listing

/-! ## Records -/

/-- A struct handle as text. -/
def showStructHandle (m : Module) (h : StructHandle) : Except Fault String := do
  return (if h.isResource then "resource " else "") ++ (← m.structFullName h)

/-- A token as text, struct handles by name. -/
def showToken (m : Module) : Token → Except Fault String
  | .reference mutable target => do
    return Token.referenceSign mutable ++ " " ++ (← m.showToken target)
  | .anyReference mutable => .ok (Token.referenceSign mutable)
  | .struct handle => do
    let h ← m.structHandles.get handle
    return "struct " ++ (← m.showStructHandle h.record)
  | .anyStruct => .ok "struct"
  | token => .ok token.text

/-- Tokens in order, between commas. -/
def showTokens (m : Module) (tokens : List Token) : Except Fault String := do
  return String.intercalate ", " (← tokens.mapM m.showToken)

/-- A signature as text. -/
def showSignature (m : Module) (s : FunctionSignature) : Except Fault String := do
  let params ← m.showTokens s.params
  let returns ← m.showTokens s.returns
  return "(" ++ params ++ "): (" ++ returns ++ ")"

/-- A function handle as text: its module, its bare name and its signature. -/
def showFunctionHandle (m : Module) (h : FunctionHandle) : Except Fault String := do
  let owner ← m.moduleHandles.get h.owner
  let signature ← m.showSignature (← m.signatureOf h)
  let ownerName ← m.moduleFullName owner.record
  return ownerName ++ "." ++ (← m.string h.name) ++ signature

/-- The name and the type of a field. -/
def showField (m : Module) (d : FieldDef) : Except Fault String := do
  let name ← m.fieldName d
  let type ← m.showToken (← m.fieldType d)
  return name ++ ": " ++ type

/-- A struct definition as text. -/
def showStructDef (m : Module) (d : StructDef) : Except Fault String := do
  let h ← m.structHandles.get d.handle
  let fields ← (← m.fieldsOf d).mapM fun f => m.showField f.record
  let handle ← m.showStructHandle h.record
  return handle ++ " \x7b" ++ String.intercalate ", " fields ++ "\x7d"

/-- A field definition as text. -/
def showFieldDef (m : Module) (d : FieldDef) : Except Fault String := do
  let owner ← m.structName (← m.structHandles.get d.owner).record
  return owner ++ "." ++ (← m.showField d)

/-! ## Instructions -/

/-- The operand of an instruction at `address`; branches show the address they go to. -/
def showOperand (m : Module) (i : Instruction) (address : Int) : Except Fault String := do
  match i.operand with
  | none => return ""
  | some ⟨kind, value⟩ =>
    match kind with
    | .branch => return "0x" ++ Text.hex (address + i.jump)
    | .immediate => return "0x" ++ Text.hex value
    | .localVar => return s!"@{value}"
    | .address => return addressText (← m.addresses.get value).record
    | .bytearray => return bytearrayText (← m.bytearrays.get value).record
    | .string => return Text.quoteJson (← m.string value)
    | .fieldDef => m.fieldName (← m.fieldDefs.get value).record
    | .functionHandle => m.functionName (← m.functionHandles.get value).record
    | .structDef => m.structDefName (← m.structDefs.get value).record
    | .none => return toString value

/-- An instruction at `address` behind its stack depths. -/
def showInstruction (m : Module) (i : Instruction) (address : Int) : Except Fault String := do
  let operand ← m.showOperand i address
  let text := i.opcode.mnemonic ++ (if operand.isEmpty then "" else " " ++ operand)
  return s!"[{i.depthBefore},{i.depthAfter}]   " ++ text

/-! ## Functions -/

/-- The lines of a function's body. -/
def showCode (m : Module) (f : Entry FunctionDef) : Except Fault (List String) := do
  let localTypes ← m.showTokens (← m.localsOf f.record)
  let lines ← f.record.code.instructions.mapM fun i => do
    return Text.decimalPadded 4 i.index ++ ": " ++
      (← m.showInstruction i (f.mapping.start + i.offset))
  return s!"max_stack_size: {f.record.code.maxStack}" :: ("locals: " ++ localTypes) :: lines

/-- A function as text. -/
def showFunctionDef (m : Module) (f : Entry FunctionDef) : Except Fault String := do
  let flags := flagsText f.record.flags
  let handle ← m.showFunctionHandle (← m.handleOf f.record).record
  let lines ← m.showCode f
  let header := if flags.isEmpty then handle else flags ++ " " ++ handle
  return String.intercalate "\n" (header :: lines.map (indent ++ ·))

/-- The signature and the locals of the first function that starts at an address. -/
def comment? (m : Module) (address : Int) : Except Fault (Option String) := do
  match m.internalFunctions.find? (·.mapping.start == address) with
  | none => return none
  | some f =>
    let signature ← m.signatureOf (← m.handleOf f.record).record
    let localTypes ← m.localsOf f.record
    return some ("Move signature: " ++ (← m.showSignature signature) ++ " / Locals: " ++
      (← m.showTokens localTypes))

/-- The listing of a function: its name, a comment and its instructions at their addresses. -/
def disassemble (m : Module) (f : Entry FunctionDef) : Except Fault String := do
  let name ← m.nameOf f.record
  let header := Text.trim (flagsText f.record.flags ++ " " ++ name) ++ ":"
  let comment ← m.comment? f.mapping.start
  let lines ← f.record.code.instructions.mapM fun i => do
    let address := f.mapping.start + i.offset
    return indent ++ Text.hexPadded 8 address ++ "  " ++ (← m.showInstruction i address)
  let commentLines := comment.toList.map fun c => indent ++ "# " ++ c
  return String.intercalate "\n" (header :: commentLines ++ lines)

/-- The listings of the functions called `name`, or of all functions if `name` is empty. -/
def disassembly (m : Module) (name : String) : Except Fault String := do
  let listings ← (← m.selectFunctions name).mapM m.disassemble
  return String.intercalate "\n\n" listings

end Module

end MoveBytecode
