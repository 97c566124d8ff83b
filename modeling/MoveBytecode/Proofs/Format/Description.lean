import Mathlib.Tactic.MkIffOfInductiveProp
import MoveBytecode.Load.Table
import MoveBytecode.Proofs.Format.Assembly
import MoveBytecode.Proofs.Loading.Records
import MoveBytecode.Proofs.Reading.Body

/-!
# Descriptions of binaries

A `Description` is what a binary says, free of the bytes that say it: the records of each table in order,
with functions as lists of opcodes and operands. `Description.IsBinary` relates it to its encodings:
the header, a directory with one entry for each table that is not empty, in any order, and the tables
wherever the directory places them. `Description.Describes` relates it to a module that holds
exactly what it says.

What tables have in common is stated once for all kinds, with `Contents` as the type of the records
of a kind.
-/

namespace MoveBytecode

/-- All kinds of tables are listed. -/
theorem TableKind.mem_all (kind : TableKind) : kind ∈ TableKind.all := by
  cases kind <;> decide

/-- The records of a table of some kind, functions being of type `F`. -/
def Contents (F : Type) : TableKind → Type
  | .moduleHandles => ModuleHandle
  | .structHandles => StructHandle
  | .functionHandles => FunctionHandle
  | .addressPool | .bytearrayPool => Bytes
  | .stringPool => String
  | .structDefs => StructDef
  | .fieldDefs => FieldDef
  | .typeSignatures => Token
  | .functionSignatures => FunctionSignature
  | .localSignatures => List Token
  | .functionDefs | .main => F

/-- The entries of a table of a module without their addresses: what was read from the file. -/
def Module.table (m : Module) : (kind : TableKind) → List (Entry (Contents FunctionDef kind))
  | .moduleHandles => m.moduleHandles.unmapped
  | .structHandles => m.structHandles.unmapped
  | .functionHandles => m.functionHandles.unmapped
  | .addressPool => m.addresses.unmapped
  | .bytearrayPool => m.bytearrays.unmapped
  | .stringPool => m.strings.unmapped
  | .structDefs => m.structDefs.unmapped
  | .fieldDefs => m.fieldDefs.unmapped
  | .typeSignatures => m.typeSignatures.unmapped
  | .functionSignatures => m.functionSignatures.unmapped
  | .localSignatures => m.localSignatures.unmapped
  | .functionDefs => m.functionDefs.unmapped
  | .main => (m.main.map Entry.unmapped).toList

namespace Token

/-- How many references stand around the innermost token. -/
def nesting : Token → Nat
  | .reference _ target => target.nesting + 1
  | _ => 0

/-- Tokens that signatures can hold: references have targets, and structs have handles. -/
def isComplete : Token → Bool
  | .reference _ target => target.isComplete
  | .anyReference _ | .anyStruct => false
  | _ => true

end Token

namespace Format

/-- An instruction as it is written: its opcode, and a number if the opcode has an operand. -/
structure Command where
  opcode : Opcode
  operand : Option Nat
  deriving DecidableEq, Repr

/-- A function as it is written. -/
structure Procedure where
  handle : Nat
  flags : Nat
  maxStack : Nat
  locals : Nat
  body : List Command
  deriving DecidableEq, Repr

/-- The functions of a binary: any number of definitions, or the function of a script. -/
inductive Code where
  | functions (definitions : List Procedure)
  | main (procedure : Procedure)
  deriving DecidableEq, Repr

namespace Code

/-- The function definitions. -/
def definitions : Code → List Procedure
  | .functions definitions => definitions
  | .main _ => []

/-- The function of a script. -/
def main? : Code → Option Procedure
  | .functions _ => none
  | .main procedure => some procedure

end Code

/-- What a binary says. -/
structure Description where
  moduleHandles : List ModuleHandle
  structHandles : List StructHandle
  functionHandles : List FunctionHandle
  addresses : List Bytes
  strings : List String
  bytearrays : List Bytes
  structDefs : List StructDef
  fieldDefs : List FieldDef
  typeSignatures : List Token
  functionSignatures : List FunctionSignature
  localSignatures : List (List Token)
  code : Code
  deriving DecidableEq, Repr

/-! ## Bytes -/

/-- The bytes of an operand of some kind. -/
def operandBytes : OperandKind → Nat → List UInt8
  | .none, _ => []
  | .branch, value => littleEndian 2 value
  | .immediate, value => littleEndian 8 value
  | .localVar, value => [UInt8.ofNat value]
  | _, value => encodeUleb128 value

/-- The bytes of an instruction. -/
def Command.bytes (c : Command) : List UInt8 :=
  c.opcode.code :: (c.operand.map (operandBytes c.opcode.operandKind)).getD []

/-- The bytes of what stands in front of a body. -/
def Procedure.head (p : Procedure) : List UInt8 :=
  encodeUleb128 p.handle ++ ([UInt8.ofNat p.flags] ++ (encodeUleb128 p.maxStack ++
    (encodeUleb128 p.locals ++ littleEndian 2 p.body.length)))

/-- The bytes of a function. -/
def Procedure.bytes (p : Procedure) : List UInt8 := p.head ++ p.body.flatMap Command.bytes

/-- The bytes of a length and of what is that long. -/
def lengthPrefixed (bytes : List UInt8) : List UInt8 := encodeUleb128 bytes.length ++ bytes

/-- The bytes of a record. Signatures have the bytes that their encoders write, and none where an
encoder refuses. -/
def recordBytes : (kind : TableKind) → Contents Procedure kind → List UInt8
  | .moduleHandles, (h : ModuleHandle) => encodeUleb128 h.address ++ encodeUleb128 h.name
  | .structHandles, (h : StructHandle) =>
    encodeUleb128 h.owner ++ (encodeUleb128 h.name ++ [if h.isResource then 1 else 0])
  | .functionHandles, (h : FunctionHandle) =>
    encodeUleb128 h.owner ++ (encodeUleb128 h.name ++ encodeUleb128 h.signature)
  | .addressPool, (value : Bytes) => value.toList
  | .bytearrayPool, (value : Bytes) => lengthPrefixed value.toList
  | .stringPool, (text : String) => lengthPrefixed (Bytes.ofText text).toList
  | .structDefs, (d : StructDef) =>
    encodeUleb128 d.handle ++ (encodeUleb128 d.fieldCount ++ encodeUleb128 d.firstField)
  | .fieldDefs, (d : FieldDef) =>
    encodeUleb128 d.owner ++ (encodeUleb128 d.name ++ encodeUleb128 d.type)
  | .typeSignatures, (token : Token) => (Signature.encodeType token).toOption.getD []
  | .functionSignatures, (s : FunctionSignature) => (Signature.encodeFunction s).toOption.getD []
  | .localSignatures, (tokens : List Token) => (Signature.encodeLocals tokens).toOption.getD []
  | .functionDefs, (p : Procedure) => p.bytes
  | .main, (p : Procedure) => p.bytes

namespace Description

/-- The records of a table in order. -/
def items (d : Description) : (kind : TableKind) → List (Contents Procedure kind)
  | .moduleHandles => d.moduleHandles
  | .structHandles => d.structHandles
  | .functionHandles => d.functionHandles
  | .addressPool => d.addresses
  | .bytearrayPool => d.bytearrays
  | .stringPool => d.strings
  | .structDefs => d.structDefs
  | .fieldDefs => d.fieldDefs
  | .typeSignatures => d.typeSignatures
  | .functionSignatures => d.functionSignatures
  | .localSignatures => d.localSignatures
  | .functionDefs => d.code.definitions
  | .main => d.code.main?.toList

/-- The bytes of a table: those of its records in order. -/
def table (d : Description) (kind : TableKind) : List UInt8 :=
  (d.items kind).flatMap (recordBytes kind)

/-- The kinds of the tables that have records. -/
def kinds (d : Description) : List TableKind :=
  TableKind.all.filter fun kind => !(d.items kind).isEmpty

/-- A binary with this magic text and these directory entries: a header and the directory, one entry
for each table with records, in any order, and each table where its entry says. -/
structure IsBinary (d : Description) (magic : Magic) (sections : List Section) (data : Bytes) :
    Prop where
  front : header magic ++ directory sections <+: data.toList
  kinds : (sections.map (·.kind)).Perm d.kinds
  tables : ∀ s ∈ sections, s.offset + s.size ≤ data.size ∧
    (data.window s.offset s.size).toList = d.table s.kind
  size : data.size < 2 ^ 31

/-- The binary whose directory lists tables in some order, the tables one behind the other in the same
order. -/
def encode (d : Description) (magic : Magic) (order : List TableKind) : Bytes :=
  assemble magic (order.map fun kind => ⟨kind, d.table kind⟩)

/-! ## What may be described -/

/-- The signature of a function, by the number of its handle. -/
def signature (d : Description) (handle : Nat) : FunctionSignature :=
  (d.functionHandles[handle]?.bind fun h => d.functionSignatures[h.signature]?).getD ⟨[], []⟩

/-- How many fields a struct of the binary has. -/
def fieldCount (d : Description) (structDef : Nat) : Nat :=
  (d.structDefs[structDef]?.map (·.fieldCount)).getD 0

/-- How many locals a function has. -/
def localCount (d : Description) (p : Procedure) : Nat :=
  (d.localSignatures[p.locals]?.map List.length).getD 0

/-- How many values an instruction of a function takes from the stack and how many it puts there. -/
def effect (d : Description) (p : Procedure) (c : Command) : Nat × Nat :=
  match c.opcode with
  | .ret => ((d.signature p.handle).returns.length, 0)
  | .pack => (d.fieldCount (c.operand.getD 0), 1)
  | .unpack => (1, d.fieldCount (c.operand.getD 0))
  | .call =>
    ((d.signature (c.operand.getD 0)).params.length, (d.signature (c.operand.getD 0)).returns.length)
  | opcode => (opcode.pops.count?.getD 0, opcode.pushes.count?.getD 0)

/-- The stack depth behind instructions from a depth on, unless one of them takes more values than
there are. -/
def depthBehind? (d : Description) (p : Procedure) : (depth : Nat) → List Command → Option Nat
  | depth, [] => some depth
  | depth, c :: rest =>
    let (pops, pushes) := d.effect p c
    if depth < pops then none else depthBehind? d p (depth - pops + pushes) rest

/-- How many things an operand of some kind may refer to in a function. -/
def bound (d : Description) (p : Procedure) : OperandKind → Nat
  | .none => 0
  | .branch => p.body.length
  | .immediate => 2 ^ 64
  | .localVar => d.localCount p
  | .address => d.addresses.length
  | .bytearray => d.bytearrays.length
  | .string => d.strings.length
  | .functionHandle => d.functionHandles.length
  | .fieldDef => d.fieldDefs.length
  | .structDef => d.structDefs.length

/-- A token that a signature may hold: not too deep, of structs that are there. -/
@[mk_iff]
structure AdmitsToken (d : Description) (token : Token) : Prop where
  complete : token.isComplete = true
  nesting : token.nesting ≤ Token.maxDepth
  handles : ∀ handle ∈ token.handles, 0 ≤ handle ∧ handle < d.structHandles.length

/-- A list of tokens that a signature may hold. -/
@[mk_iff]
structure AdmitsTokens (d : Description) (tokens : List Token) : Prop where
  length : tokens.length ≤ 0xFF
  token : ∀ token ∈ tokens, d.AdmitsToken token

/-- A function that a description may hold: what it refers to is there, the stack depth never falls
below zero along its body and ends at zero, and its branches stay inside. -/
@[mk_iff]
structure AdmitsProcedure (d : Description) (p : Procedure) : Prop where
  handle : p.handle < d.functionHandles.length
  locals : p.locals < d.localSignatures.length
  flags : p.flags ≤ 0xFF
  length : p.body.length ≤ 0xFFFF
  isSome : ∀ c ∈ p.body, c.operand.isSome = true ↔ c.opcode.operandKind ≠ .none
  operand : ∀ c ∈ p.body, ∀ value ∈ c.operand, value < d.bound p c.opcode.operandKind
  balanced : d.depthBehind? p 0 p.body = some 0

/-- The records that a description may hold: what they refer to is there, and what has a length is not
too long. -/
def Admits (d : Description) : (kind : TableKind) → Contents Procedure kind → Prop
  | .moduleHandles, (h : ModuleHandle) =>
    h.address < d.addresses.length ∧ h.name < d.strings.length
  | .structHandles, (h : StructHandle) =>
    h.owner < d.moduleHandles.length ∧ h.name < d.strings.length
  | .functionHandles, (h : FunctionHandle) =>
    h.owner < d.moduleHandles.length ∧ h.name < d.strings.length ∧
      h.signature < d.functionSignatures.length
  | .addressPool, (value : Bytes) => value.size = Table.addressLength
  | .bytearrayPool, (value : Bytes) => value.size ≤ 0xFFFF
  | .stringPool, (text : String) => (Bytes.ofText text).size ≤ 0xFFFF
  | .structDefs, (s : StructDef) =>
    s.handle < d.structHandles.length ∧ s.firstField + s.fieldCount ≤ d.fieldDefs.length
  | .fieldDefs, (f : FieldDef) =>
    f.owner < d.structHandles.length ∧ f.name < d.strings.length ∧ f.type < d.typeSignatures.length
  | .typeSignatures, (token : Token) => d.AdmitsToken token
  | .functionSignatures, (s : FunctionSignature) =>
    d.AdmitsTokens s.returns ∧ d.AdmitsTokens s.params
  | .localSignatures, (tokens : List Token) => d.AdmitsTokens tokens
  | .functionDefs, (p : Procedure) => d.AdmitsProcedure p
  | .main, (p : Procedure) => d.AdmitsProcedure p

/-- A description of admitted records; that of a script defines no structs and no fields. -/
structure WellFormed (d : Description) : Prop where
  items : ∀ kind, ∀ item ∈ d.items kind, d.Admits kind item
  script : d.code.main?.isSome = true → d.structDefs = [] ∧ d.fieldDefs = []

/-- Whether a description admits a token can be decided. -/
instance (d : Description) (token : Token) : Decidable (d.AdmitsToken token) :=
  decidable_of_iff' _ (admitsToken_iff d token)

/-- Whether a description admits tokens can be decided. -/
instance (d : Description) (tokens : List Token) : Decidable (d.AdmitsTokens tokens) :=
  decidable_of_iff' _ (admitsTokens_iff d tokens)

/-- Whether a description admits a procedure can be decided. -/
instance (d : Description) (p : Procedure) : Decidable (d.AdmitsProcedure p) :=
  decidable_of_iff' _ (admitsProcedure_iff d p)

/-- Whether a description admits a record can be decided. -/
instance (d : Description) : (kind : TableKind) → (item : Contents Procedure kind) →
    Decidable (d.Admits kind item)
  | .moduleHandles, _ | .structHandles, _ | .structDefs, _ => inferInstanceAs (Decidable (_ ∧ _))
  | .functionHandles, _ | .fieldDefs, _ => inferInstanceAs (Decidable (_ ∧ _ ∧ _))
  | .addressPool, _ => inferInstanceAs (Decidable (_ = _))
  | .bytearrayPool, _ | .stringPool, _ => inferInstanceAs (Decidable (_ ≤ _))
  | .typeSignatures, (token : Token) => inferInstanceAs (Decidable (d.AdmitsToken token))
  | .functionSignatures, (s : FunctionSignature) =>
    inferInstanceAs (Decidable (d.AdmitsTokens s.returns ∧ d.AdmitsTokens s.params))
  | .localSignatures, (tokens : List Token) => inferInstanceAs (Decidable (d.AdmitsTokens tokens))
  | .functionDefs, (p : Procedure) | .main, (p : Procedure) =>
    inferInstanceAs (Decidable (d.AdmitsProcedure p))

/-- Whether a description is well-formed can be decided. -/
instance (d : Description) : Decidable d.WellFormed :=
  decidable_of_iff ((∀ kind ∈ TableKind.all, ∀ item ∈ d.items kind, d.Admits kind item) ∧
      (d.code.main?.isSome = true → d.structDefs = [] ∧ d.fieldDefs = []))
    ⟨fun h => ⟨fun kind => h.1 kind (TableKind.mem_all kind), h.2⟩,
      fun h => ⟨fun kind _ => h.items kind, h.script⟩⟩

/-- The numbers of an instruction that are written in groups of seven bits. -/
def commandNumbers (c : Command) : List Nat :=
  match c.opcode.operandKind with
  | .none | .branch | .immediate | .localVar => []
  | _ => c.operand.toList

/-- The numbers of a record that are written in groups of seven bits, lengths apart. -/
def numbers : (kind : TableKind) → Contents Procedure kind → List Nat
  | .moduleHandles, (h : ModuleHandle) => [h.address, h.name]
  | .structHandles, (h : StructHandle) => [h.owner, h.name]
  | .functionHandles, (h : FunctionHandle) => [h.owner, h.name, h.signature]
  | .addressPool, _ | .bytearrayPool, _ | .stringPool, _ => []
  | .structDefs, (s : StructDef) => [s.handle, s.fieldCount, s.firstField]
  | .fieldDefs, (f : FieldDef) => [f.owner, f.name, f.type]
  | .typeSignatures, (token : Token) => token.handles.map Int.toNat
  | .functionSignatures, (s : FunctionSignature) =>
    (s.returns ++ s.params).flatMap fun token => token.handles.map Int.toNat
  | .localSignatures, (tokens : List Token) =>
    tokens.flatMap fun token => token.handles.map Int.toNat
  | .functionDefs, (p : Procedure) | .main, (p : Procedure) =>
    p.handle :: p.maxStack :: p.locals :: p.body.flatMap commandNumbers

/-- Every number that is written in groups of seven bits has at most 16 bits. -/
def Fits (d : Description) : Prop :=
  ∀ kind, ∀ item ∈ d.items kind, ∀ n ∈ numbers kind item, n ≤ 0xFFFF

/-- Whether a description fits into a binary can be decided. -/
instance (d : Description) : Decidable d.Fits :=
  decidable_of_iff (∀ kind ∈ TableKind.all, ∀ item ∈ d.items kind, ∀ n ∈ numbers kind item, n ≤ 0xFFFF)
    ⟨fun h kind => h kind (TableKind.mem_all kind), fun h kind _ => h kind⟩

/-! ## What a module holds of a description -/

/-- The instructions of a function one behind the other: from number `index`, from `offset` bytes
behind the start of the body and from a stack depth on. -/
def listing (d : Description) (p : Procedure) :
    (index offset depth : Nat) → List Command → List Instruction
  | _, _, _, [] => []
  | index, offset, depth, c :: rest =>
    let (pops, pushes) := d.effect p c
    let i : Instruction :=
      { opcode := c.opcode, raw := c.bytes.toArray, index, offset,
        operand := c.operand.map (Operand.mk c.opcode.operandKind),
        depthBefore := depth, depthAfter := depth - pops + pushes, branchDelta := none }
    i :: listing d p (index + 1) (offset + c.bytes.length) (depth - pops + pushes) rest

/-- The instructions of a function, its branches with their distances. -/
def instructions (d : Description) (p : Procedure) : List Instruction :=
  let body := d.listing p 0 0 0 p.body
  body.map fun i => i.withDelta (Body.deltaIn body.toArray i)

/-- A function that stands at `start`. -/
def function (d : Description) (p : Procedure) (start : Nat) : FunctionDef :=
  ⟨p.handle, p.flags, ⟨p.maxStack, p.locals, d.instructions p, start + p.head.length⟩⟩

/-- The record that an item at `start` stands for. -/
def record (d : Description) (start : Nat) :
    (kind : TableKind) → Contents Procedure kind → Contents FunctionDef kind
  | .moduleHandles, (h : ModuleHandle) => h
  | .structHandles, (h : StructHandle) => h
  | .functionHandles, (h : FunctionHandle) => h
  | .addressPool, (value : Bytes) => value
  | .bytearrayPool, (value : Bytes) => value
  | .stringPool, (text : String) => text
  | .structDefs, (s : StructDef) => s
  | .fieldDefs, (f : FieldDef) => f
  | .typeSignatures, (token : Token) => token
  | .functionSignatures, (s : FunctionSignature) => s
  | .localSignatures, (tokens : List Token) => tokens
  | .functionDefs, (p : Procedure) | .main, (p : Procedure) => d.function p start

/-- The entries of records that stand one behind the other in the file: from number `index` and file
offset `start` on. -/
def entries (d : Description) (kind : TableKind) : (index start : Nat) →
    List (Contents Procedure kind) → List (Entry (Contents FunctionDef kind))
  | _, _, [] => []
  | index, start, item :: rest =>
    ⟨index, ⟨start, (recordBytes kind item).length⟩, .unplaced, d.record start kind item⟩ ::
      entries d kind (index + 1) (start + (recordBytes kind item).length) rest

/-- Where the directory places the table of some kind. -/
def startOf (sections : List Section) (kind : TableKind) : Nat :=
  ((sections.find? (·.kind == kind)).map (·.offset)).getD 0

/-- What a binary is. -/
def kind (d : Description) : BinaryKind :=
  match d.code with
  | .main _ => .script
  | .functions definitions =>
    if definitions.isEmpty && d.structDefs.isEmpty && d.fieldDefs.isEmpty then .script else .library

/-- A module that holds what a description says, as a binary with these directory entries holds it:
every table has the described records in order, each with its position as its number and with its bytes
as its place in the file. -/
structure Describes (d : Description) (magic : Magic) (sections : List Section) (m : Module) :
    Prop where
  magic : m.magic = magic
  directory : m.sections = sections
  kind : m.kind = d.kind
  tables : ∀ kind, m.table kind = d.entries kind 0 (startOf sections kind) (d.items kind)

end Description

end Format

end MoveBytecode
