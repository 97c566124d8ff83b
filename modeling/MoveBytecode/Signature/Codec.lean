import MoveBytecode.Cursor
import MoveBytecode.Record

/-!
# Signatures as bytes

A token is a byte for its type, followed by the token that a reference points to or by the number
of a struct's handle. A list of tokens is a byte for its length and the tokens. A signature is a
byte for its kind and then one token, two lists or one list. Reading and writing use the same
bytes; tokens nested deeper than 64 references are refused when read.
-/

namespace MoveBytecode

namespace Token

/-- How many references a token may have around its innermost token. -/
def maxDepth : Nat := 64

/-- The byte of a token's type. -/
def code : Token → UInt8
  | .bool => 0x01
  | .integer => 0x02
  | .string => 0x03
  | .address => 0x04
  | .reference false _ | .anyReference false => 0x05
  | .reference true _ | .anyReference true => 0x06
  | .struct _ | .anyStruct => 0x07
  | .bytearray => 0x08

/-- Reads a token of at most `room` nested tokens, itself included. -/
def readWithin : (room : Nat) → Reader Token
  | 0 => throw (.tokenTooDeep maxDepth)
  | room + 1 => do
    let byte ← Reader.u8
    if byte = 0x01 then return .bool
    else if byte = 0x02 then return .integer
    else if byte = 0x03 then return .string
    else if byte = 0x04 then return .address
    else if byte = 0x05 then return .reference false (← readWithin room)
    else if byte = 0x06 then return .reference true (← readWithin room)
    else if byte = 0x07 then return .struct (← Reader.varu16)
    else if byte = 0x08 then return .bytearray
    else throw (.typeByteUnknown byte)

/-- Reads a token that stands inside `depth` references. -/
def read (depth : Int) : Reader Token :=
  readWithin (maxDepth + 1 - depth).toNat

/-- The bytes of a token; references without a target and structs without a handle have none. -/
def encode : Token → Except Fault (List UInt8)
  | .reference mutable target => do
    return (Token.reference mutable target).code :: (← target.encode)
  | .anyReference mutable => .error (.referenceWithoutTarget mutable)
  | .struct handle => do
    return (Token.struct handle).code :: (← encodeVarint handle)
  | .anyStruct => .error .structWithoutHandle
  | token => .ok [token.code]

/-- Reads `count` tokens. -/
def readMany : (count : Nat) → Reader (List Token)
  | 0 => return []
  | count + 1 => do
    let token ← read 0
    return token :: (← readMany count)

/-- Reads a list of tokens. -/
def readList : Reader (List Token) := do
  readMany (← Reader.u8).toNat

/-- The bytes of a list of tokens, at most 255 of them. -/
def encodeList (tokens : List Token) : Except Fault (List UInt8) := do
  if 0xFF < tokens.length then throw (.tooManyTokens tokens.length)
  return UInt8.ofNat tokens.length :: (← tokens.mapM encode).flatten

end Token

namespace Signature

/-- Reads the byte of the kind `kind`. -/
def expectKind (kind : SignatureKind) : Reader Unit := do
  let byte ← Reader.u8
  if byte ≠ kind.code then throw (.signatureKindMismatch kind byte)

/-- Reads the signature of a field. -/
def readType : Reader Token := do
  expectKind .type
  Token.read 0

/-- Reads the signature of a function, what it returns before what it takes. -/
def readFunction : Reader FunctionSignature := do
  expectKind .function
  let returns ← Token.readList
  let params ← Token.readList
  return ⟨returns, params⟩

/-- Reads the signature of a function's locals. -/
def readLocals : Reader (List Token) := do
  expectKind .locals
  Token.readList

/-- The bytes of a field's signature. -/
def encodeType (token : Token) : Except Fault (List UInt8) := do
  return SignatureKind.type.code :: (← token.encode)

/-- The bytes of a function's signature. -/
def encodeFunction (s : FunctionSignature) : Except Fault (List UInt8) := do
  let returns ← Token.encodeList s.returns
  let params ← Token.encodeList s.params
  return SignatureKind.function.code :: (returns ++ params)

/-- The bytes of the signature of a function's locals. -/
def encodeLocals (tokens : List Token) : Except Fault (List UInt8) := do
  return SignatureKind.locals.code :: (← Token.encodeList tokens)

end Signature

end MoveBytecode
