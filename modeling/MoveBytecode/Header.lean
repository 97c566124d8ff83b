import MoveBytecode.Fault

/-!
# The header

A binary starts with one of two magic texts and the version of its format, which has to be 1.0.
The directory of tables follows at offset 10.
-/

namespace MoveBytecode

/-- The magic texts. -/
inductive Magic where
  | libra
  | diem
  deriving DecidableEq, Repr

namespace Magic

/-- The characters of a magic text. -/
def text : Magic → String
  | .libra => "LIBRAVM\n"
  | .diem => "DIEMVM\n"

/-- The bytes of a magic text. -/
def bytes (m : Magic) : Bytes := Bytes.ofText m.text

/-- Whether a binary starts with a magic text. -/
def starts (m : Magic) (data : Bytes) : Bool :=
  m.bytes.isPrefixOf data

end Magic

namespace Header

/-- Where the version stands. -/
def versionOffset : Nat := 8

/-- How many bytes a header has. -/
def size : Nat := 10

/-- The magic text of a binary, by the bytes it starts with. -/
def magic? (data : Bytes) : Option Magic :=
  [Magic.libra, Magic.diem].find? (·.starts data)

/-- The magic text of a binary of version 1.0; input that is too short is refused first, then input
without a magic text, then another version. -/
def check (data : Bytes) : Except Fault Magic :=
  if data.size < size then .error (.headerTooShort data.size)
  else
    match magic? data with
    | none => .error .magicUnknown
    | some magic =>
      let major := (data.getD versionOffset 0).toNat
      let minor := (data.getD (versionOffset + 1) 0).toNat
      if major = 1 ∧ minor = 0 then .ok magic else .error (.versionUnsupported major minor)

/-- Whether a byte string has the header of a binary. -/
def identify (data : Bytes) : Bool :=
  match check data with
  | .ok _ => true
  | .error _ => false

end Header

end MoveBytecode
