import MoveBytecode.Text.Hex

/-!
# UTF-8

Strict decoding: no overlong forms, no surrogates, nothing above U+10FFFF. A byte string that is
not UTF-8 has a first defect, described by where the bad sequence starts, how many bytes belong to
it and what is wrong with it.
-/

namespace MoveBytecode.Text.Utf8

/-- What is wrong with a sequence. -/
inductive Reason where
  /-- The byte cannot start a sequence. -/
  | start
  /-- A byte cannot continue the sequence before it. -/
  | continuation
  /-- The bytes end inside the sequence. -/
  | truncated
  deriving DecidableEq, Repr

/-- The wording of a reason. -/
def Reason.text : Reason → String
  | .start => "invalid start byte"
  | .continuation => "invalid continuation byte"
  | .truncated => "unexpected end of data"

/-- A bad sequence: its first byte, where that byte stands, how many bytes belong to the sequence
and what is wrong with it. -/
structure Defect where
  lead : UInt8
  position : Nat
  length : Nat
  reason : Reason
  deriving DecidableEq, Repr

/-- The wording of a defect; a sequence of several bytes is named by its first and last
position. -/
def Defect.message (d : Defect) : String :=
  let where_ :=
    if d.length = 1 then
      "byte 0x" ++ String.ofList (hexLowerFixed 2 d.lead.toNat) ++ s!" in position {d.position}"
    else s!"bytes in position {d.position}-{d.position + d.length - 1}"
  "'utf-8' codec can't decode " ++ where_ ++ ": " ++ d.reason.text

/-- A sequence that has begun: its first byte and position, the bytes still owed, and the range of
the next one. -/
structure Pending where
  lead : UInt8
  position : Nat
  owed : Nat
  low : UInt8 := 0x80
  high : UInt8 := 0xBF

/-- The sequence that a byte of 0x80 or more begins, if it can begin one. -/
def Pending.ofLead? (position : Nat) (b : UInt8) : Option Pending :=
  if 0xC2 ≤ b ∧ b ≤ 0xDF then some ⟨b, position, 1, 0x80, 0xBF⟩
  else if b = 0xE0 then some ⟨b, position, 2, 0xA0, 0xBF⟩
  else if b = 0xED then some ⟨b, position, 2, 0x80, 0x9F⟩
  else if 0xE1 ≤ b ∧ b ≤ 0xEF then some ⟨b, position, 2, 0x80, 0xBF⟩
  else if b = 0xF0 then some ⟨b, position, 3, 0x90, 0xBF⟩
  else if 0xF1 ≤ b ∧ b ≤ 0xF3 then some ⟨b, position, 3, 0x80, 0xBF⟩
  else if b = 0xF4 then some ⟨b, position, 3, 0x80, 0x8F⟩
  else none

/-- The first defect of the bytes from `position` on, `pending` being the sequence they stand
in. -/
def defectFrom (pending : Option Pending) (position : Nat) : List UInt8 → Option Defect
  | [] => pending.map fun p => ⟨p.lead, p.position, position - p.position, .truncated⟩
  | b :: rest =>
    match pending with
    | none =>
      if b < 0x80 then defectFrom none (position + 1) rest
      else
        match Pending.ofLead? position b with
        | none => some ⟨b, position, 1, .start⟩
        | some p => defectFrom (some p) (position + 1) rest
    | some p =>
      if p.low ≤ b ∧ b ≤ p.high then
        if p.owed ≤ 1 then defectFrom none (position + 1) rest
        else defectFrom (some ⟨p.lead, p.position, p.owed - 1, 0x80, 0xBF⟩) (position + 1) rest
      else some ⟨p.lead, p.position, position - p.position, .continuation⟩

/-- The first defect of a byte string that is not UTF-8. -/
def firstDefect (bytes : Bytes) : Defect :=
  (defectFrom none 0 bytes.toList).getD ⟨0, 0, 1, .start⟩

/-- The text whose UTF-8 form is `bytes`, or the first defect. -/
def decode (bytes : Bytes) : Except Defect String :=
  match String.fromUTF8? ⟨bytes⟩ with
  | some text => .ok text
  | none => .error (firstDefect bytes)

end MoveBytecode.Text.Utf8
