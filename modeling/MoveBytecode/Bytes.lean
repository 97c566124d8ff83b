/-!
# Byte strings

Byte strings are arrays of octets. The two readings of a byte string as a number, lowest octet
first and highest octet first, are folds over its octets.
-/

namespace MoveBytecode

/-- A byte string. -/
abbrev Bytes := Array UInt8

namespace Bytes

/-- The number whose octets are `octets`, the lowest first. -/
def littleEndian (octets : List UInt8) : Nat :=
  octets.foldr (fun octet higher => octet.toNat + 256 * higher) 0

/-- The number whose octets are `octets`, the highest first. -/
def bigEndian (octets : List UInt8) : Nat :=
  octets.foldl (fun higher octet => 256 * higher + octet.toNat) 0

/-- The bytes `[start, start + count)` of `data`, as many of them as there are. -/
def window (data : Bytes) (start count : Nat) : Bytes :=
  data.extract start (start + count)

/-- The UTF-8 form of a text. -/
def ofText (text : String) : Bytes :=
  text.toUTF8.data

end Bytes

end MoveBytecode
