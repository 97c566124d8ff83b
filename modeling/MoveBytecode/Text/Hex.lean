import MoveBytecode.Bytes

/-!
# Hexadecimal text

Numbers are written in base sixteen with capital digits, a sign in front of negative ones, and on
request with zeros between sign and digits up to a least width. Byte strings are written with two
digits an octet, in either case.
-/

namespace MoveBytecode.Text

/-- The digit of value `n`, for `n` below sixteen. -/
def hexDigit (n : Nat) : Char :=
  if n < 10 then Char.ofNat ('0'.toNat + n) else Char.ofNat ('A'.toNat + (n - 10))

/-- The same digit in the lower case. -/
def hexDigitLower (n : Nat) : Char :=
  if n < 10 then Char.ofNat ('0'.toNat + n) else Char.ofNat ('a'.toNat + (n - 10))

/-- The digits of `n` in base sixteen, the highest first; zero has one digit. -/
def hexDigits (n : Nat) : List Char :=
  if n < 16 then [hexDigit n] else hexDigits (n / 16) ++ [hexDigit (n % 16)]
termination_by n
decreasing_by omega

/-- The sign that stands before the digits of `z`. -/
def signOf (z : Int) : List Char :=
  if z < 0 then ['-'] else []

/-- Sign and digits with zeros between them, at least `width` characters in all. -/
def padDigits (width : Nat) (sign digits : List Char) : String :=
  String.ofList (sign ++ List.replicate (width - (sign.length + digits.length)) '0' ++ digits)

/-- `z` in base sixteen, after its sign. -/
def hex (z : Int) : String :=
  padDigits 0 (signOf z) (hexDigits z.natAbs)

/-- `z` in base sixteen, at least `width` characters wide. -/
def hexPadded (width : Nat) (z : Int) : String :=
  padDigits width (signOf z) (hexDigits z.natAbs)

/-- `z` in base ten, at least `width` characters wide. -/
def decimalPadded (width : Nat) (z : Int) : String :=
  padDigits width (signOf z) (toString z.natAbs).toList

/-- `n` in base sixteen with lower-case digits, exactly `width` of them for `n` below
`16 ^ width`. -/
def hexLowerFixed : (width : Nat) → Nat → List Char
  | 0, _ => []
  | width + 1, n => hexLowerFixed width (n / 16) ++ [hexDigitLower (n % 16)]

/-- Two capital digits for every byte. -/
def hexBytes (bytes : Bytes) : String :=
  bytes.foldl
    (fun text byte =>
      (text.push (hexDigit (byte.toNat / 16))).push (hexDigit (byte.toNat % 16))) ""

/-- Two lower-case digits for every byte. -/
def hexBytesLower (bytes : Bytes) : String :=
  bytes.foldl
    (fun text byte =>
      (text.push (hexDigitLower (byte.toNat / 16))).push (hexDigitLower (byte.toNat % 16))) ""

end MoveBytecode.Text
