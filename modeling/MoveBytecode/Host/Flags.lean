/-!
# Sets of flags

A set of flags is a number with a bit for each. A number below zero says which flags are off: those
of its complement, among the flags that there are, or among as many bits as the number has if it
reaches beyond them.
-/

namespace MoveBytecode

/-- A set of flags, each a bit. -/
abbrev Flags := Nat

/-- How many bits a number has. -/
def bitLength (n : Nat) : Nat := if n = 0 then 0 else n.log2 + 1

/-- The set of flags that a number stands for, where there are `width` flags. -/
def Flags.ofInt (width : Nat) (n : Int) : Flags :=
  if 0 ≤ n then n.toNat
  else if n.natAbs ≤ 1 <<< width then (1 <<< width) - n.natAbs
  else (1 <<< bitLength n.natAbs) - n.natAbs

namespace Flags

/-- A number that is not negative stands for itself. -/
theorem ofInt_natCast (width n : Nat) : ofInt width n = n := by
  simp [ofInt]

/-- Within the flags that there are, a number below zero stands for its residue. -/
theorem natCast_ofInt_of_neg (width : Nat) (n : Int) (low : -((1 <<< width : Nat) : Int) ≤ n)
    (high : n < 0) : (ofInt width n : Int) = (1 <<< width : Nat) + n := by
  unfold ofInt
  generalize 1 <<< width = flags at low ⊢
  rw [if_neg (by omega), if_pos (by omega)]
  omega

end Flags

end MoveBytecode
