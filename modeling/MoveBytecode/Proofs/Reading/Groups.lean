import MoveBytecode.Proofs.Reading.Spelling

/-!
# The spellings of a number

A number has one shortest spelling in groups of seven bits, and `encodeUleb128` writes it. Every other
spelling is that one padded: its last byte goes on, and groups of zeros follow (`Groups.eq_padded`). So a
spelling is the shortest one iff nothing was padded (`isShortest_padded`).
-/

namespace MoveBytecode

/-! ## The spelling that is written -/

/-- What is written for a number stands for it. -/
theorem groups_encodeUleb128 (n : Nat) : Groups (encodeUleb128 n) n := by
  induction n using encodeUleb128.induct with
  | case1 n hlow =>
    have hlast : (UInt8.ofNat n).toNat < 0x80 := by rwa [Reader.toNat_lastGroup hlow]
    rw [encodeUleb128, if_pos hlow]
    simpa only [Reader.toNat_lastGroup hlow] using Groups.last hlast
  | case2 n hhigh ih =>
    have hmore : 0x80 ≤ (UInt8.ofNat (n % 0x80 + 0x80)).toNat := by
      rw [Reader.toNat_firstGroup]
      omega
    have hsum : n % 0x80 + 0x80 * (n / 0x80) = n := Nat.mod_add_div n 0x80
    rw [encodeUleb128, if_neg hhigh]
    simpa only [Reader.toNat_firstGroup, Nat.add_sub_cancel, hsum] using Groups.more hmore ih

/-- An integer from zero on is written as the number that it is. -/
theorem encodeVarint_of_nonneg {value : Int} (h : 0 ≤ value) :
    encodeVarint value = .ok (encodeUleb128 value.toNat) :=
  if_neg (Int.not_lt.mpr h)

/-- A number of many bits is written with many bytes that go on. -/
theorem exists_goOn_encodeUleb128 {count n : Nat} (h : 0x80 ^ count ≤ n) :
    ∃ octets rest, encodeUleb128 n = octets ++ rest ∧ GoOn octets ∧ octets.length = count := by
  induction count generalizing n with
  | zero => exact ⟨[], _, rfl, by simp [GoOn], rfl⟩
  | succ count ih =>
    rw [Nat.pow_succ] at h
    have hhigh : ¬ n < 0x80 := by
      have := Nat.pow_pos (n := count) (show 0 < 0x80 by decide)
      omega
    obtain ⟨octets, rest, hsplit, hgoOn, hlength⟩ := ih (n := n / 0x80) (by omega)
    refine ⟨UInt8.ofNat (n % 0x80 + 0x80) :: octets, rest, ?_, ?_, by rw [List.length_cons, hlength]⟩
    · rw [encodeUleb128, if_neg hhigh, hsplit, List.cons_append]
    · refine List.forall_mem_cons.mpr ⟨?_, hgoOn⟩
      rw [Reader.toNat_firstGroup]
      omega

/-! ## Padding -/

/-- The byte that goes on and has the seven bits of another. -/
def goingOn (byte : UInt8) : UInt8 := UInt8.ofNat (byte.toNat % 0x80 + 0x80)

/-- Groups of seven bits with `extra` groups of zeros behind them; only the last byte of all does not go
on. -/
def padded (octets : List UInt8) : (extra : Nat) → List UInt8
  | 0 => octets
  | extra + 1 => (octets ++ List.replicate extra 0).map goingOn ++ [0]

/-- A byte that goes on is itself the byte that goes on with its seven bits. -/
theorem goingOn_of_goesOn {byte : UInt8} (h : 0x80 ≤ byte.toNat) : goingOn byte = byte := by
  have hlt : byte.toNat < 256 := byte.toNat_lt
  rw [goingOn, show byte.toNat % 0x80 + 0x80 = byte.toNat by omega, UInt8.ofNat_toNat]

/-- Padded groups are as many more as there is padding. -/
@[simp] theorem length_padded (octets : List UInt8) (extra : Nat) :
    (padded octets extra).length = octets.length + extra := by
  cases extra with
  | zero => rfl
  | succ extra => simp [padded]

/-- A byte that goes on stays as it is in front of a padding. -/
theorem padded_cons {byte : UInt8} (h : 0x80 ≤ byte.toNat) (rest : List UInt8) (extra : Nat) :
    padded (byte :: rest) extra = byte :: padded rest extra := by
  cases extra with
  | zero => rfl
  | succ extra => simp [padded, goingOn_of_goesOn h]

/-- A group of zeros is one more group of a padding. -/
theorem padded_succ (byte : UInt8) (extra : Nat) :
    padded [byte] (extra + 1) = goingOn byte :: padded [0] extra := by
  cases extra with
  | zero => rfl
  | succ extra => simp [padded, List.replicate_succ]

/-- Every spelling of a number is the one that is written, padded. -/
theorem Groups.eq_padded {octets : List UInt8} {n : Nat} (h : Groups octets n) :
    ∃ extra, octets = padded (encodeUleb128 n) extra := by
  induction h with
  | @last byte hlow => exact ⟨0, by rw [padded, encodeUleb128, if_pos hlow, UInt8.ofNat_toNat]⟩
  | @more byte rest m hmore _ ih =>
    obtain ⟨extra, rfl⟩ := ih
    have hlt : byte.toNat < 256 := byte.toNat_lt
    rcases Nat.eq_zero_or_pos m with rfl | hm
    · -- Behind zero bits only, the byte is the last one that counts.
      have hlow : byte.toNat - 0x80 + 0x80 * 0 < 0x80 := by omega
      have hbyte : goingOn (UInt8.ofNat (byte.toNat - 0x80 + 0x80 * 0)) = byte := by
        rw [goingOn, Reader.toNat_lastGroup hlow,
          show (byte.toNat - 0x80 + 0x80 * 0) % 0x80 + 0x80 = byte.toNat by omega, UInt8.ofNat_toNat]
      have hzero : encodeUleb128 0 = [0] := by rw [encodeUleb128, if_pos (by decide)]; rfl
      refine ⟨extra + 1, ?_⟩
      rw [encodeUleb128.eq_1 (byte.toNat - 0x80 + 0x80 * 0), if_pos hlow, padded_succ, hbyte, hzero]
    · have hhigh : ¬ byte.toNat - 0x80 + 0x80 * m < 0x80 := by omega
      refine ⟨extra, ?_⟩
      rw [encodeUleb128.eq_1 (byte.toNat - 0x80 + 0x80 * m), if_neg hhigh,
        show (byte.toNat - 0x80 + 0x80 * m) % 0x80 + 0x80 = byte.toNat by omega,
        show (byte.toNat - 0x80 + 0x80 * m) / 0x80 = m by omega, UInt8.ofNat_toNat, padded_cons hmore]

/-- Padding leaves the number as it is. -/
theorem Groups.pad {octets : List UInt8} {n : Nat} (h : Groups octets n) (extra : Nat) :
    Groups (padded octets extra) n := by
  -- Zeros stand for zero, however many of them there are.
  have hzeros : ∀ extra, Groups (padded [0] extra) 0 := by
    intro extra
    induction extra with
    | zero => exact .last (by decide)
    | succ extra ih =>
      have hgoes : 0x80 ≤ (goingOn 0).toNat := by decide
      rw [padded_succ]
      exact .more hgoes ih
  induction h with
  | @last byte hlow =>
    cases extra with
    | zero => exact .last hlow
    | succ extra =>
      have hbyte : (goingOn byte).toNat = byte.toNat + 0x80 := by
        rw [goingOn, Reader.toNat_firstGroup, Nat.mod_eq_of_lt hlow]
      have hgoes : 0x80 ≤ (goingOn byte).toNat := by omega
      have hmore := Groups.more hgoes (hzeros extra)
      rw [padded_succ]
      rwa [hbyte, Nat.add_sub_cancel, Nat.mul_zero, Nat.add_zero] at hmore
  | more hmore _ ih =>
    rw [padded_cons hmore]
    exact .more hmore ih

/-- Groups of seven bits stand for one number. -/
theorem Groups.unique {octets : List UInt8} {n m : Nat} (hn : Groups octets n) (hm : Groups octets m) :
    n = m := by
  induction hn generalizing m with
  | last hlow =>
    cases hm with
    | last => rfl
    | more hmore => omega
  | more hmore _ ih =>
    cases hm with
    | last hlow => omega
    | more _ hrest => rw [ih hrest]

/-- No spelling of the number that groups of seven bits stand for has fewer bytes. -/
def IsShortest (octets : List UInt8) : Prop :=
  ∀ n other, Groups octets n → Groups other n → octets.length ≤ other.length

/-- A spelling is the shortest one iff nothing was padded. -/
theorem isShortest_padded {n extra : Nat} :
    IsShortest (padded (encodeUleb128 n) extra) ↔ extra = 0 := by
  have hgroups := (groups_encodeUleb128 n).pad extra
  constructor
  · intro hshortest
    have hle := hshortest n _ hgroups (groups_encodeUleb128 n)
    rw [length_padded] at hle
    omega
  · rintro rfl m other hm hother
    obtain rfl := hm.unique hgroups
    obtain ⟨extra, rfl⟩ := hother.eq_padded
    simp only [length_padded]
    omega

end MoveBytecode
