import MoveBytecode.Proofs.Signature.RoundTrip

/-!
# Numbers in groups of seven bits are read as they were written

There is one writer of numbers in groups of seven bits, for numbers of any size, and there are readers with
different limits: any count of groups, three of them for a number of 16 bits, and five of which the low 32
bits count. The reader of a limit accepts the spellings of a number that are no longer than the limit
(`Reader.parses_uleb128_iff`), and the count of bytes that are written grows with the number
(`length_encodeUleb128_le_iff`), so that each reader has one bound from which on it refuses what was written
(`Reader.read_encodeVarint`).
-/

namespace MoveBytecode

/-! ## Lengths and prefixes -/

/-- A number is written with at most `left + 1` bytes iff it has at most that many groups of bits. -/
theorem length_encodeUleb128_le_iff {left n : Nat} :
    (encodeUleb128 n).length ≤ left + 1 ↔ n < 0x80 ^ (left + 1) := by
  induction left generalizing n with
  | zero =>
    rw [encodeUleb128]
    split
    · simpa
    · have := List.length_pos_of_ne_nil (Reader.encodeUleb128_ne_nil (n / 0x80))
      simp only [List.length_cons]
      omega
  | succ left ih =>
    rw [encodeUleb128]
    split
    · have := Nat.pow_le_pow_right (show 0 < 0x80 by decide) (show 1 ≤ left + 1 + 1 by omega)
      simp only [List.length_singleton]
      omega
    · rw [List.length_cons, Nat.add_le_add_iff_right, ih, Nat.pow_succ 0x80 (left + 1)]
      exact Nat.div_lt_iff_lt_mul (by decide)

/-- A larger number has no fewer bytes. -/
theorem length_encodeUleb128_mono {n m : Nat} (h : n ≤ m) :
    (encodeUleb128 n).length ≤ (encodeUleb128 m).length := by
  obtain ⟨left, hleft⟩ := Nat.exists_eq_add_one_of_ne_zero
    (mt List.length_eq_zero_iff.mp (Reader.encodeUleb128_ne_nil m))
  have hm : m < 0x80 ^ (left + 1) := length_encodeUleb128_le_iff.mp (Nat.le_of_eq hleft)
  rw [hleft]
  exact length_encodeUleb128_le_iff.mpr (Nat.lt_of_le_of_lt h hm)

/-- Every other spelling of a number is longer than the one that is written. -/
theorem Groups.eq_or_longer {octets : List UInt8} {n : Nat} (h : Groups octets n) :
    octets = encodeUleb128 n ∨ (encodeUleb128 n).length < octets.length := by
  obtain ⟨extra, rfl⟩ := h.eq_padded
  cases extra with
  | zero => exact .inl rfl
  | succ extra =>
    rw [length_padded]
    exact .inr (by omega)

/-- The shortest groups of a number are no more than any others. -/
theorem Groups.length_le {octets : List UInt8} {n : Nat} (h : Groups octets n) :
    (encodeUleb128 n).length ≤ octets.length :=
  h.eq_or_longer.elim (fun heq => Nat.le_of_eq (by rw [heq])) Nat.le_of_lt

/-- A spelling ends with the first byte that does not go on, so that none begins with another. -/
theorem Groups.eq_of_isPrefix {octets other : List UInt8} {n m : Nat} (hn : Groups octets n)
    (hm : Groups other m) (h : octets <+: other) : octets = other := by
  induction hn generalizing other m with
  | last hlow =>
    cases hm with
    | last =>
      obtain ⟨rfl, -⟩ := List.cons_prefix_cons.mp h
      rfl
    | more hmore =>
      obtain ⟨rfl, -⟩ := List.cons_prefix_cons.mp h
      omega
  | more hmore _ ih =>
    cases hm with
    | last hlow =>
      obtain ⟨rfl, -⟩ := List.cons_prefix_cons.mp h
      omega
    | more _ hrest =>
      obtain ⟨rfl, hprefix⟩ := List.cons_prefix_cons.mp h
      rw [ih hrest hprefix]

/-! ## The spellings that a reader accepts -/

/-- A cursor at the start of octets, which are all of its data. -/
def Cursor.onto (octets : List UInt8) : Cursor := ⟨octets.toArray, 0, 0, octets.length⟩

/-- A cursor onto some bytes faces them. -/
theorem Cursor.faces_onto (octets : List UInt8) : (Cursor.onto octets).Faces octets :=
  ⟨by simp [onto], by simp [onto], by simp [onto]⟩

namespace Reader

/-- A read that is known by the spellings it accepts yields a value from octets iff they spell it. -/
theorem parses_iff_of_runs {α : Type} {r : Reader α} {octets : List UInt8} {a : α}
    (P : List UInt8 → α → Prop) (h : ∀ c : Cursor, c.Inside → ∀ b c', Runs r c b c' ↔
      ∃ read, P read b ∧ c.Faces read ∧ c' = c.moved read.length) :
    r.Parses octets a ↔ P octets a := by
  constructor
  · intro hparses
    have hfaces := Cursor.faces_onto octets
    obtain ⟨read, hread, hahead, hmoved⟩ := (h _ hfaces.cursor_inside _ _).mp (hparses _ hfaces)
    -- Both lie ahead of the same cursor, which has moved by the length of either.
    have hlength : octets.length = read.length := by
      simpa [Cursor.moved] using congrArg Cursor.position hmoved
    have hsame : read.toArray = octets.toArray := by
      rw [← hfaces.window, hlength, hahead.window]
    rwa [show read = octets from congrArg Array.toList hsame] at hread
  · intro hspells c hc
    exact (h c hc.cursor_inside a _).mpr ⟨octets, hspells, hc, rfl⟩

/-- A number is parsed from its groups iff they are within the limit. -/
theorem parses_uleb128_iff {limit n : Nat} {octets : List UInt8} :
    (uleb128 limit).Parses octets n ↔ Groups octets n ∧ octets.length ≤ limit := by
  refine parses_iff_of_runs (fun read m => Groups read m ∧ read.length ≤ limit) fun c hc m c' => ?_
  simp only [uleb128, runs_groups hc, and_assoc]

/-- An index is parsed from at most three groups of a number of 16 bits. -/
theorem parses_varu16_iff {n : Nat} {octets : List UInt8} :
    varu16.Parses octets n ↔ Groups octets n ∧ octets.length ≤ 3 ∧ n ≤ 0xFFFF := by
  refine parses_iff_of_runs (fun read m => Groups read m ∧ read.length ≤ 3 ∧ m ≤ 0xFFFF) fun c hc m c' => ?_
  simp only [runs_varu16 hc, and_assoc]

/-- A signed number is read where groups of it stand, of which there are at most five. -/
theorem runs_vari32 {c c' : Cursor} (hc : c.Inside) {z : Int} :
    Runs vari32 c z c' ↔ ∃ octets, (∃ n, Groups octets n ∧ octets.length ≤ 5 ∧ signed32 n = z) ∧
      c.Faces octets ∧ c' = c.moved octets.length := by
  simp only [vari32, uleb128, runs_bind, runs_groups hc, runs_pure]
  constructor
  · rintro ⟨n, _, ⟨octets, hgroups, hlength, hfaces, rfl⟩, rfl, rfl⟩
    exact ⟨octets, ⟨n, hgroups, hlength, rfl⟩, hfaces, rfl⟩
  · rintro ⟨octets, ⟨n, hgroups, hlength, rfl⟩, hfaces, rfl⟩
    exact ⟨n, _, ⟨octets, hgroups, hlength, hfaces, rfl⟩, rfl, rfl⟩

/-- A signed number is parsed from its groups iff there are at most five. -/
theorem parses_vari32_iff {z : Int} {octets : List UInt8} :
    vari32.Parses octets z ↔ ∃ n, Groups octets n ∧ octets.length ≤ 5 ∧ signed32 n = z :=
  parses_iff_of_runs (fun read y => ∃ n, Groups read n ∧ read.length ≤ 5 ∧ signed32 n = y)
    fun _ hc _ _ => runs_vari32 hc

/-- The low 32 bits of a number, as the signed word that they are. -/
theorem signed32_eq_toInt (n : Nat) : signed32 n = (BitVec.ofNat 32 n).toInt := by
  simp only [signed32, BitVec.toInt_eq_toNat_cond, BitVec.toNat_ofNat]
  split <;> split <;> omega

/-- A signed number is no greater than the number that its groups stand for. -/
theorem signed32_le (n : Nat) : signed32 n ≤ n := by
  simp only [signed32]
  split <;> omega

/-! ## What is made of a number that was written -/

/-- What the readers make of the octets that were written for `v`, wherever they lie ahead and whatever
follows them. A read that yields a value ends right behind them. -/
structure WrittenAs (v : Nat) (octets : List UInt8) : Prop where
  /-- As many groups as were written are enough. -/
  whole : ∀ limit, octets.length ≤ limit → (uleb128 limit).Parses octets v
  /-- A number of 16 bits is read back. -/
  small : v ≤ 0xFFFF → varu16.Parses octets v
  /-- A larger one is no number of 16 bits. -/
  large : 0xFFFF < v → varu16.Refuses octets .varintOverflow
  /-- The low 32 bits of a number of five groups are read back, with a sign. -/
  signed : v < 2 ^ 35 → vari32.Parses octets (BitVec.ofNat 32 v).toInt
  /-- A number of more groups is refused. -/
  long : 2 ^ 35 ≤ v → vari32.Refuses octets .varintOverflow
  /-- All other octets that are read as `v` are more. -/
  shortest : ∀ limit other, (uleb128 limit).Parses other v → other = octets ∨ octets.length < other.length
  /-- So are all others that are read as `v` in 16 bits. -/
  shortestSmall : ∀ other, varu16.Parses other v → other = octets ∨ octets.length < other.length
  /-- None that are read as `v` in 32 bits are fewer. -/
  shortestSigned : ∀ other, vari32.Parses other v → octets.length ≤ other.length
  /-- What was written for another number does not begin with them. -/
  prefixFree : ∀ w other, encodeVarint w = .ok other → octets <+: other → w = v ∧ other = octets

/-- Every number from zero on is written, and what the readers make of what was written depends on which of
their bounds it passes. -/
theorem read_encodeVarint (v : Nat) : ∃ octets, encodeVarint v = .ok octets ∧ WrittenAs v octets := by
  have hwritten := groups_encodeUleb128 v
  refine ⟨encodeUleb128 v, encodeVarint_of_nonneg (Int.natCast_nonneg v), ?_⟩
  exact {
    whole := fun limit h => parses_uleb128_iff.mpr ⟨hwritten, h⟩
    small := parses_varu16
    large := refuses_varu16
    signed := fun h => parses_vari32_iff.mpr
      ⟨v, hwritten, length_encodeUleb128_le_iff.mpr (by simpa using h), signed32_eq_toInt v⟩
    long := fun h => (refuses_uleb128 (by simpa using h)).bind
    shortest := fun limit other h => (parses_uleb128_iff.mp h).1.eq_or_longer
    shortestSmall := fun other h => (parses_varu16_iff.mp h).1.eq_or_longer
    shortestSigned := fun other h => by
      obtain ⟨n, hgroups, -, hn⟩ := parses_vari32_iff.mp h
      -- A number with a sign may come from a larger one, whose encoding is no shorter.
      have hle : v ≤ n := by
        have := signed32_le n
        omega
      exact Nat.le_trans (length_encodeUleb128_mono hle) hgroups.length_le
    prefixFree := fun w other hw hprefix => by
      have h0 : 0 ≤ w := by
        by_contra hneg
        rw [encodeVarint, if_pos (by omega)] at hw
        cases hw
      obtain rfl : encodeUleb128 w.toNat = other :=
        Except.ok.inj ((encodeVarint_of_nonneg h0).symm.trans hw)
      have hother := groups_encodeUleb128 w.toNat
      have hsame := hwritten.eq_of_isPrefix hother hprefix
      have hvalue : v = w.toNat := hwritten.unique (hsame ▸ hother)
      exact ⟨by omega, hsame.symm⟩ }

/-- The largest number of 32 bits, as the signed word that it is. -/
example : (vari32.runAt (.onto [0xFF, 0xFF, 0xFF, 0xFF, 0x0F])).1 = .ok (-1) := by cbv

end Reader

end MoveBytecode
