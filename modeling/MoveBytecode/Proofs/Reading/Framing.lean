import MoveBytecode.Proofs.Format.Assembly
import MoveBytecode.Proofs.Reading.Advance

/-!
# What reads make of encodings

A cursor faces the bytes that lie ahead of it in its window (`Cursor.Faces`). `Reader.Parses` is the
framing law of an encoding: wherever a cursor faces the bytes, the reader yields the value that they
stand for and ends right behind them, whatever follows. It composes along the binds of a reader and
the appends of an encoding, so that a record needs no more than the laws of its fields, which are the
numbers here: those of fixed width and those in groups of seven bits.
-/

namespace MoveBytecode

/-- Bytes that lie ahead of a cursor, within its window. -/
structure Cursor.Faces (c : Cursor) (bytes : List UInt8) : Prop where
  room : c.position + bytes.length ≤ c.stop
  inside : c.stop ≤ c.data.size
  ahead : bytes <+: c.data.toList.drop c.position

namespace Cursor.Faces

variable {c : Cursor}

/-- Bytes of two parts lie ahead if the first does, and the second does behind it. -/
theorem append {first second : List UInt8} (h : c.Faces (first ++ second)) :
    c.Faces first ∧ (c.moved first.length).Faces second := by
  obtain ⟨hroom, hinside, rest, hrest⟩ := h
  rw [List.length_append] at hroom
  refine ⟨⟨by omega, hinside, second ++ rest, ?_⟩, ⟨?_, hinside, rest, ?_⟩⟩
  · rw [← hrest, List.append_assoc]
  · simp only [moved_position, moved_stop]
    omega
  · rw [moved_data, moved_position, ← List.drop_drop, ← hrest, List.append_assoc,
      List.drop_left]

/-- A cursor that faces some bytes faces the first of them. -/
theorem first {first second : List UInt8} (h : c.Faces (first ++ second)) : c.Faces first :=
  h.append.1

/-- The window of the data that bytes ahead of a cursor are. -/
theorem window {bytes : List UInt8} (h : c.Faces bytes) :
    c.data.window c.position bytes.length = bytes.toArray := by
  apply Array.ext'
  rw [Bytes.window, Array.toList_extract, List.extract_eq_take_drop, Nat.add_sub_cancel_left]
  exact (List.prefix_iff_eq_take.mp h.ahead).symm

/-- The byte right ahead of a cursor. -/
theorem head {byte : UInt8} {rest : List UInt8} (h : c.Faces (byte :: rest)) :
    c.position < c.stop ∧ byte = c.data.getD c.position 0 := by
  obtain ⟨hroom, hinside, tail, htail⟩ := h
  rw [List.length_cons] at hroom
  refine ⟨by omega, ?_⟩
  have hbyte : c.data[c.position]? = some byte := by
    rw [← Array.getElem?_toList, ← Nat.add_zero c.position, ← List.getElem?_drop, ← htail]
    rfl
  simp [Array.getD_eq_getD_getElem?, hbyte]

end Cursor.Faces

namespace Reader

variable {α β : Type}

/-- The framing law: from a cursor that faces `bytes`, a read yields `a` and ends behind them. -/
def Parses (r : Reader α) (bytes : List UInt8) (a : α) : Prop :=
  ∀ c : Cursor, c.Faces bytes → Runs r c a (c.moved bytes.length)

/-! ## Composition -/

/-- Returning a value is parsed from no bytes. -/
theorem parses_pure (a : α) : (pure a : Reader α).Parses [] a :=
  fun _ _ => runs_pure.mpr ⟨rfl, rfl⟩

/-- A sequence is parsed from the bytes of its parts, one behind the other. -/
theorem Parses.bind {r : Reader α} {f : α → Reader β} {first second : List UInt8} {a : α} {b : β}
    (hr : r.Parses first a) (hf : (f a).Parses second b) : (r >>= f).Parses (first ++ second) b := by
  intro c hc
  obtain ⟨hfirst, hsecond⟩ := hc.append
  refine runs_bind.mpr ⟨a, _, hr c hfirst, ?_⟩
  have := hf _ hsecond
  rwa [Cursor.moved_moved, ← List.length_append] at this

/-- A read whose continuation reads nothing more. -/
theorem Parses.bind_pure {r : Reader α} {f : α → Reader β} {bytes : List UInt8} {a : α} {b : β}
    (hr : r.Parses bytes a) (hf : f a = pure b) : (r >>= f).Parses bytes b := by
  have hpure : (f a).Parses [] b := hf ▸ parses_pure b
  simpa using hr.bind hpure

/-! ## Bytes -/

/-- A byte is parsed from itself. -/
theorem parses_u8 (byte : UInt8) : u8.Parses [byte] byte := by
  intro c hc
  obtain ⟨hroom, hbyte⟩ := hc.head
  exact runs_u8.mpr ⟨hroom, hbyte, rfl⟩

/-- What begins with reading a byte is parsed from the byte and the bytes of the rest. -/
theorem Parses.cons_u8 {f : UInt8 → Reader β} {byte : UInt8} {rest : List UInt8} {b : β}
    (hf : (f byte).Parses rest b) : (u8 >>= f).Parses (byte :: rest) b :=
  (parses_u8 byte).bind hf

/-- Bytes are parsed from themselves. -/
theorem parses_bytes (l : List UInt8) : (bytes l.length).Parses l l.toArray := by
  intro c hc
  have hroom := hc.room
  refine runs_bytes.mpr ⟨Int.natCast_nonneg _, by omega, ?_, by rw [Int.toNat_natCast]⟩
  rw [Int.toNat_natCast]
  exact hc.window.symm

/-! ## Numbers of fixed width -/

/-- A number is written in as many bytes as it is wide. -/
@[simp] theorem length_littleEndian (width n : Nat) :
    (Format.littleEndian width n).length = width := by
  induction width generalizing n with
  | zero => rfl
  | succ width ih => simp [Format.littleEndian, ih]

/-- The bytes of a number stand for it as far as they reach. -/
theorem littleEndian_littleEndian {width n : Nat} (h : n < 256 ^ width) :
    Bytes.littleEndian (Format.littleEndian width n) = n := by
  induction width generalizing n with
  | zero => simp_all [Format.littleEndian, Bytes.littleEndian]
  | succ width ih =>
    have hrest : n / 256 < 256 ^ width := by
      rw [Nat.pow_succ] at h
      exact Nat.div_lt_of_lt_mul (by omega)
    have htail := ih hrest
    have hbyte : (UInt8.ofNat n).toNat = n % 256 := UInt8.toNat_ofNat'
    simp only [Bytes.littleEndian, Format.littleEndian, List.foldr_cons] at htail ⊢
    rw [htail, hbyte]
    omega

/-- An unsigned number that fits is parsed from its bytes, the lowest first. -/
theorem parses_unsigned {width n : Nat} (h : n < 256 ^ width) :
    (unsigned width).Parses (Format.littleEndian width n) n := by
  intro c hc
  have hroom := hc.room
  have hwindow := hc.window
  rw [length_littleEndian] at hroom hwindow ⊢
  refine runs_unsigned.mpr ⟨hroom, ?_, rfl⟩
  rw [hwindow]
  exact (littleEndian_littleEndian h).symm

/-- A number of 31 bits is parsed from its four bytes. -/
theorem parses_u31 {n : Nat} (h : n < 2 ^ 31) : u31.Parses (Format.littleEndian 4 n) n := by
  refine (parses_unsigned (by omega)).bind_pure ?_
  rw [if_neg (by omega)]

/-! ## Numbers in groups of seven bits -/

/-- The last group of seven bits is a byte below 128. -/
theorem toNat_lastGroup {n : Nat} (h : n < 0x80) : (UInt8.ofNat n).toNat = n := by
  rw [UInt8.toNat_ofNat']
  omega

/-- A group that goes on is a byte from 128 on. -/
theorem toNat_firstGroup (n : Nat) : (UInt8.ofNat (n % 0x80 + 0x80)).toNat = n % 0x80 + 0x80 := by
  rw [UInt8.toNat_ofNat']
  omega

/-- Groups of seven bits stand for the number that they were cut from, if there is room for all of
them. -/
theorem parses_groups {limit left n : Nat} (h : n < 0x80 ^ (left + 1)) :
    (groups limit (left + 1)).Parses (encodeUleb128 n) n := by
  induction left generalizing n with
  | zero =>
    have hlow : n < 0x80 := by omega
    rw [encodeUleb128, if_pos hlow]
    refine (parses_u8 _).bind_pure ?_
    rw [toNat_lastGroup hlow, if_pos hlow]
  | succ left ih =>
    rw [encodeUleb128]
    split
    · rename_i hlow
      refine (parses_u8 _).bind_pure ?_
      rw [toNat_lastGroup hlow, if_pos hlow]
    · -- The lowest group comes first, and the rest of the number fits into the rest of the groups.
      have hrest : n / 0x80 < 0x80 ^ (left + 1) := by
        rw [Nat.pow_succ] at h
        exact Nat.div_lt_of_lt_mul (by omega)
      have hsum : n % 0x80 + 0x80 * (n / 0x80) = n := Nat.mod_add_div n 0x80
      refine Parses.cons_u8 ?_
      rw [toNat_firstGroup, if_neg (by omega)]
      refine (ih hrest).bind_pure ?_
      rw [Nat.add_sub_cancel, hsum]

/-- An index is parsed from its shortest groups. -/
theorem parses_varu16 {n : Nat} (h : n ≤ 0xFFFF) : varu16.Parses (encodeUleb128 n) n := by
  have hgroups : (uleb128 3).Parses (encodeUleb128 n) n := parses_groups (by omega)
  refine hgroups.bind_pure ?_
  rw [if_neg (by omega)]

/-- A number with more than 16 bits is not read as one of 16 bits, although its groups are read. -/
theorem not_runs_varu16 {n : Nat} (h : 0xFFFF < n) (hn : n < 0x80 ^ 3) {c : Cursor}
    (hc : c.Faces (encodeUleb128 n)) (value : Nat) (c' : Cursor) : ¬ Runs varu16 c value c' := by
  intro hrun
  obtain ⟨m, d, hm, hrun⟩ := runs_bind.mp hrun
  obtain ⟨rfl, -⟩ := hm.unique (parses_groups hn c hc)
  rw [if_pos h] at hrun
  exact not_runs_throw hrun

/-- A number that is not negative is parsed from its shortest groups as a signed one. -/
theorem parses_vari32 {n : Nat} (h : n < 2 ^ 31) : vari32.Parses (encodeUleb128 n) n := by
  have hgroups : (uleb128 5).Parses (encodeUleb128 n) n := parses_groups (by omega)
  refine hgroups.bind_pure ?_
  rw [signed32, Nat.mod_eq_of_lt (by omega)]
  simp only [if_pos (show n < 0x80000000 by omega)]

/-- A number in groups of seven bits has at least one. -/
theorem encodeUleb128_ne_nil (n : Nat) : encodeUleb128 n ≠ [] := by
  rw [encodeUleb128]
  split
  · simp
  · simp

end Reader

end MoveBytecode
