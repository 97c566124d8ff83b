import Mathlib.Algebra.Group.Nat.Defs
import MoveBytecode.Body
import MoveBytecode.Proofs.Run

/-!
# What reads consume

Each read of a fixed width is characterized by the bytes it needs, the value it finds there and the
cursor behind it. A read without a fixed width moves its cursor forward within the window
(`Cursor.Reaches`), which composes, so that the bytes that any run of a reader consumed are those
between its two cursors.
-/

namespace MoveBytecode

namespace Cursor

/-- The cursor moved over `count` bytes. -/
def moved (c : Cursor) (count : Nat) : Cursor := { c with position := c.position + count }

/-- A cursor keeps its data when it is moved. -/
@[simp] theorem moved_data (c : Cursor) (count : Nat) : (c.moved count).data = c.data := rfl

/-- A cursor keeps the end of its window when it is moved. -/
@[simp] theorem moved_stop (c : Cursor) (count : Nat) : (c.moved count).stop = c.stop := rfl

/-- A cursor keeps the start of its window when it is moved. -/
@[simp] theorem moved_start (c : Cursor) (count : Nat) : (c.moved count).start = c.start := rfl

/-- A cursor that is moved is as many bytes further on. -/
@[simp] theorem moved_position (c : Cursor) (count : Nat) :
    (c.moved count).position = c.position + count := rfl

/-- A cursor that is moved by no byte stays where it is. -/
@[simp] theorem moved_zero (c : Cursor) : c.moved 0 = c := rfl

/-- A cursor that is moved twice is moved by both numbers of bytes together. -/
@[simp] theorem moved_moved (c : Cursor) (m n : Nat) : (c.moved m).moved n = c.moved (m + n) := by
  simp [moved, Nat.add_assoc]

/-- A cursor within its window, which lies within the data. -/
def Inside (c : Cursor) : Prop := c.position ≤ c.stop ∧ c.stop ≤ c.data.size

/-- The second cursor is the first one moved forward within its window. -/
def Reaches (c c' : Cursor) : Prop :=
  ∃ count, c' = c.moved count ∧ (count = 0 ∨ c.position + count ≤ c.stop)

/-- A cursor reaches itself. -/
theorem Reaches.refl (c : Cursor) : c.Reaches c := ⟨0, rfl, .inl rfl⟩

/-- Reaching goes on from one cursor to the next. -/
theorem Reaches.trans {a b c : Cursor} (h : a.Reaches b) (k : b.Reaches c) : a.Reaches c := by
  obtain ⟨m, rfl, hm⟩ := h
  obtain ⟨n, rfl, hn⟩ := k
  refine ⟨m + n, moved_moved _ _ _, ?_⟩
  simp only [moved_position, moved_stop] at hn
  omega

/-- A cursor reaches every place up to the end of its window. -/
theorem reaches_moved {c : Cursor} {count : Nat} (h : c.position + count ≤ c.stop) :
    c.Reaches (c.moved count) := ⟨count, rfl, .inr h⟩

/-- A cursor keeps its data wherever it comes to. -/
theorem Reaches.data {c c' : Cursor} (h : c.Reaches c') : c'.data = c.data := by
  obtain ⟨n, rfl, -⟩ := h
  rfl

/-- A cursor keeps the end of its window wherever it comes to. -/
theorem Reaches.stop {c c' : Cursor} (h : c.Reaches c') : c'.stop = c.stop := by
  obtain ⟨n, rfl, -⟩ := h
  rfl

/-- A cursor never moves backward. -/
theorem Reaches.le {c c' : Cursor} (h : c.Reaches c') : c.position ≤ c'.position := by
  obtain ⟨n, rfl, -⟩ := h
  simp

/-- A cursor within its window stays within it. -/
theorem Reaches.inside {c c' : Cursor} (h : c.Reaches c') (hc : c.Inside) : c'.Inside := by
  obtain ⟨n, rfl, hn⟩ := h
  obtain ⟨h1, h2⟩ := hc
  refine ⟨?_, h2⟩
  simp only [moved_position, moved_stop]
  omega

/-- What `Cursor.make` makes is at the start of its window. -/
theorem inside_of_make {data : Bytes} {start : Int} {stop : Option Int} {c : Cursor}
    (h : make data start stop = .ok c) : c.Inside ∧ c.data = data ∧ (c.position : Int) = start := by
  unfold make at h
  simp only at h
  split at h
  · simp at h
  · simp only [Except.ok.injEq] at h
    subst h
    refine ⟨⟨?_, ?_⟩, rfl, ?_⟩ <;> simp only <;> omega

end Cursor

namespace Reader

open Cursor

variable {α : Type} {c c' : Cursor}

/-- A reader that only moves forward, within the window. -/
def Advances (r : Reader α) : Prop := ∀ c a c', Runs r c a c' → c.Reaches c'

/-- A reader runs as its outcome from the cursor says. -/
theorem runs_iff_runAt {r : Reader α} {a : α} : Runs r c a c' ↔ r.runAt c = (.ok a, c') := Iff.rfl

/-- Asking for the position ends with it, at the same place. -/
@[simp] theorem runs_position {p : Nat} :
    Runs position c p c' ↔ c.position = p ∧ c = c' := by
  simp only [position, runs_bind, runs_get, runs_pure]
  constructor
  · rintro ⟨a, s, ⟨rfl, rfl⟩, rfl, rfl⟩
    exact ⟨rfl, rfl⟩
  · rintro ⟨rfl, rfl⟩
    exact ⟨_, _, ⟨rfl, rfl⟩, rfl, rfl⟩

/-- Asking for the end ends with the answer, at the same place. -/
@[simp] theorem runs_atEnd {b : Bool} : Runs atEnd c b c' ↔ c.atEnd = b ∧ c = c' := by
  simp only [atEnd, runs_bind, runs_get, runs_pure]
  constructor
  · rintro ⟨a, s, ⟨rfl, rfl⟩, rfl, rfl⟩
    exact ⟨rfl, rfl⟩
  · rintro ⟨rfl, rfl⟩
    exact ⟨_, _, ⟨rfl, rfl⟩, rfl, rfl⟩

/-- A result that is taken over ends with its value, at the same place. -/
@[simp] theorem runs_ofExcept {r : Except Fault α} {a : α} :
    Runs (ofExcept r) c a c' ↔ r = .ok a ∧ c = c' := by
  cases r with
  | ok b => simp [ofExcept]
  | error e => simp [ofExcept]

/-- Moving forward ends iff there are the bytes, with the position before and the cursor behind them. -/
theorem runs_advance {count : Int} {p : Nat} :
    Runs (advance count) c p c' ↔
      0 ≤ count ∧ c.position + count ≤ c.stop ∧ p = c.position ∧ c' = c.moved count.toNat := by
  simp only [advance, runs_bind, runs_get]
  constructor
  · rintro ⟨a, s, ⟨rfl, rfl⟩, h⟩
    split at h
    · exact absurd h not_runs_throw
    · simp only [runs_bind, runs_set, runs_pure] at h
      obtain ⟨-, -, rfl, rfl, rfl⟩ := h
      exact ⟨by omega, by omega, rfl, rfl⟩
  · rintro ⟨h0, h1, rfl, rfl⟩
    refine ⟨_, _, ⟨rfl, rfl⟩, ?_⟩
    rw [if_neg (by omega)]
    simp only [runs_bind, runs_set, runs_pure]
    exact ⟨⟨⟩, _, rfl, trivial, rfl⟩

/-- Reading bytes ends iff there are the bytes, with these bytes and the cursor behind them. -/
theorem runs_bytes {count : Int} {b : Bytes} :
    Runs (bytes count) c b c' ↔
      0 ≤ count ∧ c.position + count ≤ c.stop ∧
        b = c.data.window c.position count.toNat ∧ c' = c.moved count.toNat := by
  simp only [bytes, runs_bind, runs_get, runs_pure, runs_advance]
  constructor
  · rintro ⟨p, s, ⟨h0, h1, rfl, rfl⟩, a, t, ⟨rfl, rfl⟩, rfl, rfl⟩
    exact ⟨h0, h1, rfl, rfl⟩
  · rintro ⟨h0, h1, rfl, rfl⟩
    exact ⟨_, _, ⟨h0, h1, rfl, rfl⟩, _, _, ⟨rfl, rfl⟩, rfl, rfl⟩

/-- Reading a byte ends iff there is one, with this byte and the cursor behind it. -/
theorem runs_u8 {b : UInt8} :
    Runs u8 c b c' ↔
      c.position < c.stop ∧ b = c.data.getD c.position 0 ∧ c' = c.moved 1 := by
  simp only [u8, runs_bind, runs_get, runs_pure, runs_advance]
  constructor
  · rintro ⟨p, s, ⟨-, h1, rfl, rfl⟩, a, t, ⟨rfl, rfl⟩, rfl, rfl⟩
    exact ⟨by omega, rfl, rfl⟩
  · rintro ⟨h, rfl, rfl⟩
    exact ⟨_, _, ⟨by omega, by omega, rfl, rfl⟩, _, _, ⟨rfl, rfl⟩, rfl, rfl⟩

/-- Reading an unsigned number ends iff there are its bytes, with their number, the lowest first. -/
theorem runs_unsigned {width n : Nat} :
    Runs (unsigned width) c n c' ↔
      c.position + width ≤ c.stop ∧
        n = Bytes.littleEndian (c.data.window c.position width).toList ∧ c' = c.moved width := by
  simp only [unsigned, runs_bind, runs_pure, runs_bytes, Int.toNat_natCast]
  constructor
  · rintro ⟨b, s, ⟨-, h, rfl, rfl⟩, rfl, rfl⟩
    exact ⟨by omega, rfl, rfl⟩
  · rintro ⟨h, rfl, rfl⟩
    exact ⟨_, _, ⟨by omega, by omega, rfl, rfl⟩, rfl, rfl⟩

/-- The number that octets stand for is below the power of 256 of their count. -/
theorem littleEndian_lt (octets : List UInt8) :
    Bytes.littleEndian octets < 256 ^ octets.length := by
  induction octets with
  | nil => simp [Bytes.littleEndian]
  | cons o rest ih =>
    have ho : o.toNat < 256 := o.toNat_lt
    simp only [Bytes.littleEndian, List.foldr_cons, List.length_cons, Nat.pow_succ] at ih ⊢
    omega

/-- An unsigned number of some bytes is below the power of 256 of their count. -/
theorem unsigned_lt {width n : Nat} (h : Runs (unsigned width) c n c') : n < 256 ^ width := by
  obtain ⟨-, rfl, -⟩ := runs_unsigned.mp h
  refine Nat.lt_of_lt_of_le (littleEndian_lt _) (Nat.pow_le_pow_right (by omega) ?_)
  simp only [Bytes.window, Array.length_toList, Array.size_extract]
  omega

/-! ## Readers that move forward -/

/-- A sequence moves forward within the window if its parts do. -/
theorem Advances.bind {β : Type} {r : Reader α} {f : α → Reader β} (hr : r.Advances)
    (hf : ∀ a, (f a).Advances) : (r >>= f).Advances := by
  intro c b c' h
  obtain ⟨a, d, h1, h2⟩ := runs_bind.mp h
  exact (hr c a d h1).trans (hf a d b c' h2)

/-- Returning a value moves nowhere. -/
theorem advances_pure (a : α) : (pure a : Reader α).Advances := by
  intro c b c' h
  obtain ⟨-, rfl⟩ := runs_pure.mp h
  exact .refl _

/-- Throwing a fault ends with no value, and so moves nowhere. -/
theorem advances_throw (e : Fault) : (throw e : Reader α).Advances :=
  fun _ _ _ h => absurd h not_runs_throw

/-- Reading a byte moves forward within the window. -/
theorem advances_u8 : u8.Advances := by
  intro c b c' h
  obtain ⟨h, -, rfl⟩ := runs_u8.mp h
  exact reaches_moved (by omega)

/-- Reading bytes moves forward within the window. -/
theorem advances_bytes (count : Int) : (bytes count).Advances := by
  intro c b c' h
  obtain ⟨h0, h, -, rfl⟩ := runs_bytes.mp h
  exact reaches_moved (by omega)

/-- Reading an unsigned number moves forward within the window. -/
theorem advances_unsigned (width : Nat) : (unsigned width).Advances := by
  intro c b c' h
  obtain ⟨h1, -, rfl⟩ := runs_unsigned.mp h
  exact reaches_moved h1

/-- Reading groups of seven bits moves forward within the window. -/
theorem advances_groups (limit left : Nat) : (groups limit left).Advances := by
  induction left with
  | zero => exact advances_throw _
  | succ left ih =>
    refine advances_u8.bind fun byte => ?_
    split
    · exact advances_pure _
    · exact ih.bind fun _ => advances_pure _

/-- Reading an index moves forward within the window. -/
theorem advances_varu16 : varu16.Advances := by
  refine (advances_groups 3 3).bind fun value => ?_
  split
  · exact advances_throw _
  · exact advances_pure _

/-- Reading an operand moves forward within the window. -/
theorem advances_operand (kind : OperandKind) : (operand kind).Advances := by
  cases kind with
  | none => exact advances_pure _
  | branch => exact (advances_unsigned 2).bind fun _ => advances_pure _
  | immediate => exact (advances_unsigned 8).bind fun _ => advances_pure _
  | localVar => exact advances_u8.bind fun _ => advances_pure _
  | address | bytearray | string | functionHandle | fieldDef | structDef =>
    exact advances_varu16.bind fun _ => advances_pure _

end Reader

end MoveBytecode
