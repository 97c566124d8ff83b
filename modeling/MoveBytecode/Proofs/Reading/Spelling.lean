import MoveBytecode.Proofs.Reading.Framing

/-!
# How operands are spelled

The kind of an operand says which bytes stand for it: none, a number of fixed width, or up to three groups
of seven bits for a number below 2^16 (`OperandKind.Spells`). What can lie ahead of a cursor instead is
listed with the fault that names it (`OperandKind.Misspelled`). The reader of operands accepts exactly the
former (`Reader.runs_operand`) and refuses the latter with the fault given there (`Reader.fails_operand`).
-/

namespace MoveBytecode

/-! ## Spellings -/

/-- Bytes that go on: none of them is the last of a number in groups of seven bits. -/
def GoOn (octets : List UInt8) : Prop := ∀ byte ∈ octets, 0x80 ≤ byte.toNat

/-- Groups of seven bits, the lowest first, and the number that they stand for. Only the last byte does
not go on. -/
inductive Groups : List UInt8 → Nat → Prop
  | last {byte : UInt8} (h : byte.toNat < 0x80) : Groups [byte] byte.toNat
  | more {byte : UInt8} {rest : List UInt8} {n : Nat} (h : 0x80 ≤ byte.toNat) (k : Groups rest n) :
    Groups (byte :: rest) (byte.toNat - 0x80 + 0x80 * n)

namespace OperandKind

/-- The width of the operands that are numbers of fixed width. -/
def width? : OperandKind → Option Nat
  | .branch => some 2
  | .immediate => some 8
  | .localVar => some 1
  | _ => .none

/-- Whether an operand is the number of a record, in groups of seven bits. -/
def isIndex : OperandKind → Bool
  | .none | .branch | .immediate | .localVar => false
  | .address | .bytearray | .string | .functionHandle | .fieldDef | .structDef => true

/-- An operand is missing, an index, or a number of a fixed width. -/
theorem eq_none_or (kind : OperandKind) :
    kind = .none ∨ kind.isIndex = true ∨ ∃ width, kind.width? = some width := by
  cases kind <;> simp [isIndex, width?]

/-- The bytes of an operand, and the number that they stand for. -/
inductive Spells : OperandKind → List UInt8 → Option Nat → Prop
  | empty : Spells .none [] .none
  | fixed {kind : OperandKind} {octets : List UInt8} (h : kind.width? = some octets.length) :
    Spells kind octets (some (Bytes.littleEndian octets))
  | index {kind : OperandKind} {octets : List UInt8} {n : Nat} (h : kind.isIndex = true)
    (groups : Groups octets n) (length : octets.length ≤ 3) (bound : n ≤ 0xFFFF) :
    Spells kind octets (some n)

/-- What lies ahead of a cursor instead of an operand, and the fault that says so. -/
inductive Misspelled (kind : OperandKind) (c : Cursor) : Fault → Prop
  /-- A number of fixed width passes the bound. -/
  | cut {width : Nat} (h : kind.width? = some width) (short : c.stop < c.position + width) :
    Misspelled kind c (.shortRead width c.position c.stop)
  /-- Fewer than three groups go on to the bound. -/
  | unended {octets : List UInt8} (h : kind.isIndex = true) (faces : c.Faces octets)
    (goOn : GoOn octets) (length : octets.length < 3) (stop : c.stop = c.position + octets.length) :
    Misspelled kind c (.shortRead 1 c.stop c.stop)
  /-- Three groups go on. -/
  | tooLong {octets : List UInt8} (h : kind.isIndex = true) (faces : c.Faces octets)
    (goOn : GoOn octets) (length : octets.length = 3) : Misspelled kind c (.varintTooLong 3)
  /-- The groups stand for a number with more than 16 bits. -/
  | tooLarge {octets : List UInt8} {n : Nat} (h : kind.isIndex = true) (faces : c.Faces octets)
    (groups : Groups octets n) (length : octets.length ≤ 3) (large : 0xFFFF < n) :
    Misspelled kind c (.varintTooLarge n)

end OperandKind

/-! ## Cursors in front of bytes -/

namespace Cursor

variable {c : Cursor}

/-- A cursor inside its window faces no bytes. -/
theorem faces_nil (h : c.Inside) : c.Faces [] := ⟨h.1, h.2, List.nil_prefix⟩

/-- A cursor that is not at the end of its window stays inside when it moves by a byte. -/
theorem Inside.next (hc : c.Inside) (h : c.position < c.stop) : (c.moved 1).Inside := ⟨h, hc.2⟩

/-- A cursor that faces bytes is inside its window. -/
theorem Faces.cursor_inside {octets : List UInt8} (h : c.Faces octets) : c.Inside :=
  ⟨Nat.le_of_add_right_le h.room, h.inside⟩

/-- A cursor that moves over the bytes that it faces stays inside its window. -/
theorem Faces.inside_moved {octets : List UInt8} (h : c.Faces octets) : (c.moved octets.length).Inside :=
  ⟨h.room, h.inside⟩

/-- The bytes of a window lie ahead of a cursor at its start. -/
theorem faces_window {count : Nat} (h : c.position + count ≤ c.stop) (hc : c.Inside) :
    c.Faces (c.data.window c.position count).toList ∧
      (c.data.window c.position count).toList.length = count := by
  have hsize : (c.data.window c.position count).toList.length = count := by
    have := hc.2
    simp only [Bytes.window, Array.length_toList, Array.size_extract]
    omega
  refine ⟨⟨by omega, hc.2, ?_⟩, hsize⟩
  rw [Bytes.window, Array.toList_extract, List.extract_eq_take_drop]
  exact List.take_prefix _ _

/-- A byte and those behind it lie ahead if the byte is the next one. -/
theorem faces_cons {byte : UInt8} {rest : List UInt8} :
    c.Faces (byte :: rest) ↔
      c.position < c.stop ∧ byte = c.data.getD c.position 0 ∧ (c.moved 1).Faces rest := by
  constructor
  · intro h
    have hparts : c.Faces ([byte] ++ rest) := h
    exact ⟨h.head.1, h.head.2, hparts.append.2⟩
  · rintro ⟨hlt, rfl, hroom, hinside, hrest⟩
    have hposition : c.position < c.data.toList.length := Nat.lt_of_lt_of_le hlt hinside
    refine ⟨?_, hinside, ?_⟩
    · simp only [moved_position, moved_stop, List.length_cons] at hroom ⊢
      omega
    · have hbyte : c.data.getD c.position 0 = c.data.toList[c.position] := by
        rw [Array.getD_eq_getD_getElem?, Array.getElem?_eq_getElem hposition]
        rfl
      rw [List.drop_eq_getElem_cons hposition, hbyte]
      exact (List.prefix_cons_inj _).mpr hrest

end Cursor

/-! ## Bytes and numbers of fixed width -/

namespace Reader

variable {c c' : Cursor} {fault : Fault}

/-- Moving forward stops iff there are not the bytes, at the same place. -/
theorem stops_advance {count : Int} :
    Stops (advance count) c fault c' ↔
      (count < 0 ∨ (c.stop : Int) < c.position + count) ∧ fault = .shortRead count c.position c.stop ∧
        c' = c := by
  simp only [advance, stops_bind, not_stops_get, false_or, runs_get]
  constructor
  · rintro ⟨_, _, ⟨rfl, rfl⟩, h⟩
    split at h
    · rename_i hshort
      obtain ⟨rfl, rfl⟩ := stops_throw.mp h
      exact ⟨hshort, rfl, rfl⟩
    · simp only [stops_bind, not_stops_set, not_stops_pure, and_false, exists_false, or_false] at h
  · rintro ⟨hshort, rfl, rfl⟩
    refine ⟨_, _, ⟨rfl, rfl⟩, ?_⟩
    rw [if_pos hshort]
    exact stops_throw.mpr ⟨rfl, rfl⟩

/-- Reading bytes stops iff there are not the bytes, at the same place. -/
theorem stops_bytes {count : Int} :
    Stops (bytes count) c fault c' ↔
      (count < 0 ∨ (c.stop : Int) < c.position + count) ∧ fault = .shortRead count c.position c.stop ∧
        c' = c := by
  simp only [bytes, stops_bind, not_stops_get, not_stops_pure, and_false, exists_false, or_false,
    stops_advance]

/-- Reading a byte stops iff there is none, at the same place. -/
theorem stops_u8 :
    Stops u8 c fault c' ↔ c.stop ≤ c.position ∧ fault = .shortRead 1 c.position c.stop ∧ c' = c := by
  simp only [u8, stops_bind, not_stops_get, not_stops_pure, and_false, exists_false, or_false,
    stops_advance]
  refine and_congr_left fun _ => ?_
  omega

/-- Reading an unsigned number stops iff there are not its bytes, at the same place. -/
theorem stops_unsigned {width : Nat} :
    Stops (unsigned width) c fault c' ↔
      c.stop < c.position + width ∧ fault = .shortRead width c.position c.stop ∧ c' = c := by
  simp only [unsigned, stops_bind, not_stops_pure, and_false, exists_false, or_false, stops_bytes]
  refine and_congr_left fun _ => ?_
  omega

/-- Reading a byte fails iff there is none. -/
theorem fails_u8 :
    Fails u8 c fault ↔ c.stop ≤ c.position ∧ fault = .shortRead 1 c.position c.stop := by
  simp [fails_iff_stops, stops_u8]

/-- Reading an unsigned number fails iff there are not its bytes. -/
theorem fails_unsigned {width : Nat} :
    Fails (unsigned width) c fault ↔
      c.stop < c.position + width ∧ fault = .shortRead width c.position c.stop := by
  simp [fails_iff_stops, stops_unsigned]

/-- A number of fixed width is read where its bytes lie ahead. -/
theorem runs_unsigned_iff (hc : c.Inside) {width n : Nat} :
    Runs (unsigned width) c n c' ↔ ∃ octets : List UInt8, octets.length = width ∧ c.Faces octets ∧
      n = Bytes.littleEndian octets ∧ c' = c.moved octets.length := by
  rw [runs_unsigned]
  constructor
  · rintro ⟨hroom, rfl, rfl⟩
    obtain ⟨hfaces, hlength⟩ := Cursor.faces_window hroom hc
    exact ⟨_, hlength, hfaces, rfl, by rw [hlength]⟩
  · rintro ⟨octets, rfl, hfaces, rfl, rfl⟩
    exact ⟨hfaces.room, by rw [hfaces.window], rfl⟩

/-! ## Numbers in groups of seven bits -/

/-- The reader of groups accepts groups of which there are not too many. -/
theorem runs_groups (hc : c.Inside) {limit left n : Nat} :
    Runs (groups limit left) c n c' ↔ ∃ octets, Groups octets n ∧ octets.length ≤ left ∧
      c.Faces octets ∧ c' = c.moved octets.length := by
  -- On how many groups may still come: each that goes on moves the cursor by its byte.
  induction left generalizing c c' n with
  | zero =>
    constructor
    · exact fun h => absurd h not_runs_throw
    · rintro ⟨octets, hgroups, hlength, -⟩
      cases hgroups <;> simp at hlength
  | succ left ih =>
    simp only [groups, runs_bind]
    constructor
    · rintro ⟨byte, _, hbyte, h⟩
      obtain ⟨hlt, hvalue, rfl⟩ := runs_u8.mp hbyte
      have hnext := hc.next hlt
      split at h
      · rename_i hlast
        obtain ⟨rfl, rfl⟩ := runs_pure.mp h
        exact ⟨[byte], .last hlast, by simp, Cursor.faces_cons.mpr ⟨hlt, hvalue, Cursor.faces_nil hnext⟩, rfl⟩
      · rename_i hmore
        obtain ⟨m, _, hm, h⟩ := runs_bind.mp h
        obtain ⟨rfl, rfl⟩ := runs_pure.mp h
        obtain ⟨rest, hgroups, hlength, hfaces, rfl⟩ := (ih hnext).mp hm
        refine ⟨byte :: rest, .more (by omega) hgroups, by simpa using hlength,
          Cursor.faces_cons.mpr ⟨hlt, hvalue, hfaces⟩, ?_⟩
        rw [Cursor.moved_moved, List.length_cons, Nat.add_comm]
    · rintro ⟨octets, hgroups, hlength, hfaces, rfl⟩
      cases hgroups with
      | last hlast =>
        obtain ⟨hlt, hvalue, -⟩ := Cursor.faces_cons.mp hfaces
        refine ⟨_, _, runs_u8.mpr ⟨hlt, hvalue, rfl⟩, ?_⟩
        rw [if_pos hlast]
        exact runs_pure.mpr ⟨rfl, rfl⟩
      | @more _ rest m hmore hrest =>
        obtain ⟨hlt, hvalue, hfaces⟩ := Cursor.faces_cons.mp hfaces
        have hnext := hc.next hlt
        have hrun : Runs (groups limit left) (c.moved 1) m ((c.moved 1).moved rest.length) :=
          (ih hnext).mpr ⟨rest, hrest, by simpa using hlength, hfaces, rfl⟩
        refine ⟨_, _, runs_u8.mpr ⟨hlt, hvalue, rfl⟩, ?_⟩
        rw [if_neg (by omega)]
        refine runs_bind.mpr ⟨m, _, hrun, runs_pure.mpr ⟨rfl, ?_⟩⟩
        rw [Cursor.moved_moved, List.length_cons, Nat.add_comm]

/-- The reader of groups stops where the bytes go on, to the bound or as many as there may be, and then it
has come behind them. -/
theorem stops_groups (hc : c.Inside) {limit left : Nat} :
    Stops (groups limit left) c fault c' ↔ ∃ octets, GoOn octets ∧ c.Faces octets ∧
      c' = c.moved octets.length ∧
      (octets.length = left ∧ fault = .varintTooLong limit ∨
        octets.length < left ∧ c.stop = c.position + octets.length ∧
          fault = .shortRead 1 c.stop c.stop) := by
  -- The fault names the bound of the window, so it stays the same as the cursor moves.
  induction left generalizing c with
  | zero =>
    constructor
    · intro h
      obtain ⟨rfl, rfl⟩ := stops_throw.mp h
      exact ⟨[], by simp [GoOn], Cursor.faces_nil hc, rfl, .inl ⟨rfl, rfl⟩⟩
    · rintro ⟨octets, -, -, rfl, ⟨hlength, rfl⟩ | ⟨hlength, -⟩⟩
      · rw [hlength]
        exact stops_throw.mpr ⟨rfl, rfl⟩
      · omega
  | succ left ih =>
    simp only [groups, stops_bind]
    constructor
    · rintro (h | ⟨byte, _, hbyte, h⟩)
      · obtain ⟨hend, rfl, rfl⟩ := stops_u8.mp h
        obtain hstop : c'.position = c'.stop := Nat.le_antisymm hc.1 hend
        exact ⟨[], by simp [GoOn], Cursor.faces_nil hc, rfl,
          .inr ⟨by simp, by simp [hstop], by rw [hstop]⟩⟩
      · obtain ⟨hlt, hvalue, rfl⟩ := runs_u8.mp hbyte
        have hnext := hc.next hlt
        split at h
        · exact absurd h not_stops_pure
        · rename_i hmore
          simp only [stops_bind, not_stops_pure, and_false, exists_false, or_false] at h
          obtain ⟨rest, hgoOn, hfaces, rfl, hends⟩ := (ih hnext).mp h
          refine ⟨byte :: rest, List.forall_mem_cons.mpr ⟨by omega, hgoOn⟩,
            Cursor.faces_cons.mpr ⟨hlt, hvalue, hfaces⟩, ?_, ?_⟩
          · rw [Cursor.moved_moved, List.length_cons, Nat.add_comm]
          · simp only [Cursor.moved_stop, Cursor.moved_position] at hends
            rw [List.length_cons]
            exact hends.imp (And.imp_left (by omega)) (And.imp (by omega) (And.imp_left (by omega)))
    · rintro ⟨octets, hgoOn, hfaces, rfl, hends⟩
      cases octets with
      | nil =>
        obtain ⟨hlength, -⟩ | ⟨-, hstop, rfl⟩ := hends
        · simp at hlength
        · exact .inl (stops_u8.mpr ⟨by simp [hstop], by simp [hstop], rfl⟩)
      | cons byte rest =>
        obtain ⟨hlt, hvalue, hfaces⟩ := Cursor.faces_cons.mp hfaces
        obtain ⟨hmore, hgoOn⟩ := List.forall_mem_cons.mp hgoOn
        have hnext := hc.next hlt
        refine .inr ⟨byte, _, runs_u8.mpr ⟨hlt, hvalue, rfl⟩, ?_⟩
        rw [if_neg (by omega)]
        refine stops_bind.mpr (.inl ((ih hnext).mpr ⟨rest, hgoOn, hfaces, ?_, ?_⟩))
        · rw [Cursor.moved_moved, List.length_cons, Nat.add_comm]
        · simp only [Cursor.moved_stop, Cursor.moved_position]
          rw [List.length_cons] at hends
          exact hends.imp (And.imp_left (by omega)) (And.imp (by omega) (And.imp_left (by omega)))

/-- The reader of groups fails where the bytes go on, to the bound or as many as there may be. -/
theorem fails_groups (hc : c.Inside) {limit left : Nat} :
    Fails (groups limit left) c fault ↔ ∃ octets, GoOn octets ∧ c.Faces octets ∧
      (octets.length = left ∧ fault = .varintTooLong limit ∨
        octets.length < left ∧ c.stop = c.position + octets.length ∧
          fault = .shortRead 1 c.stop c.stop) := by
  simp only [fails_iff_stops, stops_groups hc]
  constructor
  · rintro ⟨_, octets, hgoOn, hfaces, -, hends⟩
    exact ⟨octets, hgoOn, hfaces, hends⟩
  · rintro ⟨octets, hgoOn, hfaces, hends⟩
    exact ⟨_, octets, hgoOn, hfaces, rfl, hends⟩

/-- An index is at most three groups for a number below 2^16. -/
theorem runs_varu16 (hc : c.Inside) {n : Nat} :
    Runs varu16 c n c' ↔ ∃ octets, Groups octets n ∧ octets.length ≤ 3 ∧ n ≤ 0xFFFF ∧
      c.Faces octets ∧ c' = c.moved octets.length := by
  simp only [varu16, uleb128, runs_bind, runs_groups hc]
  constructor
  · rintro ⟨m, _, ⟨octets, hgroups, hlength, hfaces, rfl⟩, h⟩
    split at h
    · exact absurd h not_runs_throw
    · rename_i hbound
      obtain ⟨rfl, rfl⟩ := runs_pure.mp h
      exact ⟨octets, hgroups, hlength, by omega, hfaces, rfl⟩
  · rintro ⟨octets, hgroups, hlength, hbound, hfaces, rfl⟩
    refine ⟨n, _, ⟨octets, hgroups, hlength, hfaces, rfl⟩, ?_⟩
    rw [if_neg (by omega)]
    exact runs_pure.mpr ⟨rfl, rfl⟩

/-! ## Operands -/

/-- An operand that is an index is read as one. -/
theorem operand_of_isIndex {kind : OperandKind} (h : kind.isIndex = true) :
    operand kind = do return some (← varu16) := by
  cases kind with
  | none | branch | immediate | localVar => simp [OperandKind.isIndex] at h
  | address | bytearray | string | functionHandle | fieldDef | structDef => rfl

/-- A byte is a number of width one. -/
theorem runs_u8_iff_unsigned (hc : c.Inside) {n : Nat} :
    (∃ byte, Runs u8 c byte c' ∧ byte.toNat = n) ↔ Runs (unsigned 1) c n c' := by
  rw [runs_unsigned_iff hc]
  constructor
  · rintro ⟨byte, hbyte, rfl⟩
    obtain ⟨hlt, hvalue, rfl⟩ := runs_u8.mp hbyte
    exact ⟨[byte], rfl, Cursor.faces_cons.mpr ⟨hlt, hvalue, Cursor.faces_nil (hc.next hlt)⟩, by
      simp [Bytes.littleEndian], rfl⟩
  · rintro ⟨octets, hlength, hfaces, rfl, rfl⟩
    obtain ⟨byte, rfl⟩ := List.length_eq_one_iff.mp hlength
    obtain ⟨hlt, hvalue, -⟩ := Cursor.faces_cons.mp hfaces
    exact ⟨byte, runs_u8.mpr ⟨hlt, hvalue, rfl⟩, by simp [Bytes.littleEndian]⟩

/-- An operand of fixed width is read as a number of that width. -/
theorem operand_of_width? (hc : c.Inside) {kind : OperandKind} {width : Nat}
    (h : kind.width? = some width) :
    (∀ value c', Runs (operand kind) c value c' ↔ ∃ n, Runs (unsigned width) c n c' ∧ value = some n) ∧
      ∀ fault, Fails (operand kind) c fault ↔ Fails (unsigned width) c fault := by
  cases kind with
  | branch | immediate =>
    obtain rfl := Option.some.inj h
    refine ⟨fun value c' => ?_, fun fault => ?_⟩
    · simp only [operand, u16, u64, runs_bind, runs_pure]
      constructor
      · rintro ⟨n, _, hrun, rfl, rfl⟩
        exact ⟨n, hrun, rfl⟩
      · rintro ⟨n, hrun, rfl⟩
        exact ⟨n, _, hrun, rfl, rfl⟩
    · simp only [operand, u16, u64, fails_bind, not_fails_pure, and_false, exists_false, or_false]
  | localVar =>
    -- This one is read as a byte and not as a number.
    obtain rfl := Option.some.inj h
    refine ⟨fun value c' => ?_, fun fault => ?_⟩
    · simp only [operand, runs_bind, runs_pure, ← runs_u8_iff_unsigned hc]
      constructor
      · rintro ⟨byte, _, hrun, rfl, rfl⟩
        exact ⟨_, ⟨byte, hrun, rfl⟩, rfl⟩
      · rintro ⟨_, ⟨byte, hrun, rfl⟩, rfl⟩
        exact ⟨byte, _, hrun, rfl, rfl⟩
    · simp only [operand, fails_bind, not_fails_pure, and_false, exists_false, or_false, fails_u8,
        fails_unsigned, Nat.lt_succ_iff]
      rfl
  | none | address | bytearray | string | functionHandle | fieldDef | structDef =>
    simp [OperandKind.width?] at h

/-- An operand is read where a spelling of it lies ahead. -/
theorem runs_operand (hc : c.Inside) {kind : OperandKind} {value : Option Nat} :
    Runs (operand kind) c value c' ↔ ∃ octets, kind.Spells octets value ∧ c.Faces octets ∧
      c' = c.moved octets.length := by
  constructor
  · intro h
    -- An operand is absent, an index in groups of seven bits, or a number of fixed width.
    rcases kind.eq_none_or with rfl | hindex | ⟨width, hwidth⟩
    · obtain ⟨rfl, rfl⟩ := runs_pure.mp h
      exact ⟨[], .empty, Cursor.faces_nil hc, rfl⟩
    · rw [operand_of_isIndex hindex] at h
      obtain ⟨n, _, hn, h⟩ := runs_bind.mp h
      obtain ⟨rfl, rfl⟩ := runs_pure.mp h
      obtain ⟨octets, hgroups, hlength, hbound, hfaces, rfl⟩ := (runs_varu16 hc).mp hn
      exact ⟨octets, .index hindex hgroups hlength hbound, hfaces, rfl⟩
    · obtain ⟨n, hn, rfl⟩ := ((operand_of_width? hc hwidth).1 _ _).mp h
      obtain ⟨octets, rfl, hfaces, rfl, rfl⟩ := (runs_unsigned_iff hc).mp hn
      exact ⟨octets, .fixed hwidth, hfaces, rfl⟩
  · rintro ⟨octets, hspells, hfaces, rfl⟩
    cases hspells with
    | empty => exact runs_pure.mpr ⟨rfl, rfl⟩
    | fixed hwidth =>
      exact ((operand_of_width? hc hwidth).1 _ _).mpr
        ⟨_, (runs_unsigned_iff hc).mpr ⟨octets, rfl, hfaces, rfl, rfl⟩, rfl⟩
    | @index _ _ n hindex hgroups hlength hbound =>
      rw [operand_of_isIndex hindex]
      have hn := (runs_varu16 hc).mpr ⟨octets, hgroups, hlength, hbound, hfaces, rfl⟩
      exact runs_bind.mpr ⟨n, _, hn, runs_pure.mpr ⟨rfl, rfl⟩⟩

/-- An operand is refused where no spelling of it lies ahead, with the fault that says what does. -/
theorem fails_operand (hc : c.Inside) {kind : OperandKind} :
    Fails (operand kind) c fault ↔ kind.Misspelled c fault := by
  constructor
  · intro h
    rcases kind.eq_none_or with rfl | hindex | ⟨width, hwidth⟩
    · exact absurd h not_fails_pure
    · rw [operand_of_isIndex hindex] at h
      simp only [fails_bind, not_fails_pure, and_false, exists_false, or_false, varu16, uleb128,
        fails_groups hc, runs_groups hc] at h
      obtain ⟨octets, hgoOn, hfaces, ⟨hlength, rfl⟩ | ⟨hlength, hstop, rfl⟩⟩ |
        ⟨n, _, ⟨octets, hgroups, hlength, hfaces, rfl⟩, h⟩ := h
      · exact .tooLong hindex hfaces hgoOn hlength
      · exact .unended hindex hfaces hgoOn hlength hstop
      · split at h
        · rename_i hlarge
          obtain rfl := fails_throw.mp h
          exact .tooLarge hindex hfaces hgroups hlength hlarge
        · exact absurd h not_fails_pure
    · obtain ⟨hshort, rfl⟩ := fails_unsigned.mp (((operand_of_width? hc hwidth).2 _).mp h)
      exact .cut hwidth hshort
  · intro h
    -- A fault of the groups is one of the index, and so is that of a number that is too large.
    have hvaru16 : kind.isIndex = true → Fails varu16 c fault → Fails (operand kind) c fault :=
      fun hindex h => by rw [operand_of_isIndex hindex]; exact fails_bind.mpr (.inl h)
    cases h with
    | cut hwidth hshort => exact ((operand_of_width? hc hwidth).2 _).mpr (fails_unsigned.mpr ⟨hshort, rfl⟩)
    | unended hindex hfaces hgoOn hlength hstop =>
      exact hvaru16 hindex (fails_bind.mpr
        (.inl ((fails_groups hc).mpr ⟨_, hgoOn, hfaces, .inr ⟨hlength, hstop, rfl⟩⟩)))
    | tooLong hindex hfaces hgoOn hlength =>
      exact hvaru16 hindex (fails_bind.mpr
        (.inl ((fails_groups hc).mpr ⟨_, hgoOn, hfaces, .inl ⟨hlength, rfl⟩⟩)))
    | @tooLarge octets n hindex hfaces hgroups hlength hlarge =>
      refine hvaru16 hindex (fails_bind.mpr
        (.inr ⟨n, _, (runs_groups hc).mpr ⟨octets, hgroups, hlength, hfaces, rfl⟩, ?_⟩))
      rw [if_pos hlarge]
      exact fails_throw.mpr rfl

end Reader

end MoveBytecode
