import MoveBytecode.Proofs.Reading.Varints

/-!
# Readers stay within their windows

A reader is asked for one thing after another, and it is asked on where a request failed. What a request
returns is told by the bytes that it consumes (`Request.Returns`), and where it fails, what lies ahead tells
the fault and the bytes that were read all the same (`Request.Stopped`): none where the bytes do not suffice
for a request of known width, and all up to the defect where it is a number that turns out to be too long
or too large. So the window never changes, and the cursor stays within it and never moves back, whatever
is asked for with whatever counts and offsets (`exchanges_contained`).
-/

namespace MoveBytecode

/-- A cursor in the bounds of its window, which is one of the data. -/
structure Cursor.Within (c : Cursor) : Prop where
  start_le_position : c.start ≤ c.position
  position_le_stop : c.position ≤ c.stop
  stop_le_size : c.stop ≤ c.data.size

namespace Cursor

variable {c : Cursor}

/-- A cursor within its window is inside it. -/
theorem Within.inside (h : c.Within) : c.Inside := ⟨h.position_le_stop, h.stop_le_size⟩

/-- A cursor that moves over bytes that it faces stays within its window. -/
theorem Within.moved (h : c.Within) {octets : List UInt8} (hfaces : c.Faces octets) :
    (c.moved octets.length).Within :=
  ⟨Nat.le_add_right_of_le h.start_le_position, hfaces.room, h.stop_le_size⟩

/-- A cursor is made iff the bounds are in order and within the data. It is at the start of its window. -/
theorem make_eq_ok {data : Bytes} {start : Int} {stop : Option Int} :
    make data start stop = .ok c ↔ 0 ≤ start ∧ start ≤ stop.getD data.size ∧ stop.getD data.size ≤ data.size ∧
      c = ⟨data, start.toNat, start.toNat, (stop.getD data.size).toNat⟩ := by
  simp only [make]
  split
  · simp only [reduceCtorEq, false_iff]
    omega
  · rw [Except.ok.injEq, eq_comm]
    constructor
    · exact fun h => ⟨by omega, by omega, by omega, h⟩
    · exact fun h => h.2.2.2

/-- A window is made of all bounds that `Cursor.make` accepts. -/
theorem slice_eq_ok {offset size : Int} {made : Cursor} :
    c.slice offset size = .ok made ↔ 0 ≤ offset ∧ 0 ≤ size ∧ offset + size ≤ c.data.size ∧
      made = ⟨c.data, offset.toNat, offset.toNat, (offset + size).toNat⟩ := by
  simp only [slice]
  split
  · simp only [reduceCtorEq, false_iff]
    omega
  · rw [make_eq_ok]
    constructor
    · exact fun h => ⟨by omega, by omega, by omega, h.2.2.2⟩
    · exact fun h => ⟨by omega, by simp only [Option.getD_some]; omega, h.2.2.1, h.2.2.2⟩

/-- A slice is refused iff it is not within the data, with a fault that names its bounds. -/
theorem slice_eq_error {offset size : Int} {fault : Fault} :
    c.slice offset size = .error fault ↔ (offset < 0 ∨ size < 0 ∨ c.data.size < offset + size) ∧
      fault = .windowBounds offset size c.data.size := by
  by_cases hbad : offset < 0 ∨ size < 0 ∨ c.data.size < offset + size
  · rw [slice, if_pos hbad, Except.error.injEq, eq_comm]
    exact (and_iff_right hbad).symm
  · have hok : c.slice offset size = .ok ⟨c.data, offset.toNat, offset.toNat, (offset + size).toNat⟩ :=
      slice_eq_ok.mpr ⟨by omega, by omega, by omega, rfl⟩
    simp [hok, hbad]

end Cursor

namespace Reader

/-! ## Requests -/

/-- What can be asked of a reader. -/
inductive Request where
  | u8
  | u16
  | u32
  | u31
  | u64
  | varu16
  | vari32
  | bytes (count : Int)
  | skip (count : Int)
  | slice (offset size : Int)
  deriving DecidableEq

/-- What a request returns. -/
inductive Reply where
  | nothing
  | number (value : Int)
  | bytes (read : Bytes)
  | window (made : Cursor)
  deriving DecidableEq

namespace Request

/-- What a reader does at a request. -/
def perform : Request → Reader Reply
  | .u8 => return .number (← Reader.u8).toNat
  | .u16 => return .number (← Reader.u16)
  | .u32 => return .number (← Reader.u32)
  | .u31 => return .number (← Reader.u31)
  | .u64 => return .number (← Reader.u64)
  | .varu16 => return .number (← Reader.varu16)
  | .vari32 => return .number (← Reader.vari32)
  | .bytes count => return .bytes (← Reader.bytes count)
  | .skip count => do
    Reader.skip count
    return .nothing
  | .slice offset size => return .window (← ofExcept ((← get).slice offset size))

/-- The width of the numbers of which any are returned. -/
def width? : Request → Option Nat
  | .u8 => some 1
  | .u16 => some 2
  | .u32 => some 4
  | .u64 => some 8
  | .u31 | .varu16 | .vari32 | .bytes _ | .skip _ | .slice _ _ => none

/-- How many bytes are asked for, where that is known beforehand. -/
def count? : Request → Option Int
  | .u8 => some 1
  | .u16 => some 2
  | .u32 | .u31 => some 4
  | .u64 => some 8
  | .bytes count | .skip count => some count
  | .varu16 | .vari32 | .slice _ _ => none

/-- How many groups of seven bits there may be. -/
def limit? : Request → Option Nat
  | .varu16 => some 3
  | .vari32 => some 5
  | .u8 | .u16 | .u32 | .u31 | .u64 | .bytes _ | .skip _ | .slice _ _ => none

/-- The bytes that a request consumes, and what it returns for them. Only a window is one of the data. -/
inductive Returns (data : Bytes) : Request → List UInt8 → Reply → Prop
  | fixed {request : Request} {octets : List UInt8} (h : request.width? = some octets.length) :
    Returns data request octets (.number (Bytes.littleEndian octets))
  | u31 {octets : List UInt8} (length : octets.length = 4) (bound : Bytes.littleEndian octets < 0x80000000) :
    Returns data .u31 octets (.number (Bytes.littleEndian octets))
  | varu16 {octets : List UInt8} {n : Nat} (groups : Groups octets n) (length : octets.length ≤ 3)
    (bound : n ≤ 0xFFFF) : Returns data .varu16 octets (.number n)
  | vari32 {octets : List UInt8} {n : Nat} (groups : Groups octets n) (length : octets.length ≤ 5) :
    Returns data .vari32 octets (.number (signed32 n))
  | bytes {octets : List UInt8} : Returns data (.bytes octets.length) octets (.bytes octets.toArray)
  | skip {octets : List UInt8} : Returns data (.skip octets.length) octets .nothing
  | slice {offset size : Nat} (h : offset + size ≤ data.size) :
    Returns data (.slice offset size) [] (.window ⟨data, offset, offset, offset + size⟩)

/-- What lies ahead of a cursor where a request fails: the bytes that are read all the same, and the
fault. -/
inductive Stopped (c : Cursor) : Request → List UInt8 → Fault → Prop
  /-- Fewer bytes than none are asked for, or more than there are. -/
  | short {request : Request} {count : Int} (h : request.count? = some count)
    (short : count < 0 ∨ (c.stop : Int) < c.position + count) :
    Stopped c request [] (.shortRead count c.position c.stop)
  /-- Four bytes are a number of 32 bits. -/
  | wide {octets : List UInt8} (length : octets.length = 4)
    (large : 0x80000000 ≤ Bytes.littleEndian octets) :
    Stopped c .u31 octets (.tooWideFor31Bits (Bytes.littleEndian octets))
  /-- Fewer groups than there may be go on to the bound. -/
  | unended {request : Request} {octets : List UInt8} {limit : Nat} (h : request.limit? = some limit)
    (goOn : GoOn octets) (length : octets.length < limit) (stop : c.stop = c.position + octets.length) :
    Stopped c request octets (.shortRead 1 c.stop c.stop)
  /-- As many groups as there may be go on. -/
  | tooLong {request : Request} {octets : List UInt8} {limit : Nat} (h : request.limit? = some limit)
    (goOn : GoOn octets) (length : octets.length = limit) : Stopped c request octets (.varintTooLong limit)
  /-- Groups stand for a number with more than 16 bits. -/
  | tooLarge {octets : List UInt8} {n : Nat} (groups : Groups octets n) (length : octets.length ≤ 3)
    (large : 0xFFFF < n) : Stopped c .varu16 octets (.varintTooLarge n)
  /-- A window does not lie within the data. -/
  | beyond {offset size : Int} (h : offset < 0 ∨ size < 0 ∨ c.data.size < offset + size) :
    Stopped c (.slice offset size) [] (.windowBounds offset size c.data.size)

end Request

/-! ## What a request comes to -/

variable {c c' : Cursor} {fault : Fault}

section Parts

variable {α β : Type} {r : Reader α}

/-- A read whose value is changed ends where the read does. -/
theorem runs_bind_pure {f : α → β} {b : β} :
    Runs (do return f (← r)) c b c' ↔ ∃ a, Runs r c a c' ∧ f a = b := by
  rw [runs_bind]
  constructor
  · rintro ⟨a, _, ha, h⟩
    obtain ⟨rfl, rfl⟩ := runs_pure.mp h
    exact ⟨a, ha, rfl⟩
  · rintro ⟨a, ha, rfl⟩
    exact ⟨a, c', ha, runs_pure.mpr ⟨rfl, rfl⟩⟩

/-- A read whose value is changed stops where the read does. -/
theorem stops_bind_pure {f : α → β} : Stops (do return f (← r)) c fault c' ↔ Stops r c fault c' := by
  simp only [stops_bind, not_stops_pure, and_false, exists_false, or_false]

/-- A check of what was read refuses it after the read. -/
theorem runs_checked {e : α → Fault} (bad : α → Prop) [DecidablePred bad] {a : α} :
    Runs (do let value ← r; if bad value then throw (e value) else return value) c a c' ↔
      Runs r c a c' ∧ ¬ bad a := by
  rw [runs_bind]
  constructor
  · rintro ⟨b, d, hb, h⟩
    split at h
    · exact absurd h not_runs_throw
    · obtain ⟨rfl, rfl⟩ := runs_pure.mp h
      exact ⟨hb, ‹_›⟩
  · rintro ⟨ha, hgood⟩
    refine ⟨a, c', ha, ?_⟩
    rw [if_neg hgood]
    exact runs_pure.mpr ⟨rfl, rfl⟩

/-- A read with a check stops where the read does, or behind it with a value that fails the check. -/
theorem stops_checked {e : α → Fault} (bad : α → Prop) [DecidablePred bad] :
    Stops (do let value ← r; if bad value then throw (e value) else return value) c fault c' ↔
      Stops r c fault c' ∨ ∃ a, Runs r c a c' ∧ bad a ∧ fault = e a := by
  rw [stops_bind]
  refine or_congr_right ⟨?_, ?_⟩
  · rintro ⟨a, d, ha, h⟩
    split at h
    · obtain ⟨rfl, rfl⟩ := stops_throw.mp h
      exact ⟨a, ha, ‹_›, rfl⟩
    · exact absurd h not_stops_pure
  · rintro ⟨a, ha, hbad, rfl⟩
    refine ⟨a, c', ha, ?_⟩
    rw [if_pos hbad]
    exact stops_throw.mpr ⟨rfl, rfl⟩

/-- A number of 31 bits is an unsigned number of four bytes that is small enough. -/
theorem runs_u31 {n : Nat} : Runs u31 c n c' ↔ Runs (unsigned 4) c n c' ∧ n < 0x80000000 := by
  rw [← Nat.not_le]
  exact runs_checked (0x80000000 ≤ ·)

/-- Reading a number of 31 bits stops for missing bytes or behind a number that is too wide. -/
theorem stops_u31 : Stops u31 c fault c' ↔ Stops (unsigned 4) c fault c' ∨
    ∃ n, Runs (unsigned 4) c n c' ∧ 0x80000000 ≤ n ∧ fault = .tooWideFor31Bits n :=
  stops_checked (0x80000000 ≤ ·)

/-- Reading an index stops for its groups or behind a number that is too large. -/
theorem stops_varu16 : Stops varu16 c fault c' ↔ Stops (groups 3 3) c fault c' ∨
    ∃ n, Runs (groups 3 3) c n c' ∧ 0xFFFF < n ∧ fault = .varintTooLarge n :=
  stops_checked (0xFFFF < ·)

/-- Skipping bytes ends iff there are the bytes. -/
theorem runs_skip {count : Int} {u : Unit} : Runs (skip count) c u c' ↔
    0 ≤ count ∧ c.position + count ≤ c.stop ∧ c' = c.moved count.toNat := by
  simp only [skip, runs_bind, runs_pure, runs_advance]
  constructor
  · rintro ⟨_, _, ⟨hcount, hroom, -, rfl⟩, -, rfl⟩
    exact ⟨hcount, hroom, rfl⟩
  · rintro ⟨hcount, hroom, rfl⟩
    exact ⟨_, _, ⟨hcount, hroom, rfl, rfl⟩, trivial, rfl⟩

/-- Skipping bytes stops iff there are not the bytes, at the same place. -/
theorem stops_skip {count : Int} : Stops (skip count) c fault c' ↔
    (count < 0 ∨ (c.stop : Int) < c.position + count) ∧ fault = .shortRead count c.position c.stop ∧
      c' = c := by
  simp only [skip, stops_bind, not_stops_pure, and_false, exists_false, or_false, stops_advance]

/-- A result that is taken over stops with its fault, at the same place. -/
theorem stops_ofExcept {x : Except Fault α} :
    Stops (ofExcept x : Reader α) c fault c' ↔ x = .error fault ∧ c' = c := by
  cases x with
  | error e => simp [ofExcept, eq_comm]
  | ok a => simp [ofExcept]

/-- As many bytes lie ahead as there are to the bound. -/
theorem exists_faces (hc : c.Inside) {count : Int} (hcount : 0 ≤ count)
    (hroom : (c.position : Int) + count ≤ c.stop) :
    ∃ octets : List UInt8, (octets.length : Int) = count ∧ c.Faces octets := by
  obtain ⟨count, rfl⟩ := Int.eq_ofNat_of_zero_le hcount
  have hahead : c.position + count ≤ c.stop := by omega
  obtain ⟨hfaces, hlength⟩ := Cursor.faces_window hahead hc
  exact ⟨_, congrArg _ hlength, hfaces⟩

end Parts

namespace Request

variable {request : Request} {reply : Reply}

/-- A request for a number of fixed width is one for a number of that width. -/
theorem perform_of_width? (hc : c.Inside) {width : Nat} (h : request.width? = some width) :
    (∀ reply c', Runs request.perform c reply c' ↔
      ∃ n : Nat, Runs (unsigned width) c n c' ∧ .number n = reply) ∧
    ∀ fault c', Stops request.perform c fault c' ↔ Stops (unsigned width) c fault c' := by
  cases request with
  | u8 =>
    -- This one is read as a byte and not as a number.
    obtain rfl := Option.some.inj h
    refine ⟨fun reply c' => ?_, fun fault c' => ?_⟩
    · simp only [perform, runs_bind_pure, ← runs_u8_iff_unsigned hc]
      constructor
      · rintro ⟨byte, hrun, rfl⟩
        exact ⟨_, ⟨byte, hrun, rfl⟩, rfl⟩
      · rintro ⟨_, ⟨byte, hrun, rfl⟩, rfl⟩
        exact ⟨byte, hrun, rfl⟩
    · rw [perform, stops_bind_pure, stops_u8, stops_unsigned]
      simp only [Nat.lt_succ_iff]
      rfl
  | u16 | u32 | u64 =>
    obtain rfl := Option.some.inj h
    exact ⟨fun reply c' => runs_bind_pure, fun fault c' => stops_bind_pure⟩
  | u31 | varu16 | vari32 | bytes | skip | slice => simp [width?] at h

/-- A request for a slice replies with a window and stays at the same place. -/
theorem runs_perform_slice {offset size : Int} : Runs (slice offset size).perform c reply c' ↔
    ∃ made, c.slice offset size = .ok made ∧ .window made = reply ∧ c' = c := by
  simp only [perform, runs_bind, runs_get, runs_pure, runs_ofExcept]
  constructor
  · rintro ⟨_, _, ⟨rfl, rfl⟩, made, _, ⟨hmade, rfl⟩, rfl, rfl⟩
    exact ⟨made, hmade, rfl, rfl⟩
  · rintro ⟨made, hmade, rfl, rfl⟩
    exact ⟨_, _, ⟨rfl, rfl⟩, made, _, ⟨hmade, rfl⟩, rfl, rfl⟩

/-- A request for a slice that is refused stays at the same place. -/
theorem stops_perform_slice {offset size : Int} : Stops (slice offset size).perform c fault c' ↔
    c.slice offset size = .error fault ∧ c' = c := by
  simp only [perform, stops_bind, runs_get, not_stops_get, not_stops_pure, stops_ofExcept, and_false,
    exists_false, or_false, false_or]
  constructor
  · rintro ⟨_, _, ⟨rfl, rfl⟩, h⟩
    exact h
  · exact fun h => ⟨_, _, ⟨rfl, rfl⟩, h⟩

/-- Where bytes lie ahead for which a request returns something, it does, and the cursor moves over them. -/
theorem Returns.runs {octets : List UInt8} (h : request.Returns c.data octets reply)
    (hfaces : c.Faces octets) : Runs request.perform c reply (c.moved octets.length) := by
  have hc := hfaces.cursor_inside
  have hroom := hfaces.room
  cases h with
  | fixed hwidth =>
    exact ((perform_of_width? hc hwidth).1 _ _).mpr
      ⟨_, (runs_unsigned_iff hc).mpr ⟨octets, rfl, hfaces, rfl, rfl⟩, rfl⟩
  | u31 hlength hbound =>
    have hread := (runs_unsigned_iff hc).mpr ⟨octets, hlength, hfaces, rfl, rfl⟩
    exact runs_bind_pure.mpr ⟨_, runs_u31.mpr ⟨hread, hbound⟩, rfl⟩
  | varu16 hgroups hlength hbound =>
    exact runs_bind_pure.mpr ⟨_, (runs_varu16 hc).mpr ⟨octets, hgroups, hlength, hbound, hfaces, rfl⟩, rfl⟩
  | vari32 hgroups hlength =>
    exact runs_bind_pure.mpr ⟨_, (runs_vari32 hc).mpr ⟨octets, ⟨_, hgroups, hlength, rfl⟩, hfaces, rfl⟩, rfl⟩
  | bytes =>
    refine runs_bind_pure.mpr ⟨_, runs_bytes.mpr ⟨by omega, by omega, rfl, rfl⟩, ?_⟩
    rw [Int.toNat_natCast, hfaces.window]
  | skip => exact runs_bind.mpr ⟨⟨⟩, _, runs_skip.mpr ⟨by omega, by omega, rfl⟩, runs_pure.mpr ⟨rfl, rfl⟩⟩
  | slice hfits =>
    exact runs_perform_slice.mpr ⟨_, Cursor.slice_eq_ok.mpr ⟨by omega, by omega, by omega, rfl⟩, rfl, rfl⟩

/-- Where a request returns something, bytes lie ahead for which it does. -/
theorem exists_returns (hc : c.Inside) (h : Runs request.perform c reply c') :
    ∃ octets, c.Faces octets ∧ c' = c.moved octets.length ∧ request.Returns c.data octets reply := by
  cases request with
  | u8 | u16 | u32 | u64 =>
    obtain ⟨n, hrun, rfl⟩ := ((perform_of_width? hc rfl).1 _ _).mp h
    obtain ⟨octets, hlength, hfaces, rfl, rfl⟩ := (runs_unsigned_iff hc).mp hrun
    exact ⟨octets, hfaces, rfl, .fixed (congrArg some hlength.symm)⟩
  | u31 =>
    obtain ⟨n, hn, rfl⟩ := runs_bind_pure.mp h
    obtain ⟨hrun, hbound⟩ := runs_u31.mp hn
    obtain ⟨octets, hlength, hfaces, rfl, rfl⟩ := (runs_unsigned_iff hc).mp hrun
    exact ⟨octets, hfaces, rfl, .u31 hlength hbound⟩
  | varu16 =>
    obtain ⟨n, hn, rfl⟩ := runs_bind_pure.mp h
    obtain ⟨octets, hgroups, hlength, hbound, hfaces, rfl⟩ := (runs_varu16 hc).mp hn
    exact ⟨octets, hfaces, rfl, .varu16 hgroups hlength hbound⟩
  | vari32 =>
    obtain ⟨_, hz, rfl⟩ := runs_bind_pure.mp h
    obtain ⟨octets, ⟨n, hgroups, hlength, rfl⟩, hfaces, rfl⟩ := (runs_vari32 hc).mp hz
    exact ⟨octets, hfaces, rfl, .vari32 hgroups hlength⟩
  | bytes count =>
    obtain ⟨read, hread, rfl⟩ := runs_bind_pure.mp h
    obtain ⟨hcount, hroom, rfl, rfl⟩ := runs_bytes.mp hread
    obtain ⟨octets, rfl, hfaces⟩ := exists_faces hc hcount hroom
    rw [Int.toNat_natCast, hfaces.window]
    exact ⟨octets, hfaces, rfl, .bytes⟩
  | skip count =>
    obtain ⟨_, _, hskip, h⟩ := runs_bind.mp h
    obtain ⟨hcount, hroom, rfl⟩ := runs_skip.mp hskip
    obtain ⟨rfl, rfl⟩ := runs_pure.mp h
    obtain ⟨octets, rfl, hfaces⟩ := exists_faces hc hcount hroom
    exact ⟨octets, hfaces, rfl, .skip⟩
  | slice offset size =>
    -- A slice checks its window against the cursor and reads nothing.
    obtain ⟨made, hmade, rfl, rfl⟩ := runs_perform_slice.mp h
    obtain ⟨hoffset, hsize, hfits, rfl⟩ := Cursor.slice_eq_ok.mp hmade
    obtain ⟨offset, rfl⟩ := Int.eq_ofNat_of_zero_le hoffset
    obtain ⟨size, rfl⟩ := Int.eq_ofNat_of_zero_le hsize
    exact ⟨[], Cursor.faces_nil hc, rfl, .slice (by omega)⟩

/-- Where a number in groups does not end, or not soon enough. -/
theorem exists_stopped_of_groups (hc : c.Inside) {limit : Nat} (hlimit : request.limit? = some limit)
    (h : Stops (groups limit limit) c fault c') :
    ∃ octets, c.Faces octets ∧ c' = c.moved octets.length ∧ request.Stopped c octets fault := by
  obtain ⟨octets, hgoOn, hfaces, rfl, ⟨hlength, rfl⟩ | ⟨hlength, hstop, rfl⟩⟩ := (stops_groups hc).mp h
  · exact ⟨octets, hfaces, rfl, .tooLong hlimit hgoOn hlength⟩
  · exact ⟨octets, hfaces, rfl, .unended hlimit hgoOn hlength hstop⟩

/-- Where a request fails, what lies ahead says why, and the cursor has moved over what was read of it. -/
theorem exists_stopped (hc : c.Inside) (h : Stops request.perform c fault c') :
    ∃ octets, c.Faces octets ∧ c' = c.moved octets.length ∧ request.Stopped c octets fault := by
  -- A request for more bytes than there are reads none of them.
  have hshort : ∀ {count : Int}, request.count? = some count →
      (count < 0 ∨ (c.stop : Int) < c.position + count) ∧ fault = .shortRead count c.position c.stop ∧
        c' = c →
      ∃ octets, c.Faces octets ∧ c' = c.moved octets.length ∧ request.Stopped c octets fault := by
    rintro count hcount ⟨hshort, rfl, rfl⟩
    exact ⟨[], Cursor.faces_nil hc, rfl, .short hcount hshort⟩
  cases request with
  | u8 | u16 | u32 | u64 =>
    obtain ⟨hcut, rfl, rfl⟩ := stops_unsigned.mp (((perform_of_width? hc rfl).2 _ _).mp h)
    exact hshort rfl ⟨.inr (by omega), rfl, rfl⟩
  | u31 =>
    rcases stops_u31.mp (stops_bind_pure.mp h) with hcut | ⟨n, hrun, hlarge, rfl⟩
    · obtain ⟨hcut, rfl, rfl⟩ := stops_unsigned.mp hcut
      exact hshort rfl ⟨.inr (by omega), rfl, rfl⟩
    · obtain ⟨octets, hlength, hfaces, rfl, rfl⟩ := (runs_unsigned_iff hc).mp hrun
      exact ⟨octets, hfaces, rfl, .wide hlength hlarge⟩
  | varu16 =>
    rcases stops_varu16.mp (stops_bind_pure.mp h) with hgroups | ⟨n, hrun, hlarge, rfl⟩
    · exact exists_stopped_of_groups hc rfl hgroups
    · obtain ⟨octets, hgroups, hlength, hfaces, rfl⟩ := (runs_groups hc).mp hrun
      exact ⟨octets, hfaces, rfl, .tooLarge hgroups hlength hlarge⟩
  | vari32 =>
    exact exists_stopped_of_groups hc rfl (stops_bind_pure.mp (stops_bind_pure.mp h))
  | bytes count => exact hshort rfl (stops_bytes.mp (stops_bind_pure.mp h))
  | skip count =>
    simp only [perform, stops_bind, not_stops_pure, and_false, exists_false, or_false] at h
    exact hshort rfl (stops_skip.mp h)
  | slice offset size =>
    obtain ⟨hbeyond, rfl⟩ := stops_perform_slice.mp h
    obtain ⟨hbad, rfl⟩ := Cursor.slice_eq_error.mp hbeyond
    exact ⟨[], Cursor.faces_nil hc, rfl, .beyond hbad⟩

end Request

/-! ## Request after request -/

/-- Replies that are alike. Windows are so if they have the same bounds, in whatever data. -/
def Reply.Alike : Reply → Reply → Prop
  | .window made, .window other =>
    made.start = other.start ∧ made.position = other.position ∧ made.stop = other.stop
  | reply, other => reply = other

/-- Bytes for which a request returns something in one file are those for which it returns the like in every
other, if only a window of this size fits into it. -/
theorem Request.Returns.transfer {request : Request} {data other : Bytes} {octets : List UInt8}
    {reply : Reply} (h : request.Returns data octets reply)
    (hfits : ∀ made, reply = .window made → made.stop ≤ other.size) :
    ∃ like, request.Returns other octets like ∧ like.Alike reply := by
  cases h with
  | fixed h => exact ⟨_, .fixed h, rfl⟩
  | u31 length bound => exact ⟨_, .u31 length bound, rfl⟩
  | varu16 groups length bound => exact ⟨_, .varu16 groups length bound, rfl⟩
  | vari32 groups length => exact ⟨_, .vari32 groups length, rfl⟩
  | bytes => exact ⟨_, .bytes, rfl⟩
  | skip => exact ⟨_, .skip, rfl⟩
  | slice => exact ⟨_, .slice (hfits _ rfl), rfl, rfl, rfl⟩

/-- A request that a reader answers, with the cursors before and after it. -/
structure Exchange where
  request : Request
  before : Cursor
  result : Except Fault Reply
  after : Cursor

/-- A request is put to a reader at a cursor. -/
def exchange (request : Request) (c : Cursor) : Exchange :=
  ⟨request, c, (request.perform.runAt c).1, (request.perform.runAt c).2⟩

/-- Requests are put to a reader one after another, each where the last one left its cursor, whether or not
that one failed. -/
def exchanges : List Request → Cursor → List Exchange
  | [], _ => []
  | request :: rest, c => exchange request c :: exchanges rest (exchange request c).after

/-- What holds of an exchange with a reader that was at the cursor `c` before. -/
structure Exchange.Contained (c : Cursor) (e : Exchange) : Prop where
  before_within : e.before.Within
  after_within : e.after.Within
  /-- The window is still the same. -/
  window : e.after.data = c.data ∧ e.after.start = c.start ∧ e.after.stop = c.stop
  /-- The cursor does not move back. -/
  forward : c.position ≤ e.before.position ∧ e.before.position ≤ e.after.position
  /-- What is returned is told by the bytes between the cursors: wherever these lie ahead, in whatever
  window of whatever data, the same request returns the like and consumes as much. -/
  returned : ∀ reply, e.result = .ok reply → ∃ octets, e.before.Faces octets ∧
    e.after = e.before.moved octets.length ∧ e.request.Returns e.before.data octets reply ∧
    ∀ d : Cursor, d.Faces octets → (∀ made, reply = .window made → made.stop ≤ d.data.size) →
      ∃ like, Runs e.request.perform d like (d.moved octets.length) ∧ like.Alike reply
  /-- A window that is returned is a reader of its own. -/
  nested : ∀ made, e.result = .ok (.window made) → ∃ start stop, Cursor.make c.data start stop = .ok made
  /-- A failure moves the cursor over the bytes that were read. -/
  stopped : ∀ fault, e.result = .error fault → ∃ octets, e.before.Faces octets ∧
    e.after = e.before.moved octets.length ∧ e.request.Stopped e.before octets fault
  /-- Without groups of bits, it does not move where there are too few bytes. -/
  unmoved : ∀ fault, e.result = .error fault → fault.kind = .endOfInput → e.request.limit? = none →
    e.after = e.before

variable {request : Request} {reply : Reply}

/-- A request that is replied to runs to the cursor behind the exchange. -/
theorem runs_of_result (h : (exchange request c).result = .ok reply) :
    Runs request.perform c reply (exchange request c).after :=
  Prod.ext h rfl

/-- A request that fails stops at the cursor behind the exchange. -/
theorem stops_of_result (h : (exchange request c).result = .error fault) :
    Stops request.perform c fault (exchange request c).after :=
  Prod.ext h rfl

/-- Whether or not a request fails, the cursor has moved over bytes that lay ahead. -/
theorem exists_moved (hc : c.Inside) (request : Request) :
    ∃ octets, c.Faces octets ∧ (exchange request c).after = c.moved octets.length := by
  cases hresult : (exchange request c).result with
  | ok reply =>
    obtain ⟨octets, hfaces, hmoved, -⟩ := Request.exists_returns hc (runs_of_result hresult)
    exact ⟨octets, hfaces, hmoved⟩
  | error fault =>
    obtain ⟨octets, hfaces, hmoved, -⟩ := Request.exists_stopped hc (stops_of_result hresult)
    exact ⟨octets, hfaces, hmoved⟩

/-- What one request comes to. -/
theorem exchange_contained (h : c.Within) (request : Request) : (exchange request c).Contained c := by
  obtain ⟨octets, hfaces, hmoved⟩ := exists_moved h.inside request
  exact {
    before_within := h
    after_within := hmoved ▸ h.moved hfaces
    window := by rw [hmoved]; exact ⟨rfl, rfl, rfl⟩
    forward := ⟨Nat.le_refl _, by rw [hmoved]; exact Nat.le_add_right _ _⟩
    returned := fun reply hresult => by
      obtain ⟨read, hread, hafter, hreturns⟩ := Request.exists_returns h.inside (runs_of_result hresult)
      refine ⟨read, hread, hafter, hreturns, fun d hd hfits => ?_⟩
      obtain ⟨like, hlike, halike⟩ := hreturns.transfer hfits
      exact ⟨like, hlike.runs hd, halike⟩
    nested := fun made hresult => by
      obtain ⟨read, -, -, hreturns⟩ := Request.exists_returns h.inside (runs_of_result hresult)
      -- Only a slice replies with a cursor.
      cases hreturns with
      | @slice offset size hfits =>
        exact ⟨offset, some (offset + size), Cursor.make_eq_ok.mpr
          ⟨by omega, by rw [Option.getD_some]; omega, by rw [Option.getD_some]; omega, rfl⟩⟩
    stopped := fun fault hresult => Request.exists_stopped h.inside (stops_of_result hresult)
    unmoved := fun fault hresult hkind hlimit => by
      obtain ⟨read, -, hafter, hstopped⟩ := Request.exists_stopped h.inside (stops_of_result hresult)
      cases hstopped with
      | short | beyond => exact hafter
      | wide | tooLarge => simp [Fault.kind] at hkind
      | unended hgroups | tooLong hgroups => simp [exchange, hgroups] at hlimit }

/-- What each of the requests comes to that are put one after another. -/
theorem contained_of_mem_exchanges {requests : List Request} (h : c.Within) {e : Exchange}
    (he : e ∈ exchanges requests c) : e.Contained c := by
  -- What holds of one request keeps the cursor within its window, for the next one.
  induction requests generalizing c with
  | nil => simp [exchanges] at he
  | cons request rest ih =>
    have hfirst := exchange_contained h request
    rcases List.mem_cons.mp he with rfl | he
    · exact hfirst
    · have hlater := ih hfirst.after_within he
      obtain ⟨hdata, hstart, hstop⟩ := hfirst.window
      obtain ⟨hdata', hstart', hstop'⟩ := hlater.window
      exact { hlater with
        window := ⟨hdata'.trans hdata, hstart'.trans hstart, hstop'.trans hstop⟩
        forward := ⟨Nat.le_trans hfirst.forward.2 hlater.forward.1, hlater.forward.2⟩
        nested := hdata ▸ hlater.nested }

/-- A reader is made with a cursor at the start of its window, and whatever is asked of it, the cursor stays
within the window and moves forward only, over the bytes that were read. -/
theorem exchanges_contained {data : Bytes} {start : Int} {stop : Option Int}
    (h : Cursor.make data start stop = .ok c) (requests : List Request) :
    (c.data = data ∧ (c.start : Int) = start ∧ c.position = c.start ∧ (c.stop : Int) = stop.getD data.size ∧
      c.Within) ∧
    ∀ e ∈ exchanges requests c, e.Contained c := by
  obtain ⟨hstart, hstop, hsize, rfl⟩ := Cursor.make_eq_ok.mp h
  have hwithin : Cursor.Within ⟨data, start.toNat, start.toNat, (stop.getD data.size).toNat⟩ :=
    ⟨Nat.le_refl _, by simp only; omega, by simp only; omega⟩
  refine ⟨⟨rfl, ?_, rfl, ?_, hwithin⟩, fun e he => contained_of_mem_exchanges hwithin he⟩
  · exact Int.toNat_of_nonneg hstart
  · exact Int.toNat_of_nonneg (Int.le_trans hstart hstop)

/-- Of four bytes, of which three go on, too many are asked for, then a number of 16 bits, a window before the
data, and a byte. Only the number and the byte move the cursor. -/
theorem exchanges_contained_of_goOn :
    (∃ c, Cursor.make #[7, 0x80, 0x80, 0x80, 1] 1 none = .ok c ∧
      ∀ e ∈ exchanges [.bytes (-1), .u64, .varu16, .slice (-2) 9, .u8] c, e.Contained c) ∧
    (exchanges [.bytes (-1), .u64, .varu16, .slice (-2) 9, .u8] ⟨#[7, 0x80, 0x80, 0x80, 1], 1, 1, 5⟩).map
      (·.after.position) = [1, 1, 4, 4, 5] :=
  have hmake : Cursor.make #[7, 0x80, 0x80, 0x80, 1] 1 none = .ok ⟨#[7, 0x80, 0x80, 0x80, 1], 1, 1, 5⟩ := rfl
  ⟨⟨_, hmake, (exchanges_contained hmake _).2⟩, by decide⟩

end Reader

end MoveBytecode
