import MoveBytecode.Proofs.Loading.Decode
import MoveBytecode.Proofs.Loading.Readers

/-!
# The constants of a file

An address is all of its record; a byte array and a text are what stands behind the length in front of
them. Every constant of a loaded module is the payload of its record (`Module.Loads.exists_payload`),
and so are its bytes in the data segment, where a text ends with a zero byte (`Entry.StandsAs.bytes_eq`):
a text has the bytes that it was decoded from.
-/

namespace MoveBytecode

open Reader

/-- What stands in a file between the length with which the record at `place` begins and the end of the
record, which are as many bytes as the length says. -/
def Bytes.Counted (data : Bytes) (place : Extent) (payload : Bytes) : Prop :=
  ∃ c d, c.data = data ∧ (c.position : Int) = place.start ∧
    Runs Table.readLength c (payload.size : Int) d ∧
      (d.position : Int) + payload.size = place.stop ∧
        payload = data.window d.position payload.size

/-- The payload of a constant: what stands for it in the file that it was read from. -/
def Entry.StandsAs (data : Bytes) (e : Entry Datum) (payload : Bytes) : Prop :=
  match e.record with
  | .address value =>
    value = payload ∧ (payload.size : Int) = e.file.size ∧
      payload = data.window e.file.start.toNat payload.size
  | .bytearray value => value = payload ∧ data.Counted e.file payload
  | .text value => Text.Utf8.decode payload = .ok value ∧ data.Counted e.file payload

/-- A payload as the data segment holds it: a text ends with a zero byte there. -/
def Datum.image (d : Datum) (payload : Bytes) : Bytes :=
  match d with
  | .address _ | .bytearray _ => payload
  | .text _ => payload.push 0

/-- How many bytes a constant has behind its payload in the data segment. -/
def Datum.trailing : Datum → Nat
  | .address _ | .bytearray _ => 0
  | .text _ => 1

/-- In the data segment a constant is as long as its payload and what trails it. -/
@[simp] theorem Datum.size_image (d : Datum) (payload : Bytes) :
    (d.image payload).size = payload.size + d.trailing := by
  cases d <;> simp [image, trailing]

/-- A text has the bytes that it was decoded from. -/
theorem Text.Utf8.ofText_of_decode {raw : Bytes} {text : String} (h : decode raw = .ok text) :
    Bytes.ofText text = raw := by
  unfold decode at h
  split at h
  · rename_i read hread
    obtain rfl := Except.ok.inj h
    unfold String.fromUTF8? at hread
    split at hread
    · obtain rfl := Option.some.inj hread
      rfl
    · simp at hread
  · simp at h

namespace Entry

variable {data : Bytes} {e : Entry Datum} {payload : Bytes}

/-- A constant has the bytes of its payload. -/
theorem StandsAs.bytes_eq (h : e.StandsAs data payload) :
    e.record.bytes = e.record.image payload := by
  unfold StandsAs at h
  split at h
  · rename_i value hvalue
    rw [hvalue, Datum.bytes, Datum.image, h.1]
  · rename_i value hvalue
    rw [hvalue, Datum.bytes, Datum.image, h.1]
  · rename_i value hvalue
    rw [hvalue, Datum.bytes, Datum.image, Text.Utf8.ofText_of_decode h.1]

/-- The addresses of a constant do not matter. -/
theorem StandsAs.of_unmapped {e' : Entry Datum} (h : e.StandsAs data payload)
    (he : e.unmapped = e'.unmapped) : e'.StandsAs data payload := by
  have hfile : e.file = e'.file := by rw [← e.file_unmapped, he, e'.file_unmapped]
  have hrecord : e.record = e'.record := by rw [← e.record_unmapped, he, e'.record_unmapped]
  unfold StandsAs at h ⊢
  rw [← hrecord, ← hfile]
  exact h

end Entry

namespace Table

variable {c c' : Cursor}

/-- The place of a record that was read between two cursors. -/
def placeOf (c c' : Cursor) : Extent := ⟨c.position, (c'.position - c.position : Nat)⟩

/-- The place of a record stops where the reader did. -/
theorem stop_placeOf (h : c.position ≤ c'.position) : (placeOf c c').stop = c'.position := by
  simp only [placeOf, Extent.stop]
  omega

/-- As many bytes as a length says, behind it. -/
theorem counted_of_bytes {d : Cursor} {length : Int} {raw : Bytes} (hc : c.Inside)
    (hlength : Runs readLength c length d) (hraw : Runs (Reader.bytes length) d raw c') :
    c.data.Counted (placeOf c c') raw ∧ c.Reaches c' := by
  have hreach := progresses_readLength.1 c length d hlength
  have hreach' := advances_bytes length d raw c' hraw
  obtain ⟨hnonneg, hstop, hwindow, rfl⟩ := runs_bytes.mp hraw
  have hd := hreach.inside hc
  have hsize : raw.size = length.toNat := by
    rw [hwindow]
    refine Body.size_window ?_
    have := hd.2
    omega
  refine ⟨⟨c, d, rfl, rfl, ?_, ?_, ?_⟩, hreach.trans hreach'⟩
  · rwa [hsize, Int.toNat_of_nonneg hnonneg]
  · rw [stop_placeOf (hreach.trans hreach').le, hsize]
    rfl
  · rw [hsize, ← hreach.data]
    exact hwindow

/-- An address stands in the file as it was read. -/
theorem standsAs_of_readAddress {a : Bytes} (hc : c.Inside) (h : Runs readAddress c a c') :
    (∀ n mapping, ∃ payload,
      Entry.StandsAs c.data ⟨n, placeOf c c', mapping, .address a⟩ payload) ∧ c.Reaches c' := by
  have hsize := size_of_readAddress hc h
  have hreach := advances_bytes _ c a c' h
  obtain ⟨-, -, ha, rfl⟩ := runs_bytes.mp h
  refine ⟨fun n mapping => ⟨a, rfl, ?_, ?_⟩, hreach⟩
  · simp [placeOf, hsize, addressLength]
  · rw [hsize]
    exact ha

/-- A byte array stands in the file as it was read. -/
theorem standsAs_of_readBytearray {a : Bytes} (hc : c.Inside) (h : Runs readBytearray c a c') :
    (∀ n mapping, ∃ payload,
      Entry.StandsAs c.data ⟨n, placeOf c c', mapping, .bytearray a⟩ payload) ∧
      c.Reaches c' := by
  obtain ⟨length, d, hlength, hraw⟩ := runs_bind.mp h
  obtain ⟨hcounted, hreach⟩ := counted_of_bytes hc hlength hraw
  exact ⟨fun n mapping => ⟨a, rfl, hcounted⟩, hreach⟩

/-- A text stands in the file as it was read. -/
theorem standsAs_of_readString {text : String} (hc : c.Inside) (h : Runs readString c text c') :
    (∀ n mapping, ∃ payload,
      Entry.StandsAs c.data ⟨n, placeOf c c', mapping, .text text⟩ payload) ∧
      c.Reaches c' := by
  obtain ⟨length, d, hlength, h⟩ := runs_bind.mp h
  obtain ⟨raw, d', hraw, h⟩ := runs_bind.mp h
  cases hdecode : Text.Utf8.decode raw with
  | error defect =>
    simp only [hdecode, runs_bind] at h
    obtain ⟨_, _, -, h⟩ := h
    exact absurd h not_runs_throw
  | ok read =>
    rw [hdecode] at h
    obtain ⟨rfl, rfl⟩ := runs_pure.mp h
    obtain ⟨hcounted, hreach⟩ := counted_of_bytes hc hlength hraw
    exact ⟨fun n mapping => ⟨raw, hdecode, hcounted⟩, hreach⟩

/-- A pool that has been filled has constants that stand in the file if it had such constants and each
record that is read is one. -/
theorem standsAs_of_readInto {α : Type} {read : Reader α} {p p' : Pool α} {f : α → Datum}
    {data : Bytes} (hc : c.Inside) (hdata : c.data = data)
    (hread : ∀ d a d', d.Inside → Runs read d a d' →
      (∀ n mapping, ∃ payload, Entry.StandsAs d.data ⟨n, placeOf d d', mapping, f a⟩ payload) ∧
        d.Reaches d')
    (hold : ∀ e ∈ p.toList, ∃ payload, (e.map f).StandsAs data payload)
    (h : readInto c read p = .ok p') :
    ∀ e ∈ p'.toList, ∃ payload, (e.map f).StandsAs data payload := by
  intro e he
  have hentry (d : Cursor) (a : α) (d' : Cursor) (hd : d.Inside) (hdd : d.data = c.data)
      (hrun : Runs read d a d') : (∀ n, ∃ payload,
        (Entry.map f ⟨n, placeOf d d', .unplaced, a⟩).StandsAs data payload) ∧ d.Reaches d' := by
    obtain ⟨hstands, hreach⟩ := hread d a d' hd hrun
    rw [hdd, hdata] at hstands
    exact ⟨fun n => hstands n _, hreach⟩
  obtain he | hstands := mem_toList_of_readInto
    (P := fun e => ∃ payload, (e.map f).StandsAs data payload) hentry hc h e he
  · exact hold e he
  · exact hstands

end Table

namespace Module

/-- A module whose constants all stand in its file. -/
structure HoldsConstants (m : Module) : Prop where
  addresses : ∀ e ∈ m.addresses.toList, ∃ payload, (e.map .address).StandsAs m.data payload
  bytearrays : ∀ e ∈ m.bytearrays.toList, ∃ payload, (e.map .bytearray).StandsAs m.data payload
  strings : ∀ e ∈ m.strings.toList, ∃ payload, (e.map .text).StandsAs m.data payload

/-- Every constant of a module that holds its constants has a payload in the file. -/
theorem HoldsConstants.exists_payload {m : Module} (h : m.HoldsConstants) {e : Entry Datum}
    (he : e ∈ m.dataEntries) : ∃ payload, e.StandsAs m.data payload := by
  simp only [dataEntries, List.mem_append, List.mem_map] at he
  obtain ⟨e, he, rfl⟩ | ⟨e, he, rfl⟩ | ⟨e, he, rfl⟩ := he
  · exact h.addresses e he
  · exact h.bytearrays e he
  · exact h.strings e he

/-- Whether a module holds its constants depends on its records and its data only. -/
theorem HoldsConstants.of_sameRecords {m n : Module} (h : m.HoldsConstants)
    (hrecords : m.SameRecords n) (hdata : n.data = m.data) : n.HoldsConstants := by
  have pool {α : Type} {p q : Pool α} {f : α → Datum} (hpq : p.Same q)
      (hp : ∀ e ∈ p.toList, ∃ payload, (e.map f).StandsAs m.data payload) :
      ∀ e ∈ q.toList, ∃ payload, (e.map f).StandsAs n.data payload := by
    intro e he
    have hmem : e.unmapped ∈ q.unmapped := List.mem_map_of_mem he
    rw [← hpq.2] at hmem
    obtain ⟨e', he', hunmapped⟩ := List.mem_map.mp hmem
    obtain ⟨payload, hpayload⟩ := hp e' he'
    rw [hdata]
    exact ⟨payload, hpayload.of_unmapped (congrArg (Entry.map f) hunmapped)⟩
  exact ⟨pool hrecords.addresses h.addresses, pool hrecords.bytearrays h.bytearrays,
    pool hrecords.strings h.strings⟩

/-- A table adds constants that stand in the file. -/
theorem HoldsConstants.decode {m m' : Module} {s : Section} (hm : m.HoldsConstants)
    (h : Table.decode m s = .ok m') : m'.HoldsConstants := by
  cases hcode : s.kind.holdsCode with
  | true =>
    obtain ⟨hdata, hrecords, -, -⟩ := Table.decode_code hcode h
    exact hm.of_sameRecords hrecords hdata
  | false =>
    obtain ⟨c, hc, h⟩ := bind_eq_ok.mp h
    obtain ⟨hinside, hdata, -⟩ := Cursor.inside_of_make hc
    cases hk : s.kind <;> simp only [hk, TableKind.holdsCode, Bool.true_eq_false] at hcode h
    case addressPool =>
      split at h
      · simp [bind_eq_ok] at h
      · obtain ⟨p, hp, h⟩ := bind_eq_ok.mp h
        obtain rfl := pure_eq_ok.mp h
        have haddresses := Table.standsAs_of_readInto hinside hdata
          (fun _ _ _ => Table.standsAs_of_readAddress) hm.addresses hp
        exact { hm with addresses := haddresses }
    case bytearrayPool =>
      obtain ⟨p, hp, h⟩ := bind_eq_ok.mp h
      obtain rfl := pure_eq_ok.mp h
      have hbytearrays := Table.standsAs_of_readInto hinside hdata
        (fun _ _ _ => Table.standsAs_of_readBytearray) hm.bytearrays hp
      exact { hm with bytearrays := hbytearrays }
    case stringPool =>
      obtain ⟨p, hp, h⟩ := bind_eq_ok.mp h
      obtain rfl := pure_eq_ok.mp h
      have hstrings := Table.standsAs_of_readInto hinside hdata
        (fun _ _ _ => Table.standsAs_of_readString) hm.strings hp
      exact { hm with strings := hstrings }
    all_goals
      obtain ⟨p, -, h⟩ := bind_eq_ok.mp h
      obtain rfl := pure_eq_ok.mp h
      exact { hm with }

/-- A module that was decoded holds its constants. -/
theorem holdsConstants_of_decode {data : Bytes} {m : Module} (h : decode data = .ok m) :
    m.HoldsConstants := by
  refine decode_invariant (fun _ _ => ?_) (fun _ _ _ hdecode hm => hm.decode hdecode)
    (fun _ _ hm => { hm with }) h
  constructor <;> simp [Module.start, Pool.toList, Pool.empty]

/-- Every constant of a loaded module is the payload of its record. -/
theorem Loads.exists_payload {config : Config} {data : Bytes} {m : Module}
    (h : Loads config data m) {e : Entry Datum} (he : e ∈ m.dataEntries) :
    ∃ payload, e.StandsAs data payload := by
  have hdata := h.decoded.2
  obtain ⟨n, hn, rfl⟩ := h.exists_decode
  have hconstants := (holdsConstants_of_decode hn).of_sameRecords (sameRecords_layOut config n).symm
    (data_layOut config n)
  rw [← hdata]
  exact hconstants.exists_payload he

end Module

end MoveBytecode
