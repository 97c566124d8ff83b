import MoveBytecode.Fault

/-!
# Pools

A pool is a named sequence of entries that grows at its end. An entry is a record together with its
number in the pool and two places: the bytes of the file that it was read from, and the addresses
that the layout gives it.
-/

namespace MoveBytecode

/-- A run of bytes of the file, or a run of addresses. -/
structure Extent where
  start : Int
  size : Int
  deriving DecidableEq, Repr

/-- The first position behind an extent. -/
def Extent.stop (e : Extent) : Int := e.start + e.size

/-- The extent of what has no place yet. -/
def Extent.unplaced : Extent := ⟨0, 0⟩

/-- A record of a pool with its number and its places. -/
structure Entry (α : Type) where
  index : Nat
  file : Extent
  mapping : Extent
  record : α
  deriving DecidableEq, Repr

/-- A named sequence of entries. -/
structure Pool (α : Type) where
  name : String
  entries : Array (Entry α)
  deriving DecidableEq, Repr

namespace Pool

variable {α : Type}

/-- The pool without entries. -/
def empty (name : String) : Pool α := ⟨name, #[]⟩

/-- How many entries a pool has. -/
def size (p : Pool α) : Nat := p.entries.size

/-- A pool with one more record, which was read from `file`. -/
def add (p : Pool α) (file : Extent) (record : α) : Pool α :=
  { p with entries := p.entries.push ⟨p.size, file, .unplaced, record⟩ }

/-- A pool with one more record is one larger. -/
@[simp] theorem size_add (p : Pool α) (file : Extent) (record : α) :
    (p.add file record).size = p.size + 1 := by
  simp [add, size]

/-- Whether `index` is the number of an entry. -/
def containsIndex (p : Pool α) (index : Int) : Bool :=
  0 ≤ index && index < p.size

/-- The entry with number `index`. -/
def get (p : Pool α) (index : Int) : Except Fault (Entry α) :=
  if 0 ≤ index then
    match p.entries[index.toNat]? with
    | some entry => .ok entry
    | none => .error (.indexOutOfRange p.name index p.size)
  else .error (.indexOutOfRange p.name index p.size)

/-- A pool has the entry at an index iff the index is not negative and the entry stands there. -/
theorem get_eq_ok_iff (p : Pool α) (index : Int) (e : Entry α) :
    p.get index = .ok e ↔ 0 ≤ index ∧ p.entries[index.toNat]? = some e := by
  unfold get
  split
  next h =>
    cases found : p.entries[index.toNat]? with
    | none => simp
    | some entry => simp [h]
  next h => simp [h]

/-- The numbers that have an entry are those that the pool contains. -/
theorem exists_get_iff (p : Pool α) (index : Int) :
    (∃ e, p.get index = .ok e) ↔ p.containsIndex index = true := by
  simp only [get_eq_ok_iff, containsIndex, size, exists_and_left, Bool.and_eq_true,
    decide_eq_true_eq, and_congr_right_iff]
  intro h
  obtain ⟨n, rfl⟩ := Int.eq_ofNat_of_zero_le h
  rw [← Option.isSome_iff_exists]
  simp

/-- The entries in order. -/
def toList (p : Pool α) : List (Entry α) := p.entries.toList

/-- A record that is added comes last. -/
@[simp] theorem toList_add (p : Pool α) (file : Extent) (record : α) :
    (p.add file record).toList = p.toList ++ [⟨p.size, file, .unplaced, record⟩] := by
  simp [add, toList]

/-- A pool whose entry `index` has the places `file` and `mapping`; no entry changes if there is
none of that number. -/
def place (p : Pool α) (index : Int) (file mapping : Extent) : Pool α :=
  if 0 ≤ index then
    { p with entries := p.entries.modify index.toNat fun e => { e with file, mapping } }
  else p

/-- A pool whose entry `index` is mapped at `mapping`. -/
def remap (p : Pool α) (index : Nat) (mapping : Extent) : Pool α :=
  { p with entries := p.entries.modify index fun e => { e with mapping } }

/-- How a pool is described in a message. -/
def summary (p : Pool α) : String :=
  s!"Pool({Text.quote p.name}, {p.size} entries)"

end Pool

end MoveBytecode
