import MoveBytecode.Fault

/-!
# Cursors

A cursor is a position within a window `[start, stop)` of a byte string. Reads take bytes from the
position on and move it; a read that would pass the window's bound moves nothing, and a number that
turns out too long or too large has been read all the same. Positions count from the start of the
byte string, so they are file offsets in every window of a file.
-/

namespace MoveBytecode

/-- A position within a window of a byte string. -/
structure Cursor where
  data : Bytes
  start : Nat
  position : Nat
  stop : Nat
  deriving DecidableEq, Repr

namespace Cursor

/-- A cursor at the start of the window `[start, stop)`, which ends with the data if `stop` is not
given. -/
def make (data : Bytes) (start : Int) (stop : Option Int) : Except Fault Cursor :=
  let bound := stop.getD data.size
  if start < 0 ∨ (data.size : Int) < bound ∨ bound < start then
    .error (.readerBounds start bound data.size)
  else .ok ⟨data, start.toNat, start.toNat, bound.toNat⟩

/-- How many bytes are left. -/
def available (c : Cursor) : Nat := c.stop - c.position

/-- Whether no byte is left. -/
def atEnd (c : Cursor) : Bool := c.stop ≤ c.position

/-- A cursor on the window `[offset, offset + size)` of the same data. -/
def slice (c : Cursor) (offset size : Int) : Except Fault Cursor :=
  if offset < 0 ∨ size < 0 ∨ (c.data.size : Int) < offset + size then
    .error (.windowBounds offset size c.data.size)
  else make c.data offset (some (offset + size))

end Cursor

/-- A read: it may fail, and the cursor is known in either case. -/
abbrev Reader := ExceptT Fault (StateM Cursor)

namespace Reader

/-- The result of a read at a cursor, and the cursor after it. -/
def runAt {α : Type} (r : Reader α) (c : Cursor) : Except Fault α × Cursor := r.run.run c

/-- The file offset of the next byte. -/
def position : Reader Nat := do return (← get).position

/-- Whether no byte is left. -/
def atEnd : Reader Bool := do return (← get).atEnd

/-- Moves over `count` bytes and returns the position before them. -/
def advance (count : Int) : Reader Nat := do
  let c ← get
  if count < 0 ∨ (c.stop : Int) < c.position + count then
    throw (.shortRead count c.position c.stop)
  else
    set { c with position := c.position + count.toNat }
    return c.position

/-- The next `count` bytes. -/
def bytes (count : Int) : Reader Bytes := do
  let start ← advance count
  return (← get).data.window start count.toNat

/-- Moves over `count` bytes. -/
def skip (count : Int) : Reader Unit := do
  let _ ← advance count

/-- The next byte. -/
def u8 : Reader UInt8 := do
  let start ← advance 1
  return (← get).data.getD start 0

/-- The next `width` bytes as a number, the lowest byte first. -/
def unsigned (width : Nat) : Reader Nat := do
  return Bytes.littleEndian (← bytes width).toList

/-- A number of two bytes. -/
def u16 : Reader Nat := unsigned 2

/-- A number of four bytes. -/
def u32 : Reader Nat := unsigned 4

/-- A number of four bytes with its highest bit clear. -/
def u31 : Reader Nat := do
  let value ← u32
  if 0x80000000 ≤ value then throw (.tooWideFor31Bits value) else return value

/-- A number of eight bytes. -/
def u64 : Reader Nat := unsigned 8

/-- Groups of seven bits, the lowest first, until a byte without its highest bit; `left` bytes are
still allowed out of `limit`. -/
def groups (limit : Nat) : (left : Nat) → Reader Nat
  | 0 => throw (.varintTooLong limit)
  | left + 1 => do
    let byte ← u8
    if byte.toNat < 0x80 then return byte.toNat
    else return byte.toNat - 0x80 + 0x80 * (← groups limit left)

/-- A number in groups of seven bits, of at most `limit` bytes. -/
def uleb128 (limit : Nat) : Reader Nat := groups limit limit

/-- A number below 2^16 in at most three groups of seven bits. -/
def varu16 : Reader Nat := do
  let value ← uleb128 3
  if 0xFFFF < value then throw (.varintTooLarge value) else return value

/-- The signed number that the low 32 bits of `n` stand for. -/
def signed32 (n : Nat) : Int :=
  let low := n % 0x100000000
  if low < 0x80000000 then low else (low : Int) - 0x100000000

/-- A number of at most five groups of seven bits, of which the low 32 bits count and are
signed. -/
def vari32 : Reader Int := do
  return signed32 (← uleb128 5)

end Reader

/-- A number in groups of seven bits, the lowest first; every byte but the last has its highest bit
set. -/
def encodeUleb128 (n : Nat) : List UInt8 :=
  if n < 0x80 then [UInt8.ofNat n]
  else UInt8.ofNat (n % 0x80 + 0x80) :: encodeUleb128 (n / 0x80)
termination_by n
decreasing_by omega

/-- The groups of seven bits of an integer, which has to be zero or more. -/
def encodeVarint (value : Int) : Except Fault (List UInt8) :=
  if value < 0 then .error (.varintNegative value) else .ok (encodeUleb128 value.toNat)

end MoveBytecode
