import MoveBytecode.Host.Flags
import MoveBytecode.Pool

/-!
# Segments

A segment is a run of addresses with a byte at each, at first zero. Reads and writes go to a single
segment, which has to span them.
-/

namespace MoveBytecode

/-- A run of addresses and their bytes. -/
structure Segment where
  name : String
  file : Extent
  base : Int
  size : Int
  flags : Flags
  data : Bytes
  deriving DecidableEq, Repr

namespace Segment

/-- A segment of zeros. -/
def make (name : String) (file : Extent) (base size : Int) (flags : Flags) : Segment :=
  ⟨name, file, base, size, flags, Array.replicate size.toNat 0⟩

/-- The flags that a number stands for: a segment may be read, written or executed. -/
def flagsOf (n : Int) : Flags := .ofInt 3 n

/-- The flags of a segment that may be read, written and executed. -/
def allAccess : Flags := 7

/-- The first address behind a segment. -/
def stop (s : Segment) : Int := s.base + s.size

/-- Whether a segment spans `size` addresses from `address` on. -/
def contains (s : Segment) (address size : Int) : Bool :=
  s.base ≤ address && address + size ≤ s.stop

/-- The bytes of `size` addresses from `address` on. A size below zero, so that the end lies before
the segment, counts the end back from the segment's own end. -/
def read (s : Segment) (address size : Int) : Bytes :=
  let first := address - s.base
  let last := first + size
  let last := if last < 0 then last + s.data.size else last
  s.data.extract first.toNat last.toNat

/-- The segment with `bytes` at the addresses from `address` on. -/
def write (s : Segment) (address : Int) (bytes : Bytes) : Segment :=
  let first := (address - s.base).toNat
  { s with
    data := s.data.extract 0 first ++ bytes ++ s.data.extract (first + bytes.size) s.data.size }

end Segment

end MoveBytecode
