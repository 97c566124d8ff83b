import MoveBytecode.Module.Basic

/-!
# Assembling binaries

A binary is a header, a directory and the tables that the directory places. `assemble` puts tables
one behind the other that are given as bytes.
-/

namespace MoveBytecode.Format

/-- The lowest `width` bytes of a number, the lowest first. -/
def littleEndian : (width : Nat) → Nat → List UInt8
  | 0, _ => []
  | width + 1, n => UInt8.ofNat n :: littleEndian width (n / 256)

/-- The bytes of a directory entry. -/
def entry (s : Section) : List UInt8 :=
  s.kind.code :: (littleEndian 4 s.offset ++ littleEndian 4 s.size)

/-- The header of a binary of version 1.0. -/
def header (magic : Magic) : List UInt8 :=
  magic.bytes.toList ++ List.replicate (Header.versionOffset - magic.bytes.size) 0 ++ [1, 0]

/-- The bytes of the directory of a binary. -/
def directory (sections : List Section) : List UInt8 :=
  UInt8.ofNat sections.length :: sections.flatMap entry

/-- A table: its kind and its bytes. -/
structure Part where
  kind : TableKind
  bytes : List UInt8

/-- The directory entries of tables that stand one behind the other from `start` on. -/
def sections : (start : Nat) → List Part → List Section
  | _, [] => []
  | start, p :: rest => ⟨p.kind, start, p.bytes.length⟩ :: sections (start + p.bytes.length) rest

/-- How many bytes stand in front of the tables of a binary with `count` tables. -/
def tablesOffset (count : Nat) : Nat := Header.size + 1 + 9 * count

/-- The binary with these tables, whose directory lists them in order. -/
def assemble (magic : Magic) (parts : List Part) : Bytes :=
  (header magic ++ directory (sections (tablesOffset parts.length) parts) ++
    parts.flatMap (·.bytes)).toArray

end MoveBytecode.Format
