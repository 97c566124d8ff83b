import MoveBytecode.Cursor
import MoveBytecode.Module.Basic

/-!
# The directory

After the header stand the number of tables and, for each, its kind, offset and size. A table has to
lie within the file; tables may overlap, and a kind may occur several times.
-/

namespace MoveBytecode.Directory

/-- Reads one entry of the directory. -/
def readSection : Reader Section := do
  let byte ← Reader.u8
  match TableKind.ofCode? byte with
  | none => throw (.tableKindUnknown byte)
  | some kind =>
    let offset ← Reader.u31
    let size ← Reader.u31
    let available := (← get).data.size
    if available < offset + size then throw (.tableBeyondInput kind offset size available)
    return ⟨kind, offset, size⟩

/-- Reads `count` entries. -/
def readMany : (count : Nat) → Reader (List Section)
  | 0 => return []
  | count + 1 => do
    let entry ← readSection
    return entry :: (← readMany count)

/-- Reads the directory. -/
def read : Reader (List Section) := do
  readMany (← Reader.u8).toNat

end MoveBytecode.Directory
