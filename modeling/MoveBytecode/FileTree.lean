import MoveBytecode.Fault

/-!
# Trees of files

What a path leads to, from a directory of a tree. The parts of a path are followed one by one: an
empty part and a single dot stay, two dots go up as far as the root, and a name goes to the entry of
that name. A path leads to a file only if its last part is the name of one.
-/

namespace MoveBytecode

/-- A file, or a directory with its entries by name. -/
inductive FileTree where
  | file (data : Bytes)
  | directory (entries : List (String × FileTree))

namespace FileTree

/-- A directory of a tree: its entries, and those of the directories around it from the inside
out. -/
structure Place where
  entries : List (String × FileTree)
  around : List (List (String × FileTree))

namespace Place

/-- The directory around a directory; the root is its own. -/
def parent (place : Place) : Place :=
  match place.around with
  | [] => place
  | entries :: around => ⟨entries, around⟩

/-- The directory that all others of the tree are in. -/
def root (place : Place) : Place :=
  ⟨place.around.getLastD place.entries, []⟩

/-- A directory within a directory. -/
def enter (place : Place) (entries : List (String × FileTree)) : Place :=
  ⟨entries, place.entries :: place.around⟩

/-- The most bytes that a name may have. -/
def maxNameSize : Nat := 255

/-- The most bytes that a path may have. -/
def maxPathSize : Nat := 4095

/-- Follows the parts of `path` from a directory to the contents of a file. -/
def follow (path : String) : List String → Place → Except Fault Bytes
  | [], _ => .error (.fileIsDirectory path)
  | part :: rest, place =>
    if part = "" ∨ part = "." then follow path rest place
    else if part = ".." then follow path rest place.parent
    else if maxNameSize < part.utf8ByteSize then .error (.pathTooLong path)
    else
      match place.entries.lookup part with
      | none => .error (.fileMissing path)
      | some (.directory entries) => follow path rest (place.enter entries)
      | some (.file data) =>
        if rest.isEmpty then .ok data else .error (.fileIsNoDirectory path)

/-- The contents of the file that a path leads to; a path that starts with a slash starts at the
root. -/
def read (place : Place) (path : String) : Except Fault Bytes :=
  if path.toList.contains '\x00' then .error .pathWithNull
  else if path = "" then .error (.fileMissing path)
  else if maxPathSize < path.utf8ByteSize then .error (.pathTooLong path)
  else follow path (path.splitOn "/") (if path.startsWith "/" then place.root else place)

end Place

end FileTree

end MoveBytecode
