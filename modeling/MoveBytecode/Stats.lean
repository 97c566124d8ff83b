import MoveBytecode.Lift.Routine

/-!
# Statistics

How often each kind of statement occurs, and each operation that was kept untranslated.
-/

namespace MoveBytecode

/-- Counts one more occurrence of a key; a new key stands behind the others. -/
def Tally.bump (counts : List (String × Nat)) (key : String) : List (String × Nat) :=
  match counts with
  | [] => [(key, 1)]
  | (k, n) :: rest => if k == key then (k, n + 1) :: rest else (k, n) :: Tally.bump rest key

/-- How often each text occurs, in the order of their first occurrences. -/
def Tally.of (keys : List String) : List (String × Nat) :=
  keys.foldl Tally.bump []

namespace Stats

/-- How often each kind of statement occurs. -/
def kinds (statements : List Stmt) : List (String × Nat) :=
  Tally.of (statements.map Stmt.kind)

/-- The name of an untranslated operation. -/
def mnemonic? : Stmt → Option String
  | .untranslated mnemonic .. => some mnemonic
  | _ => none

/-- How often each untranslated operation occurs. -/
def untranslated (statements : List Stmt) : List (String × Nat) :=
  Tally.of (statements.filterMap mnemonic?)

/-- How often each kind of statement occurs in all routines. -/
def total (lifted : List Lift.Lifted) : List (String × Nat) :=
  kinds (lifted.flatMap Lift.Lifted.statements)

end Stats

end MoveBytecode
