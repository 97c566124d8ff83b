import MoveBytecode.Listing.Basic

/-!
# Table listings

Every pool of a module with one line for each entry, and the functions with their bodies. The same
printers serve a single entry that is asked for by pool and number.
-/

namespace MoveBytecode.Module

open Listing

/-- A pool as text: its name and size, and its entries by number. -/
def showPool {α : Type} (p : Pool α) (print : Entry α → Except Fault String) :
    Except Fault String := do
  let lines ← p.toList.mapM fun e => do
    return indent ++ s!"[{e.index}] " ++ withMargin (indent ++ indent) (← print e)
  return String.intercalate "\n" (s!"{p.name} ({p.size}):" :: lines)

/-- The entry of a pool as text. -/
def showIn {α : Type} (p : Pool α) (index : Int) (print : Entry α → Except Fault String) :
    Except Fault String := do
  print (← p.get index)

/-- What can be done with each pool of a module, once it is known how its entries are printed. -/
structure PoolUse (β : Type) where
  run : {α : Type} → Pool α → (Entry α → Except Fault String) → β

/-- The pools in the order of the table listing, each with the printer of its entries. -/
def listedPools {β : Type} (m : Module) (use : PoolUse β) : List β :=
  [use.run m.moduleHandles fun e => m.moduleFullName e.record,
    use.run m.structHandles fun e => m.showStructHandle e.record,
    use.run m.functionHandles fun e => m.showFunctionHandle e.record,
    use.run m.structDefs fun e => m.showStructDef e.record,
    use.run m.fieldDefs fun e => m.showFieldDef e.record,
    use.run m.typeSignatures fun e => m.showToken e.record,
    use.run m.functionSignatures fun e => m.showSignature e.record,
    use.run m.localSignatures fun e => m.showTokens e.record,
    use.run m.strings fun e => .ok (Text.quoteJson e.record),
    use.run m.bytearrays fun e => .ok (bytearrayText e.record),
    use.run m.addresses fun e => .ok (addressText e.record),
    use.run m.functionDefs m.showFunctionDef]

/-- All pools as text, and the function of a script behind them. -/
def showTables (m : Module) : Except Fault String := do
  let pools ← (m.listedPools ⟨fun p print => showPool p print⟩).mapM id
  let main ← match m.main with
    | none => pure []
    | some main => do
      pure ["Main:\n" ++ indent ++ withMargin indent (← m.showFunctionDef main)]
  return String.intercalate "\n\n" (pools ++ main) ++ "\n"

/-- The entry `index` of the pool called `pool` as text, if there is such a pool. -/
def showEntry (m : Module) (pool : String) (index : Int) : Option (Except Fault String) :=
  (m.listedPools ⟨fun p print =>
    if p.name == pool then some (showIn p index print) else none⟩).findSome? id

end MoveBytecode.Module
