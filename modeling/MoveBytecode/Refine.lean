import MoveBytecode.Lift.Routine
import Std.Data.TreeSet

/-!
# Type refinement

Two operations of the ledger say more about the types of values than their operands do: what is
asserted is a truth value, and the sender of a transaction is an address. Refinement retypes the
variables concerned and changes nothing else.
-/

namespace MoveBytecode.Lift.Lifted

/-- The type that a statement gives to a variable, by the name of the type. -/
def refinement? : Stmt → Option (Var × String)
  | .untranslated _ tag _ results operands =>
    if tag = Opcode.assert.code.toNat then
      match operands with
      | _ :: .var v :: _ => some (v, "bool")
      | _ => none
    else if tag = Opcode.getTxnSender.code.toNat then
      match results with
      | [.var v] => some (v, "address")
      | _ => none
    else none
  | _ => none

/-- Whether a statement comes from one of the addresses, where that is known of it. -/
def within (addresses : Option (Std.TreeSet Int)) : Stmt → Bool
  | .untranslated _ _ address .. => addresses.all (·.contains address)
  | _ => true

/-- The addresses of the instructions of a graph. -/
def graphAddresses (g : Graph) : Std.TreeSet Int :=
  .ofList (g.blocks.flatMap Block.addresses)

/-- Retypes the variable that a statement gives a type to; counts those that it retypes. -/
def refineOne (types : TypeRegistry) (state : Nat × Scope) (s : Stmt) : Nat × Scope :=
  match refinement? s with
  | none => state
  | some (v, name) =>
    match types.get? name with
    | none => state
    | some type => (state.1 + 1, state.2.retype v type)

/-- Refines the types of a routine, with regard to the instructions of `graph` only if it is given;
counts the refinements. -/
def refine (l : Lifted) (graph : Option Graph) (types : TypeRegistry) : Nat × Lifted :=
  let addresses := graph.map graphAddresses
  let (count, scope) :=
    (l.statements.filter (within addresses)).foldl (refineOne types) (0, l.scope)
  (count, { l with scope })

end MoveBytecode.Lift.Lifted

namespace MoveBytecode.Lift

/-- Refines the types of a routine and records how many there were. -/
def refine (l : Lifted) (graph : Option Graph) : HostM (Nat × Lifted) := do
  let (count, refined) := l.refine graph (← get).host.types
  note (.refined count l.routine.name)
  return (count, refined)

end MoveBytecode.Lift
