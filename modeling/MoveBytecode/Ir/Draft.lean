import MoveBytecode.Host.Basic
import MoveBytecode.Ir.Build
import MoveBytecode.Ir.Scope

/-!
# Drafts

Values and statements that are made step by step and refer to each other by the numbers of the
steps that made them. A step that fails makes nothing, and what refers to it fails too.
-/

namespace MoveBytecode

/-- What a step of a draft made. -/
inductive Node where
  | value (e : Expr)
  | statement (s : Stmt)

/-- What has been made so far, by the number of the step, the variables, and the host whose symbols
values refer to. -/
structure Draft where
  host : Host
  scope : Scope
  nodes : Array (Option Node)

/-- A step of a draft; operands are numbers of earlier steps. -/
inductive DraftStep where
  | register (number : Int) (name : String) (bits : Int)
  | var (name : String) (bits : Int)
  /-- Mentions the variable of a name, if there is one. -/
  | lookup (name : String)
  | immediate (value bits : Int)
  /-- The number whose bytes are given, the highest first. -/
  | bytes (value : Bytes) (bits : Int)
  | operation (name : String) (operands : List Int)
  | zeroExtend (operand bits : Int)
  | cond (predicate ifTrue ifFalse : Int)
  | symbol (address : Int)
  | assign (target source : Int)
  | branch (counter destination : Int) (isCall : Bool)
  | ret (values : List Int)
  | call (name : String) (address : Int) (returns params : List Int)
  | untranslated (address : Int) (mnemonic : String) (tag : Int) (results operands : List Int)

/-- A computation on a draft. -/
abbrev DraftM := ExceptT Fault (StateM Draft)

namespace Draft

/-- The draft without steps against a host. -/
def ofHost (host : Host) : Draft := ⟨host, .empty, #[]⟩

/-- The name of a variable by its text; a name given by hand is a name of its own. -/
def nameOf (text : String) : VarName := .named text

/-- What the step `number` made. -/
def node? (d : Draft) (number : Int) : Option Node :=
  if number < 0 then none else (d.nodes[number.toNat]?).join

/-- The value that the step `number` made. -/
def value (d : Draft) (number : Int) : Except Fault Expr :=
  match d.node? number with
  | some (.value e) => .ok e
  | _ => .error (.stepWithoutNode number)

/-- The values that steps made, in order. -/
def values (d : Draft) (numbers : List Int) : Except Fault (List Expr) :=
  numbers.mapM d.value

/-- The variable that a value is, where the step `number` made the value. -/
def asVar (number : Int) : Expr → Except Fault Var
  | .var v => .ok v
  | _ => .error (.stepWithoutNode number)

/-- The operation of a name. -/
def operator (name : String) : Except Fault Operator :=
  match Operator.ofName? name with
  | some op => .ok op
  | none => .error (.operationUnknown name)

/-- The symbol at an address of the host. -/
def symbol (d : Draft) (address : Int) : Except Fault SymbolRef :=
  match d.host.symbolAt? address with
  | some s => .ok { name := s.name, address := s.address }
  | none => .error (.noDataSymbol address)

/-- A value that depends on the values of earlier steps only. -/
def expression (d : Draft) : DraftStep → Except Fault (Option Node)
  | .lookup name => .ok ((d.scope.find? (nameOf name)).map fun v => .value (.var v))
  | .immediate value bits => do return some (.value (← Ir.immediate value bits))
  | .bytes value bits => do
    return some (.value (← Ir.immediate (Bytes.bigEndian value.toList) bits))
  | .operation name operands => do
    let op ← operator name
    return some (.value (← Ir.operation op (← d.values operands)))
  | .zeroExtend operand bits => do
    return some (.value (← Ir.zeroExtend (← d.value operand) bits))
  | .cond predicate ifTrue ifFalse => do
    let predicate ← d.value predicate
    let ifTrue ← d.value ifTrue
    let ifFalse ← d.value ifFalse
    return some (.value (Ir.cond predicate ifTrue ifFalse))
  | .symbol address => do return some (.value (.symbol (← d.symbol address)))
  | _ => .ok none

/-- A statement over the values of earlier steps. All of these are looked up before any of them has
to be a variable. -/
def statement (d : Draft) : DraftStep → Except Fault (Option Node)
  | .assign target source => do
    let place ← d.value target
    let source ← d.value source
    Ir.checkFit place source
    return some (.statement (.assign (← asVar target place) source))
  | .branch counter destination isCall => do
    let place ← d.value counter
    let destination ← d.value destination
    return some (.statement (.branch (← asVar counter place) destination isCall))
  | .ret values => do return some (.statement (.ret (← d.values values)))
  | .call name address returns params => do
    let places ← d.values returns
    let params ← d.values params
    let returns ← (returns.zip places).mapM fun (number, place) => asVar number place
    return some (.statement (.call { name, address } returns params))
  | .untranslated address mnemonic tag results operands => do
    let results ← d.values results
    let operands ← d.values operands
    return some (.statement (.untranslated mnemonic tag address results operands))
  | step => d.expression step

/-- What a step makes, and the scope after it. A register takes the place of a variable of its name,
and any other variable needs a name that is not in use. -/
def make (d : Draft) (step : DraftStep) : Except Fault (Option Node × Scope) :=
  match step with
  | .register number name bits =>
    let v : Var := { name := nameOf name, bits, register := some number }
    .ok (some (.value (.var v)), d.scope.setRegister v)
  | .var name bits =>
    if d.scope.contains (nameOf name) then .error (.variableExists name)
    else
      let v : Var := { name := nameOf name, bits }
      .ok (some (.value (.var v)), d.scope.add v none)
  | step => (d.statement step).map fun made => (made, d.scope)

/-- Takes a step. -/
def take (step : DraftStep) : DraftM (Option Node) := do
  let d ← get
  match d.make step with
  | .ok (made, scope) =>
    set { d with scope, nodes := d.nodes.push made }
    return made
  | .error fault =>
    set { d with nodes := d.nodes.push none }
    throw fault

end Draft

end MoveBytecode
