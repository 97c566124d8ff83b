import MoveBytecode.Text.Hex

/-!
# Intermediate form

Routines in the intermediate form are lists of statements over variables: assignments, branches that
assign the program counter, calls, returns, and operations that keep the meaning they have in the
bytecode and are carried along untranslated. Every value has a width in bits.
-/

namespace MoveBytecode

/-- The name of a variable. -/
inductive VarName where
  /-- The program counter. -/
  | pc
  /-- The stack pointer. -/
  | sp
  /-- A local variable of the function. -/
  | localVar (index : Nat)
  /-- A value that was put onto the operand stack. -/
  | stackVar (index : Nat)
  /-- A variable with a name of its own. -/
  | named (text : String)
  deriving DecidableEq, Repr

/-- A variable's name as text. -/
def VarName.text : VarName → String
  | .pc => "pc"
  | .sp => "sp"
  | .localVar index => s!"local{index}"
  | .stackVar index => s!"var{index}"
  | .named text => text

namespace VarName

/-- The kind of a name. -/
def kind : VarName → Nat
  | .pc => 0
  | .sp => 1
  | .localVar _ => 2
  | .stackVar _ => 3
  | .named _ => 4

/-- The number of a variable that has one. -/
def number : VarName → Nat
  | .localVar index | .stackVar index => index
  | _ => 0

/-- The name of a variable that has one of its own. -/
def given : VarName → String
  | .named text => text
  | _ => ""

/-- Names are ordered by kind, then by number and name. -/
instance : Ord VarName where
  compare := compareLex (compareOn kind) (compareLex (compareOn number) (compareOn given))

/-- The order of names is transitive. -/
instance : Std.TransOrd VarName :=
  inferInstanceAs (Std.TransCmp (compareLex (compareOn kind) _))

/-- Names that the order does not tell apart are equal. -/
instance : Std.LawfulEqOrd VarName where
  compare_self := Std.ReflCmp.compare_self
  eq_of_compare {v w} h := by
    obtain ⟨hkind, h⟩ := Ordering.then_eq_eq.mp h
    obtain ⟨hnumber, hgiven⟩ := Ordering.then_eq_eq.mp h
    have hkind : v.kind = w.kind := Std.LawfulEqOrd.eq_of_compare hkind
    have hnumber : v.number = w.number := Std.LawfulEqOrd.eq_of_compare hnumber
    have hgiven : v.given = w.given := Std.LawfulEqOrd.eq_of_compare hgiven
    cases v <;> cases w <;> simp_all [kind, number, given]

end VarName

/-- A variable: machine registers have a number. -/
structure Var where
  name : VarName
  bits : Int
  register : Option Int := none
  deriving DecidableEq, Repr

/-- A variable as text. -/
def Var.text (v : Var) : String := v.name.text

/-- The operations on values. -/
inductive Operator where
  | add
  | sub
  | mul
  | div
  | rem
  | or
  | and
  | xor
  | logicalOr
  | logicalAnd
  | logicalNot
  | equal
  | notEqual
  | less
  | greater
  | lessEqual
  | greaterEqual
  | zeroExtend
  deriving DecidableEq, Repr

namespace Operator

/-- Every operation. -/
def all : List Operator :=
  [.add, .sub, .mul, .div, .rem, .or, .and, .xor, .logicalOr, .logicalAnd, .logicalNot, .equal,
    .notEqual, .less, .greater, .lessEqual, .greaterEqual, .zeroExtend]

/-- The name of an operation. -/
def name : Operator → String
  | .add => "add"
  | .sub => "sub"
  | .mul => "mul_u"
  | .div => "div_u"
  | .rem => "rem_u"
  | .or => "or"
  | .and => "and"
  | .xor => "xor"
  | .logicalOr => "log_or"
  | .logicalAnd => "log_and"
  | .logicalNot => "not"
  | .equal => "eq"
  | .notEqual => "neq"
  | .less => "lt_u"
  | .greater => "gt_u"
  | .lessEqual => "le_u"
  | .greaterEqual => "ge_u"
  | .zeroExtend => "zext"

/-- The operation of a name. -/
def ofName? (name : String) : Option Operator :=
  all.find? (·.name == name)

/-- The operations whose value is a truth value, of one bit. -/
def isBoolean : Operator → Bool
  | .logicalOr | .logicalAnd | .logicalNot | .equal | .notEqual | .less | .greater | .lessEqual
  | .greaterEqual => true
  | _ => false

end Operator

/-- An item of the host, by name and address. -/
structure SymbolRef where
  name : String
  address : Int
  bits : Int := 64
  deriving DecidableEq, Repr

/-- A value. -/
inductive Expr where
  | var (v : Var)
  | imm (value : Int) (bits : Int)
  | symbol (ref : SymbolRef)
  | operation (op : Operator) (operands : List Expr) (bits : Int)
  | cond (predicate ifTrue ifFalse : Expr) (bits : Int)

namespace Expr

/-- The width of a value. -/
def bits : Expr → Int
  | .var v => v.bits
  | .imm _ bits => bits
  | .symbol ref => ref.bits
  | .operation _ _ bits => bits
  | .cond _ _ _ bits => bits

/-- A number as text: in base ten up to 4095, in base sixteen beyond. -/
def immText (value : Int) : String :=
  if value < 0x1000 then toString value else "0x" ++ Text.hex value

mutual

/-- A value as text. -/
def text : Expr → String
  | .var v => v.text
  | .imm value _ => immText value
  | .symbol ref => "&" ++ ref.name
  | .operation op operands bits =>
    if op = .zeroExtend then s!"zext({firstText operands}, {bits})"
    else op.name ++ "(" ++ String.intercalate ", " (texts operands) ++ ")"
  | .cond predicate ifTrue ifFalse _ =>
    "cond(" ++ predicate.text ++ ", " ++ ifTrue.text ++ ", " ++ ifFalse.text ++ ")"

/-- Values as texts. -/
def texts : List Expr → List String
  | [] => []
  | e :: rest => e.text :: texts rest

/-- The first of some values as text. -/
def firstText : List Expr → String
  | [] => ""
  | e :: _ => e.text

end

/-- Values in order, between commas. -/
def listText (values : List Expr) : String :=
  String.intercalate ", " (texts values)

end Expr

/-- A statement. -/
inductive Stmt where
  | assign (target : Var) (source : Expr)
  /-- Control goes on at the address that `destination` has. -/
  | branch (counter : Var) (destination : Expr) (isCall : Bool)
  | ret (values : List Expr)
  | call (target : SymbolRef) (returns : List Var) (params : List Expr)
  /-- An operation of the bytecode, by its name, its byte and its address. -/
  | untranslated (mnemonic : String) (tag : Int) (address : Int) (results operands : List Expr)

namespace Stmt

/-- The kind of a statement. -/
def kind : Stmt → String
  | .assign .. => "assign"
  | .branch .. => "branch"
  | .ret .. => "return"
  | .call .. => "call"
  | .untranslated .. => "untranslated"

/-- Results in front of what yields them, if there are any. -/
def withResults (results : List String) (text : String) : String :=
  if results.isEmpty then text else String.intercalate ", " results ++ " := " ++ text

/-- A statement as text. -/
def text : Stmt → String
  | .assign target source => target.text ++ " := " ++ source.text
  | .branch counter destination _ => counter.text ++ " := " ++ destination.text
  | .ret values => if values.isEmpty then "return" else "return " ++ Expr.listText values
  | .call target returns params =>
    withResults (returns.map Var.text)
      ("call " ++ target.name ++ "(" ++ Expr.listText params ++ ")")
  | .untranslated mnemonic tag _ results operands =>
    withResults (Expr.texts results)
      (mnemonic ++ "<0x" ++ Text.hexPadded 2 tag ++ ">(" ++ Expr.listText operands ++ ")")

/-- The result of an untranslated operation that has exactly one. -/
def result? : Stmt → Option Expr
  | .untranslated _ _ _ [result] _ => some result
  | _ => none

end Stmt

end MoveBytecode
