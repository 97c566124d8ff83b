import MoveBytecode.Proofs.Lift.Table

/-!
# What statements read and write

The variables that a statement reads and those that it writes, and the numbers of the stack variables
among them. Over the table of lowerings, the stack variables that are read are among those of the values
that an instruction takes, and those that are written are those of the values that it puts, in the same
order.
-/

namespace MoveBytecode

/-- The number of the name of a stack variable. -/
def VarName.stackNumber? : VarName → Option Nat
  | .stackVar n => some n
  | _ => none

namespace Expr

mutual

/-- The variables that a value mentions, in order. -/
def vars : Expr → List Var
  | .var v => [v]
  | .imm .. | .symbol _ => []
  | .operation _ operands _ => varsOf operands
  | .cond predicate ifTrue ifFalse _ => predicate.vars ++ ifTrue.vars ++ ifFalse.vars

/-- The variables that some values mention, in order. -/
def varsOf : List Expr → List Var
  | [] => []
  | e :: rest => e.vars ++ varsOf rest

end

/-- The values of some variables mention these variables. -/
@[simp] theorem varsOf_map_var (vs : List Var) : varsOf (vs.map .var) = vs := by
  induction vs with
  | nil => rfl
  | cons v rest ih => rw [List.map_cons, varsOf, ih]; rfl

end Expr

namespace Stmt

/-- The variables that a statement reads. -/
def reads : Stmt → List Var
  | .assign _ source => source.vars
  | .branch _ destination _ => destination.vars
  | .ret values => Expr.varsOf values
  | .call _ _ params => Expr.varsOf params
  | .untranslated _ _ _ _ operands => Expr.varsOf operands

/-- The variables that a statement writes, in order. -/
def writes : Stmt → List Var
  | .assign target _ => [target]
  | .branch counter _ _ => [counter]
  | .ret _ => []
  | .call _ returns _ => returns
  | .untranslated _ _ _ results _ => Expr.varsOf results

end Stmt

namespace Lift

/-- The numbers of the stack variables among some variables, in order. -/
def stackNumbers (vs : List Var) : List Nat := vs.filterMap (·.name.stackNumber?)

/-- The numbers of the stack variables that statements write, one after the other. -/
def written (statements : List Stmt) : List Nat :=
  statements.flatMap fun statement => stackNumbers statement.writes

/-- The numbers of stack variables are collected part by part. -/
@[simp] theorem stackNumbers_append (vs ws : List Var) :
    stackNumbers (vs ++ ws) = stackNumbers vs ++ stackNumbers ws := List.filterMap_append

/-- A number is collected iff a stack variable has it. -/
theorem mem_stackNumbers {n : Nat} {vs : List Var} :
    n ∈ stackNumbers vs ↔ ∃ v ∈ vs, v.name = .stackVar n := by
  have hnumber : ∀ name : VarName, name.stackNumber? = some n ↔ name = .stackVar n := by
    intro name
    cases name <;> simp [VarName.stackNumber?]
  simp only [stackNumbers, List.mem_filterMap, hnumber]

/-- What statements write is collected part by part. -/
@[simp] theorem written_append (first second : List Stmt) :
    written (first ++ second) = written first ++ written second := List.flatMap_append

/-- One statement writes what it writes. -/
theorem written_singleton (statement : Stmt) :
    written [statement] = stackNumbers statement.writes := List.append_nil _

/-- An instruction that is carried along untranslated writes its results. -/
theorem written_kept (i : Instruction) (address : Int) (results : List Var) (operands : List Expr) :
    written (kept i address results operands) = stackNumbers results := by
  rw [kept, written_singleton, Stmt.writes, Expr.varsOf_map_var]

/-! ## The table -/

/-- The locals of a frame are variables of their numbers. -/
def Frame.NamesLocals (f : Frame) : Prop :=
  ∀ (index : Nat) (v : Var), f.locals[index]? = some v → v.name = .localVar index

/-- A local is no stack variable. -/
theorem NamesLocal.stackNumbers_eq {f : Frame} {i : Instruction} {v : Var} (h : NamesLocal f i v)
    (hf : f.NamesLocals) : stackNumbers [v] = [] := by
  obtain ⟨index, -, hv⟩ := h
  simp [stackNumbers, VarName.stackNumber?, hf index v hv]

/-- What denotes a literal mentions no variable. -/
theorem Denotes.vars_eq {i : Instruction} {n : Int} {e : Expr} (h : Denotes i n e) : e.vars = [] := by
  obtain ⟨rfl, -⟩ | ⟨ref, -, rfl⟩ := h
  · rfl
  · rfl

namespace Lowered

variable {f : Frame} {i : Instruction} {address : Int} {ins outs : List Var}
  {statements : List Stmt}

/-- The statements of an instruction read no stack variables but those of the values that it takes. -/
theorem reads_subset (h : Lowered f i address ins outs statements) (hf : f.NamesLocals)
    {statement : Stmt} (hstatement : statement ∈ statements) :
    stackNumbers statement.reads ⊆ stackNumbers ins := by
  cases h with
  | drop => exact absurd hstatement List.not_mem_nil
  | leave =>
    obtain rfl := List.mem_singleton.mp hstatement
    rw [Stmt.reads, Expr.varsOf_map_var]
    exact List.Subset.refl _
  | jump =>
    obtain rfl := List.mem_singleton.mp hstatement
    exact List.nil_subset _
  | @branch v truth =>
    obtain rfl := List.mem_singleton.mp hstatement
    cases truth with
    | true => exact List.Subset.refl _
    | false => exact List.Subset.refl _
  | literal _ _ he =>
    obtain rfl := List.mem_singleton.mp hstatement
    rw [Stmt.reads, he.vars_eq]
    exact List.nil_subset _
  | copy _ hx =>
    obtain rfl := List.mem_singleton.mp hstatement
    rw [Stmt.reads, Expr.vars, hx.stackNumbers_eq hf]
    exact List.nil_subset _
  | move _ hx =>
    -- The local is read and then cleared.
    rcases List.mem_pair.mp hstatement with rfl | rfl
    · rw [Stmt.reads, Expr.vars, hx.stackNumbers_eq hf]
      exact List.nil_subset _
    · exact List.nil_subset _
  | store | negate | combine =>
    obtain rfl := List.mem_singleton.mp hstatement
    exact List.Subset.refl _
  | call | external =>
    obtain rfl := List.mem_singleton.mp hstatement
    rw [Stmt.reads, Expr.varsOf_map_var]
    exact List.Subset.refl _
  | borrowLocal _ hx =>
    obtain rfl := List.mem_singleton.mp hstatement
    rw [Stmt.reads, Expr.varsOf, Expr.vars, Expr.varsOf, List.append_nil, hx.stackNumbers_eq hf]
    exact List.nil_subset _
  | borrowField =>
    obtain rfl := List.mem_singleton.mp hstatement
    exact List.Subset.refl _
  | @write v r =>
    -- The reference is on top, and it comes first among the operands.
    obtain rfl := List.mem_singleton.mp hstatement
    intro n hn
    rw [mem_stackNumbers] at hn ⊢
    simpa [Stmt.reads, Expr.varsOf, Expr.vars, or_comm] using hn

/-- The statements of an instruction write the stack variables of the values that it puts. -/
theorem written_eq (h : Lowered f i address ins outs statements) (hf : f.NamesLocals) :
    written statements = stackNumbers outs := by
  cases h with
  | drop | leave | jump | branch => rfl
  | literal | copy | negate | combine | call => exact written_singleton _
  | @move x w _ hx =>
    -- The variable of the value is written, and then the local.
    calc written [.assign w (.var x), .assign x (.imm 0 x.bits)]
      _ = stackNumbers [w] ++ stackNumbers [x] := by
        rw [← List.singleton_append, written_append, written_singleton, written_singleton]
        rfl
      _ = stackNumbers [w] := by rw [hx.stackNumbers_eq hf, List.append_nil]
  | store _ hx => exact (written_singleton _).trans (hx.stackNumbers_eq hf)
  | borrowLocal | borrowField | write | external => exact written_kept i address outs _

end Lowered

end Lift

end MoveBytecode
