import MoveBytecode.Lift.Routine
import MoveBytecode.Proofs.Machine.Run

/-!
# The machine of the intermediate form

The statements of a lifted routine run on an assignment of values to variables. Statements follow each
other in the order of the listing; a branch goes on at the first statement of the instruction at its
destination, which the ranges of the routine give. Widths play no part: an extended value is the value.
-/

namespace MoveBytecode

namespace Form

variable {V : Type}

/-- A value for every variable. -/
abbrev Env (V : Type) := VarName → V

/-- The values with another one for a variable. -/
def Env.set (env : Env V) (name : VarName) (v : V) : Env V :=
  fun other => if other = name then v else env other

/-- The values with others for some variables, one after the other. -/
def Env.setAll (env : Env V) : List VarName → List V → Env V
  | name :: names, v :: vs => (env.set name v).setAll names vs
  | _, _ => env

mutual

/-- The value of an expression. -/
def eval (I : Interpretation V) (env : Env V) : Expr → V
  | .var v => env v.name
  | .imm value _ => I.number value
  | .symbol ref => I.number ref.address
  | .operation op operands _ => apply I op (evals I env operands)
  | .cond predicate ifTrue ifFalse _ =>
    if I.truth (eval I env predicate) then eval I env ifTrue else eval I env ifFalse

/-- The values of expressions. -/
def evals (I : Interpretation V) (env : Env V) : List Expr → List V
  | [] => []
  | e :: rest => eval I env e :: evals I env rest

/-- The value of an operation; one with another number of operands has none of its own. -/
def apply (I : Interpretation V) : Operator → List V → V
  | .zeroExtend, [v] => v
  | .logicalNot, [v] => I.negate v
  | op, [left, right] => I.combine op left right
  | _, _ => I.number 0

end

/-- The address that an expression stands for, if it stands for one. -/
def destination? (I : Interpretation V) (env : Env V) : Expr → Option Int
  | .imm value _ => some value
  | .symbol ref => some ref.address
  | .cond predicate ifTrue ifFalse _ =>
    if I.truth (eval I env predicate) then destination? I env ifTrue
    else destination? I env ifFalse
  | _ => none

/-- Where a routine stands: the position of the next statement, and the values of the variables. -/
structure State (V : Type) where
  next : Nat
  env : Env V

/-- The position of the first statement of the instruction at an address; one without an instruction
leads behind the last statement. -/
def start (l : Lift.Lifted) (address : Int) : Nat :=
  ((l.ranges.find? (·.1 == address)).map (·.2.1)).getD l.statements.length

/-- The address of the instruction that the statement at a position belongs to. -/
def addressAt? (l : Lift.Lifted) (position : Nat) : Option Int :=
  (l.ranges.find? fun (_, start, stop) => start ≤ position && position < stop).map (·.1)

/-- The name of a variable that takes a result. -/
def resultName : Expr → Option VarName
  | .var v => some v.name
  | _ => none

/-- The state behind a statement that yields results of its own. -/
def State.withResults (s : State V) (I : Interpretation V) (address : Int) (names : List VarName)
    (read : List V) : State V :=
  ⟨s.next + 1, s.env.setAll names ((List.range names.length).map (I.result address read))⟩

/-- A step of a routine; behind its last statement the routine has ended. -/
def step (I : Interpretation V) (l : Lift.Lifted) (s : State V) : Progress (State V) V :=
  match l.statements[s.next]? with
  | none => .ended
  | some (.assign target source) =>
    .goOn ⟨s.next + 1, s.env.set target.name (eval I s.env source)⟩
  | some (.branch _ target _) =>
    match destination? I s.env target with
    | none => .stuck
    | some address => .goOn { s with next := start l address }
  | some (.ret values) => .returned (evals I s.env values)
  | some (.call _ returns params) =>
    match addressAt? l s.next with
    | some address =>
      .goOn (s.withResults I address (returns.map (·.name)) (evals I s.env params))
    | none => .stuck
  | some (.untranslated _ _ address results operands) =>
    .goOn (s.withResults I address (results.filterMap resultName) (evals I s.env operands))


/-! ## Values of variables -/

namespace Env

variable {env : Env V} {name other : VarName} {v : V}

/-- A variable that is set has the value that it is set to. -/
@[simp] theorem set_same : env.set name v name = v := by
  simp [set]

/-- All other variables keep their values. -/
theorem set_other (h : other ≠ name) : env.set name v other = env other := by
  simp [set, h]

/-- Setting a variable changes none of the values of others. -/
theorem map_set {names : List VarName} (h : name ∉ names) :
    names.map (env.set name v) = names.map env :=
  List.map_congr_left fun _ hother => set_other (ne_of_mem_of_not_mem hother h)

/-- A variable that is not among those that are set keeps its value. -/
theorem setAll_other {names : List VarName} {vs : List V} (h : other ∉ names) :
    env.setAll names vs other = env other := by
  induction names generalizing env vs with
  | nil => rfl
  | cons name rest ih =>
    cases vs with
    | nil => rfl
    | cons v vs =>
      rw [List.mem_cons, not_or] at h
      rw [setAll, ih h.2, set_other h.1]

/-- Variables that are not among those that are set keep their values. -/
theorem map_setAll_other {names others : List VarName} {vs : List V}
    (h : ∀ name ∈ others, name ∉ names) : others.map (env.setAll names vs) = others.map env :=
  List.map_congr_left fun name hname => setAll_other (h name hname)

/-- Variables of different names have the values that they are given. -/
theorem map_setAll {names : List VarName} {vs : List V} (hnodup : names.Nodup)
    (hlength : names.length = vs.length) : names.map (env.setAll names vs) = vs := by
  induction names generalizing env vs with
  | nil => exact (List.length_eq_zero_iff.mp hlength.symm).symm
  | cons name rest ih =>
    obtain ⟨v, vs, rfl⟩ := List.exists_cons_of_length_eq_add_one hlength.symm
    obtain ⟨hname, hrest⟩ := List.nodup_cons.mp hnodup
    rw [List.map_cons, setAll, setAll_other hname, set_same, ih hrest (by simpa using hlength)]

end Env

end Form

/-! ## Positions -/

namespace Lift

/-- The ranges of steps whose statements start at a position. -/
def rangesOf (start : Nat) : List Step → List (Int × Nat × Nat)
  | [] => []
  | step :: rest =>
    (step.address, start, start + step.statements.length) ::
      rangesOf (start + step.statements.length) rest

/-- The ranges are those of the steps, behind those done before. -/
theorem toList_rangesFrom (start : Nat) (done : Array (Int × Nat × Nat)) (steps : List Step) :
    (Lifted.rangesFrom start done steps).toList = done.toList ++ rangesOf start steps := by
  induction steps generalizing start done with
  | nil => exact (List.append_nil _).symm
  | cons step rest ih =>
    rw [Lifted.rangesFrom, ih, Array.toList_push, List.append_assoc]
    rfl

/-- A search by address finds the range of the step at this address. -/
theorem find?_address {start : Nat} {before after : List Step} {step : Step}
    (h : ∀ s ∈ before, s.address ≠ step.address) :
    ∃ stop, (rangesOf start (before ++ step :: after)).find? (·.1 == step.address) =
      some (step.address, start + (before.flatMap (·.statements)).length, stop) := by
  induction before generalizing start with
  | nil => exact ⟨_, by simp [rangesOf]; rfl⟩
  | cons s rest ih =>
    obtain ⟨stop, hstop⟩ := @ih (start + s.statements.length)
      fun s' hs' => h s' (List.mem_cons_of_mem _ hs')
    have hne : (s.address == step.address) = false := beq_false_of_ne (h s List.mem_cons_self)
    refine ⟨stop, ?_⟩
    rw [List.cons_append, rangesOf, List.find?_cons, hne, hstop, List.flatMap_cons,
      List.length_append, Nat.add_assoc]

/-- A search by position finds the range of the step whose statements are there. -/
theorem find?_position {start position : Nat} {before after : List Step} {step : Step}
    (hlow : start + (before.flatMap (·.statements)).length ≤ position)
    (hhigh : position < start + (before.flatMap (·.statements)).length + step.statements.length) :
    ((rangesOf start (before ++ step :: after)).find? fun (_, start, stop) =>
      start ≤ position && position < stop).map (·.1) = some step.address := by
  induction before generalizing start with
  | nil =>
    simp only [List.flatMap_nil, List.length_nil, Nat.add_zero] at hlow hhigh
    simp [rangesOf, hlow, hhigh]
  | cons s rest ih =>
    simp only [List.flatMap_cons, List.length_append] at hlow hhigh
    have hbehind : ¬ position < start + s.statements.length := by omega
    rw [List.cons_append, rangesOf, List.find?_cons]
    simp only [hbehind, decide_false, Bool.and_false]
    exact ih (by omega) (by omega)

namespace Lifted

variable {l : Lifted} {n k : Nat} {step : Step}

/-- The position of the first statement of step `n`, or behind the last statement. -/
def position (l : Lifted) (n : Nat) : Nat :=
  ((l.steps.toList.take n).flatMap (·.statements)).length

/-- The ranges of a routine are those of its steps. -/
theorem ranges_eq (l : Lifted) : l.ranges = rangesOf 0 l.steps.toList :=
  toList_rangesFrom 0 #[] l.steps.toList

/-- The steps in front of a step, the step, and those behind it. -/
theorem steps_split (h : l.steps.toList[n]? = some step) :
    l.steps.toList = l.steps.toList.take n ++ step :: l.steps.toList.drop (n + 1) := by
  obtain ⟨hn, rfl⟩ := List.getElem?_eq_some_iff.mp h
  rw [← List.drop_eq_getElem_cons hn, List.take_append_drop]

/-- The next step starts behind the statements of this one. -/
theorem position_succ (h : l.steps.toList[n]? = some step) :
    l.position (n + 1) = l.position n + step.statements.length := by
  rw [position, position, List.take_add_one, h, List.flatMap_append, List.length_append]
  simp

/-- Behind the last step there are no statements. -/
theorem position_of_le (h : l.steps.size ≤ n) : l.position n = l.statements.length := by
  rw [position, List.take_of_length_le (by simpa using h), statements]

/-- The statements of a step stand from its position on. -/
theorem statements_at (h : l.steps.toList[n]? = some step) (hk : k < step.statements.length) :
    l.statements[l.position n + k]? = step.statements[k]? := by
  rw [statements, steps_split h, List.flatMap_append, List.flatMap_cons, position,
    List.getElem?_append_right (Nat.le_add_right _ _), Nat.add_sub_cancel_left,
    List.getElem?_append_left hk]

end Lifted

end Lift

namespace Form

open Lift (Lifted Step)

variable {l : Lifted} {n k : Nat} {step : Step}

/-- A branch to the address of a step leads to its first statement. -/
theorem start_step (h : l.steps.toList[n]? = some step)
    (hnodup : (l.steps.toList.map (·.address)).Nodup) : start l step.address = l.position n := by
  have hsplit := Lifted.steps_split h
  have hbefore : ∀ s ∈ l.steps.toList.take n, s.address ≠ step.address := by
    rw [hsplit, List.map_append, List.map_cons] at hnodup
    intro s hs heq
    have hdisjoint := (List.nodup_append.mp hnodup).2.2
    exact hdisjoint s.address (List.mem_map_of_mem hs) step.address List.mem_cons_self heq
  obtain ⟨stop, hstop⟩ :=
    @Lift.find?_address 0 (l.steps.toList.take n) (l.steps.toList.drop (n + 1)) step hbefore
  rw [start, Lifted.ranges_eq, hsplit, hstop, Lifted.position]
  simp

/-- An address that is not the one of a step leads to the end. -/
theorem start_of_notMem {address : Int} (h : address ∉ l.steps.toList.map (·.address)) :
    start l address = l.statements.length := by
  have hnone : ∀ (from' : Nat) (steps : List Step), address ∉ steps.map (·.address) →
      (Lift.rangesOf from' steps).find? (·.1 == address) = none := by
    intro from' steps hsteps
    induction steps generalizing from' with
    | nil => rfl
    | cons s rest ih =>
      rw [List.map_cons, List.mem_cons, not_or] at hsteps
      rw [Lift.rangesOf, List.find?_cons, beq_false_of_ne (Ne.symm hsteps.1)]
      exact ih _ hsteps.2
  rw [start, Lifted.ranges_eq, hnone 0 _ h]
  rfl

/-- A statement of a step belongs to the address of the step. -/
theorem addressAt?_step (h : l.steps.toList[n]? = some step) (hk : k < step.statements.length) :
    addressAt? l (l.position n + k) = some step.address := by
  rw [addressAt?, Lifted.ranges_eq, Lifted.steps_split h]
  refine Lift.find?_position ?_ ?_
  · rw [Nat.zero_add, Lifted.position]
    omega
  · rw [Nat.zero_add, Lifted.position]
    omega

end Form

end MoveBytecode
