import MoveBytecode.Proofs.Machine.Bytecode
import MoveBytecode.Proofs.Machine.Translation

/-!
# Functions and routines in step

A function and the routine that it was lifted to are in step if the routine is at the statements of the
function's next instruction, the variables on the symbolic stack have the values on the operand stack,
and the variables of the locals have the values of the locals. Every instruction keeps them in step: one
lemma for each way of lowering it.
-/

namespace MoveBytecode

open Lift
open Progress (Matches)

variable {V : Type}

/-- A function and its routine are at the same instruction with the same values. -/
structure InStep (l : Lifted) (rows : List Lowering) (localCount : Nat) (s : Bytecode.State V)
    (t : Form.State V) : Prop where
  next_le : s.next ≤ l.steps.size
  position : t.next = l.position s.next
  stack : s.stack = (varsAt rows s.next).map fun v => t.env v.name
  locals : s.locals = (List.range localCount).map fun index => t.env (.localVar index)

/-- The instruction that a function is at keeps it in step with its routine. -/
def Advances (I : Interpretation V) (l : Lifted) (b : Body.Frame) (base : Int)
    (body : List Instruction) (rows : List Lowering) (s : Bytecode.State V) (t : Form.State V) :
    Prop :=
  ∃ count, Matches (InStep l rows b.localCount) (Bytecode.step I b base body s)
      (runFor (Form.step I l) count t) ∧
    (count = 0 → ∀ s', Bytecode.step I b base body s = .goOn s' → s'.next = s.next + 1)

section

variable {I : Interpretation V} {l : Lifted} {frame : Frame} {b : Body.Frame} {base : Int}
  {body : List Instruction} {rows : List Lowering} {s : Bytecode.State V} {t : Form.State V}
  {i : Instruction} {step : Step} {rest ins outs : List Var}

/-! ## What every instruction has in common -/

/-- The operand stack holds the values that stay and those that the instruction takes. -/
theorem stack_eq (hst : InStep l rows b.localCount s t)
    (hrow : RowAt l frame b base rows s.next i step rest ins outs) :
    s.stack = rest.map (fun v => t.env v.name) ++ ins.map fun v => t.env v.name := by
  rw [hst.stack, hrow.before, List.map_append]

/-- A step of the function is what its instruction does with these values. -/
theorem step_eq {p : Progress (Bytecode.State V) V} (hi : body[s.next]? = some i)
    (hst : InStep l rows b.localCount s t)
    (hrow : RowAt l frame b base rows s.next i step rest ins outs)
    (h : Bytecode.perform I b (base + i.offset) i (rest.map fun v => t.env v.name)
      (ins.map fun v => t.env v.name) outs.length s = .ok p) :
    Bytecode.step I b base body s = p := by
  have htake : Bytecode.takeTop ins.length s.stack =
      .ok (rest.map (fun v => t.env v.name), ins.map fun v => t.env v.name) := by
    -- The values that the instruction takes are those of its variables.
    rw [stack_eq hst hrow, ← List.length_map (fun v : Var => t.env v.name)]
    exact Bytecode.takeTop_append _ _
  have hperform : Bytecode.perform? I b base i s = .ok p := by
    rw [Bytecode.perform?, hrow.effect]
    change (Bytecode.takeTop ins.length s.stack >>= fun taken =>
      Bytecode.perform I b (base + i.offset) i taken.1 taken.2 outs.length s) = _
    rw [htake]
    exact h
  rw [Bytecode.step, hi]
  simp only [hperform]

/-- The statement that the routine is at, if it has one for the instruction. -/
theorem statement_eq (hst : InStep l rows b.localCount s t)
    (hrow : RowAt l frame b base rows s.next i step rest ins outs) {k : Nat} {statement : Stmt}
    (h : step.statements[k]? = some statement) : l.statements[t.next + k]? = some statement := by
  rw [hst.position, Lifted.statements_at hrow.found (List.getElem?_eq_some_iff.mp h).1, h]

/-- Behind the statements of the instruction, function and routine are in step if the values are. -/
theorem inStep_next (hst : InStep l rows b.localCount s t)
    (hrow : RowAt l frame b base rows s.next i step rest ins outs) {locals : List V} {stack : List V}
    {env : Form.Env V} {next : Nat} (hnext : next = t.next + step.statements.length)
    (hstack : stack = (rest ++ outs).map fun v => env v.name)
    (hlocals : locals = (List.range b.localCount).map fun index => env (.localVar index)) :
    InStep l rows b.localCount ⟨s.next + 1, stack, locals⟩ ⟨next, env⟩ where
  next_le := by
    have := (List.getElem?_eq_some_iff.mp hrow.found).1
    rw [Array.length_toList] at this
    exact this
  position := by
    rw [hnext, hst.position, Lifted.position_succ hrow.found]
  stack := by rw [hstack, hrow.after]
  locals := hlocals

/-- A function whose instruction has one statement advances if the two lead to the same. -/
theorem advances_of_step {p : Progress (Bytecode.State V) V} {q : Progress (Form.State V) V}
    (hstep : Bytecode.step I b base body s = p) (hform : Form.step I l t = q)
    (h : Matches (InStep l rows b.localCount) p q) : Advances I l b base body rows s t := by
  refine ⟨1, ?_, by simp⟩
  rw [hstep, runFor_one, hform]
  exact h

/-- The locals are not among the variables on the stack. -/
theorem locals_set {env : Form.Env V} {localCount k : Nat} {v : V} {name : VarName}
    (hname : name = .stackVar k) :
    (List.range localCount).map (fun index => env.set name v (.localVar index)) =
      (List.range localCount).map fun index => env (.localVar index) := by
  refine List.map_congr_left fun index _ => Form.Env.set_other ?_
  rw [hname]
  exact VarName.noConfusion

/-- Storing a local changes its value among those of the locals. -/
theorem locals_set_local {env : Form.Env V} {localCount index : Nat} {v : V} :
    (List.range localCount).map (fun j => env.set (.localVar index) v (.localVar j)) =
      ((List.range localCount).map fun j => env (.localVar j)).set index v := by
  apply List.ext_getElem
  · simp
  · intro j hj _
    rw [List.getElem_set]
    by_cases hji : index = j
    · simp [Form.Env.set, hji]
    · simp [Form.Env.set, hji, Ne.symm hji]

/-- Storing a local leaves the values on the stack as they are. -/
theorem stack_set_local {env : Form.Env V} {index : Nat} {v : V} {vs : List Var}
    (h : ∀ w ∈ vs, ∃ k, w.name = .stackVar k) :
    vs.map (fun w => env.set (.localVar index) v w.name) = vs.map fun w => env w.name := by
  refine List.map_congr_left fun w hw => Form.Env.set_other ?_
  obtain ⟨k, hk⟩ := h w hw
  rw [hk]
  exact VarName.noConfusion

/-- Giving the variable on top of the stack a value leaves those below as they are. -/
theorem stack_set_top {env : Form.Env V} {w : Var} {v : V}
    (h : ((rest ++ [w]).map (·.name)).Nodup) :
    (rest ++ [w]).map (fun x => env.set w.name v x.name) =
      rest.map (fun x => env x.name) ++ [v] := by
  rw [List.map_append, List.nodup_append] at h
  have hrest : w.name ∉ rest.map (·.name) := fun hmem =>
    h.2.2 w.name hmem w.name (by simp) rfl
  have hbelow : (rest.map (·.name)).map (env.set w.name v) = (rest.map (·.name)).map env :=
    Form.Env.map_set hrest
  rw [List.map_map, List.map_map] at hbelow
  rw [List.map_append]
  exact congrArg₂ (· ++ ·) hbelow (by simp)

/-! ## One value is computed -/

/-- An instruction that puts a value which its statement assigns to the variable on top. -/
theorem advances_assign {w : Var} {e : Expr} (hi : body[s.next]? = some i)
    (hst : InStep l rows b.localCount s t)
    (hrow : RowAt l frame b base rows s.next i step rest ins [w])
    (hstatements : step.statements = [.assign w e])
    (hperform : Bytecode.perform I b (base + i.offset) i (rest.map fun v => t.env v.name)
      (ins.map fun v => t.env v.name) 1 s =
        .ok (.goOn { s with
          next := s.next + 1
          stack := rest.map (fun v => t.env v.name) ++ [Form.eval I t.env e] })) :
    Advances I l b base body rows s t := by
  have hstatement := statement_eq hst hrow (k := 0) (by rw [hstatements]; rfl)
  have hform : Form.step I l t =
      .goOn ⟨t.next + 1, t.env.set w.name (Form.eval I t.env e)⟩ := by
    rw [Form.step, show l.statements[t.next]? = _ from hstatement]
  refine advances_of_step (step_eq hi hst hrow hperform) hform ?_
  refine inStep_next hst hrow (by rw [hstatements]; rfl) (stack_set_top hrow.distinct).symm ?_
  obtain ⟨k, hk⟩ := hrow.nameAfter w (by simp)
  rw [hst.locals, locals_set hk]

/-! ## Values that are given -/

/-- An instruction whose results are those that the interpretation gives for what it reads. -/
theorem advances_results {read : List V} (hi : body[s.next]? = some i)
    (hst : InStep l rows b.localCount s t)
    (hrow : RowAt l frame b base rows s.next i step rest ins outs)
    (hlength : step.statements.length = 1)
    (hform : Form.step I l t =
      .goOn (t.withResults I (base + i.offset) (outs.map (·.name)) read))
    (hperform : Bytecode.perform I b (base + i.offset) i (rest.map fun v => t.env v.name)
      (ins.map fun v => t.env v.name) outs.length s =
        .ok (.goOn { s with
          next := s.next + 1
          stack := rest.map (fun v => t.env v.name) ++
            (List.range outs.length).map (I.result (base + i.offset) read) })) :
    Advances I l b base body rows s t := by
  refine advances_of_step (step_eq hi hst hrow hperform) hform ?_
  have hdistinct := hrow.distinct
  rw [List.map_append, List.nodup_append] at hdistinct
  obtain ⟨-, houts, hdisjoint⟩ := hdistinct
  refine inStep_next hst hrow (by rw [hlength]) ?_ ?_
  · -- The results do not touch the variables below, and the variables on top are theirs in order.
    have hbelow : ∀ vs : List V, (rest.map (·.name)).map (t.env.setAll (outs.map (·.name)) vs) =
        (rest.map (·.name)).map t.env := fun vs =>
      Form.Env.map_setAll_other fun name hname hmem => hdisjoint name hname name hmem rfl
    have htop : ∀ vs : List V, outs.length = vs.length →
        (outs.map (·.name)).map (t.env.setAll (outs.map (·.name)) vs) = vs := fun vs hvs =>
      Form.Env.map_setAll houts (by rw [List.length_map, hvs])
    simp only [List.map_map] at hbelow htop
    rw [List.map_append, List.length_map]
    exact congrArg₂ (· ++ ·) (hbelow _).symm (htop _ (by simp)).symm
  · rw [hst.locals]
    refine List.map_congr_left fun index _ => (Form.Env.setAll_other ?_).symm
    intro hmem
    obtain ⟨w, hw, hname⟩ := List.mem_map.mp hmem
    obtain ⟨k, hk⟩ := hrow.nameAfter w (List.mem_append_right rest hw)
    rw [hk] at hname
    exact VarName.noConfusion hname

/-! ## Constants and locals -/

variable {data : Bytes} {start : Nat}

/-- What denotes the literal of an instruction has the literal as its value. -/
theorem eval_of_denotes (h : Translation l frame b data start base body rows)
    (hi : body[s.next]? = some i) (hrole : i.opcode.role = .literal) {n : Int} {e : Expr}
    (hn : frame.owner.literal i = .ok n) (he : Denotes i n e) (env : Form.Env V) :
    Form.eval I env e = I.number n := by
  rcases he with ⟨rfl, hmapped⟩ | ⟨ref, rfl, rfl⟩
  · obtain ⟨h0, hlt⟩ := literal_bounds h.addresses (h.sound.accepted (List.mem_of_getElem? hi)) hrole
      hmapped hn
    rw [Ir.constant, Form.eval, cutTo_of_lt h0 hlt]
  · rw [Form.eval]

/-- The local that an instruction names has the value of its variable. -/
theorem local_value (h : Translation l frame b data start base body rows)
    (hst : InStep l rows b.localCount s t) {x : Var} (hx : NamesLocal frame i x) :
    ∃ index, i.operandValue = .ok index ∧ x.name = .localVar index ∧
      Bytecode.getLocal s.locals index = .ok (t.env x.name) := by
  obtain ⟨index, hindex, hvar⟩ := hx
  have hname := h.locals index x hvar
  have hlt : index < b.localCount := by
    rw [← h.localCount]
    exact (Array.getElem?_eq_some_iff.mp hvar).1
  refine ⟨index, hindex, hname, ?_⟩
  rw [Bytecode.getLocal, hst.locals, List.getElem?_map, List.getElem?_range hlt, hname]
  rfl

/-! ## Branches -/

/-- What a branch leads to in the listing. -/
theorem exists_destination (h : Translation l frame b data start base body rows)
    (hflat : FlatBranches body) (hi : body[s.next]? = some i)
    (hrow : RowAt l frame b base rows s.next i step rest ins outs)
    (hbranch : i.opcode.isBranch = true) :
    ∃ target, i.operandValue = .ok target ∧ target < l.steps.size ∧ varsAt rows target = [] ∧
      (∀ (I : Interpretation V) (env : Form.Env V),
        Form.destination? I env (Ir.constant (base + i.offset + i.jump) 64) =
          some (base + i.offset + i.jump)) ∧
      Form.start l (base + i.offset + i.jump) = l.position target ∧ rest = [] ∧ outs = [] := by
  obtain ⟨target, d, hoperand, hd, haddress⟩ := h.exists_target hi hbranch
  have hvalue : i.operandValue = .ok target := by rw [Instruction.operandValue, hoperand]
  obtain ⟨hafter, hdepth⟩ := hflat i (List.mem_of_getElem? hi) hbranch
  have hrest := hrow.depthAfter
  rw [hafter, List.length_eq_zero_iff, List.append_eq_nil_iff] at hrest
  -- By assumption nothing is on the stack here nor at the destination.
  refine ⟨target, hvalue, ?_, ?_, fun I env => ?_, ?_, hrest⟩
  · rw [h.length_steps]
    exact (List.getElem?_eq_some_iff.mp hd).1
  · rw [← List.length_eq_zero_iff, h.length_varsAt hd]
    exact hdepth _ hoperand d hd
  · rw [haddress, h.constant_address hd, Form.destination?]
  · rw [haddress]
    exact h.start_target hd

/-- After a branch, function and routine are in step at its destination. -/
theorem inStep_target {target : Nat} (hst : InStep l rows b.localCount s t)
    (htarget : target ≤ l.steps.size) (hvars : varsAt rows target = []) :
    InStep l rows b.localCount { s with next := target, stack := [] }
      { t with next := l.position target } :=
  ⟨htarget, rfl, by rw [hvars]; rfl, hst.locals⟩

/-- A jump leads both the function and its routine to the target. -/
theorem advances_jump (h : Translation l frame b data start base body rows)
    (hflat : FlatBranches body) (hi : body[s.next]? = some i)
    (hst : InStep l rows b.localCount s t)
    (hrow : RowAt l frame b base rows s.next i step rest ins outs)
    (hrole : i.opcode.role = .jump)
    (hstatements : step.statements =
      [.branch programCounter (Ir.constant (base + i.offset + i.jump) 64) false]) :
    Advances I l b base body rows s t := by
  obtain ⟨target, hvalue, htarget, hvars, hdestination, hstart, rfl, rfl⟩ :=
    exists_destination h hflat hi hrow (Opcode.isBranch_iff_role.mpr (.inl hrole))
  have hstatement := statement_eq hst hrow (k := 0) (by rw [hstatements]; rfl)
  have hform : Form.step I l t = .goOn { t with next := l.position target } := by
    rw [Form.step, show l.statements[t.next]? = _ from hstatement]
    simp only [hdestination I t.env, hstart]
  have hstep : Bytecode.step I b base body s = .goOn { s with next := target, stack := [] } := by
    refine step_eq hi hst hrow ?_
    unfold Bytecode.perform
    simp only [hrole, hvalue]
    rfl
  exact advances_of_step hstep hform (inStep_target hst (Nat.le_of_lt htarget) hvars)

/-- A conditional branch leads both to the target or both to the next instruction. -/
theorem advances_branch {v : Var} {truth : Bool} (h : Translation l frame b data start base body rows)
    (hflat : FlatBranches body) (hi : body[s.next]? = some i)
    (hst : InStep l rows b.localCount s t)
    (hrow : RowAt l frame b base rows s.next i step rest [v] outs)
    (hrole : i.opcode.role = .branch truth)
    (hstatements : step.statements =
      [.branch programCounter
        (Ir.cond (if truth then .var v else .operation .logicalNot [.var v] 1)
          (Ir.constant (base + i.offset + i.jump) 64)
          (Ir.constant (base + i.offset + i.size) 64)) false]) :
    Advances I l b base body rows s t := by
  obtain ⟨target, hvalue, htarget, hvars, hdestination, hstart, rfl, rfl⟩ :=
    exists_destination h hflat hi hrow (Opcode.isBranch_iff_role.mpr (.inr ⟨truth, hrole⟩))
  have hbehind : Form.destination? I t.env (Ir.constant (base + i.offset + i.size) 64) =
      some (base + i.offset + i.size) := by
    rw [h.constant_behind hi, Form.destination?]
  -- A branch on falsehood tests the negated value, and negating a value changes its truth.
  have htruth : I.truth (Form.eval I t.env
      (if truth then .var v else .operation .logicalNot [.var v] 1)) = true ↔
      I.truth (t.env v.name) = truth := by
    cases truth with
    | true => simp [Form.eval]
    | false => simp [Form.eval, Form.evals, Form.apply, I.truth_negate]
  have hstatement := statement_eq hst hrow (k := 0) (by rw [hstatements]; rfl)
  have hstep : Bytecode.step I b base body s =
      .goOn { s with
        next := if I.truth (t.env v.name) = truth then target else s.next + 1
        stack := [] } := by
    refine step_eq hi hst hrow ?_
    unfold Bytecode.perform
    simp only [hrole, hvalue]
    rfl
  by_cases htaken : I.truth (t.env v.name) = truth
  · have hform : Form.step I l t = .goOn { t with next := l.position target } := by
      rw [Form.step, show l.statements[t.next]? = _ from hstatement]
      simp only [Ir.cond, Form.destination?, if_pos (htruth.mpr htaken), hdestination I t.env, hstart]
    rw [if_pos htaken] at hstep
    exact advances_of_step hstep hform (inStep_target hst (Nat.le_of_lt htarget) hvars)
  · have hform : Form.step I l t = .goOn { t with next := l.position (s.next + 1) } := by
      rw [Form.step, show l.statements[t.next]? = _ from hstatement]
      simp only [Ir.cond, Form.destination?, if_neg (fun hp => htaken (htruth.mp hp)), hbehind,
        h.start_behind hi]
    have hnext := (List.getElem?_eq_some_iff.mp hi).1
    rw [← h.length_steps] at hnext
    rw [if_neg htaken] at hstep
    exact advances_of_step hstep hform (inStep_target hst hnext hrow.after)

/-! ## The other ways of lowering -/

/-- A value that is dropped stays in its variable, which is no longer on the stack. -/
theorem advances_drop {v : Var} (hi : body[s.next]? = some i) (hst : InStep l rows b.localCount s t)
    (hrow : RowAt l frame b base rows s.next i step rest [v] [])
    (hrole : i.opcode.role = .drop) (hstatements : step.statements = []) :
    Advances I l b base body rows s t := by
  have hstep : Bytecode.step I b base body s =
      .goOn { s with next := s.next + 1, stack := rest.map (fun v => t.env v.name) ++ [] } := by
    refine step_eq hi hst hrow ?_
    unfold Bytecode.perform
    simp only [hrole]
    rfl
  -- The routine rests, as there is nothing to be done.
  refine ⟨0, ?_, fun _ s' hs' => ?_⟩
  · rw [hstep]
    exact inStep_next hst hrow (by rw [hstatements]; rfl) (by simp) hst.locals
  · rw [hstep] at hs'
    obtain rfl := Progress.goOn.inj hs'
    rfl

/-- The values of some variables are read in order. -/
theorem evals_vars (env : Form.Env V) (vs : List Var) :
    Form.evals I env (vs.map .var) = vs.map fun v => env v.name := by
  induction vs with
  | nil => rfl
  | cons v rest ih => rw [List.map_cons, Form.evals, ih, Form.eval, List.map_cons]

/-- A return gives the values on top of the stack. -/
theorem advances_leave (hi : body[s.next]? = some i) (hst : InStep l rows b.localCount s t)
    (hrow : RowAt l frame b base rows s.next i step rest ins [])
    (hrole : i.opcode.role = .leave) (hstatements : step.statements = [.ret (ins.map .var)]) :
    Advances I l b base body rows s t := by
  have hstatement := statement_eq hst hrow (k := 0) (by rw [hstatements]; rfl)
  have hform : Form.step I l t = .returned (ins.map fun v => t.env v.name) := by
    rw [Form.step, show l.statements[t.next]? = _ from hstatement]
    simp only [evals_vars]
  have hstep : Bytecode.step I b base body s = .returned (ins.map fun v => t.env v.name) := by
    refine step_eq hi hst hrow ?_
    unfold Bytecode.perform
    simp only [hrole]
    rfl
  exact advances_of_step hstep hform rfl

/-- The value on top is stored in the local, and assigned to its variable. -/
theorem advances_store {v x : Var} (h : Translation l frame b data start base body rows)
    (hi : body[s.next]? = some i) (hst : InStep l rows b.localCount s t)
    (hrow : RowAt l frame b base rows s.next i step rest [v] [])
    (hrole : i.opcode.role = .store) (hx : NamesLocal frame i x)
    (hstatements : step.statements = [.assign x (.var v)]) :
    Advances I l b base body rows s t := by
  obtain ⟨index, hindex, hname, -⟩ := local_value h hst hx
  have hstatement := statement_eq hst hrow (k := 0) (by rw [hstatements]; rfl)
  have hform : Form.step I l t =
      .goOn ⟨t.next + 1, t.env.set (.localVar index) (t.env v.name)⟩ := by
    rw [Form.step, show l.statements[t.next]? = _ from hstatement]
    simp only [Form.eval, hname]
  have hstep : Bytecode.step I b base body s =
      .goOn ⟨s.next + 1, rest.map (fun v => t.env v.name), s.locals.set index (t.env v.name)⟩ := by
    refine step_eq hi hst hrow ?_
    unfold Bytecode.perform
    simp only [hrole, hindex]
    rfl
  refine advances_of_step hstep hform (inStep_next hst hrow (by rw [hstatements]; rfl) ?_ ?_)
  · rw [stack_set_local hrow.nameAfter, List.append_nil]
  · rw [hst.locals, locals_set_local]

/-- The value of a local is put on the operand stack and the local is cleared, by two statements of the
routine. -/
theorem advances_move {x w : Var} (h : Translation l frame b data start base body rows)
    (hi : body[s.next]? = some i) (hst : InStep l rows b.localCount s t)
    (hrow : RowAt l frame b base rows s.next i step rest [] [w])
    (hrole : i.opcode.role = .move) (hx : NamesLocal frame i x)
    (hstatements : step.statements = [.assign w (.var x), .assign x (.imm 0 x.bits)]) :
    Advances I l b base body rows s t := by
  obtain ⟨index, hindex, hname, hvalue⟩ := local_value h hst hx
  have hload := statement_eq hst hrow (k := 0) (by rw [hstatements]; rfl)
  have hclear := statement_eq hst hrow (k := 1) (by rw [hstatements]; rfl)
  -- Two statements: the value is loaded, then the local is cleared.
  let loaded := t.env.set w.name (t.env x.name)
  have hform : runFor (Form.step I l) 2 t =
      .goOn ⟨t.next + 2, loaded.set (.localVar index) (I.number 0)⟩ := by
    have hfirst : Form.step I l t = .goOn ⟨t.next + 1, loaded⟩ := by
      rw [Form.step, show l.statements[t.next]? = _ from hload]
      rfl
    have hsecond : Form.step I l ⟨t.next + 1, loaded⟩ =
        .goOn ⟨t.next + 2, loaded.set (.localVar index) (I.number 0)⟩ := by
      rw [Form.step, hclear]
      simp only [Form.eval, hname]
    rw [runFor_succ, hfirst]
    exact (runFor_one _).trans hsecond
  have hstep : Bytecode.step I b base body s =
      .goOn ⟨s.next + 1, rest.map (fun v => t.env v.name) ++ [t.env x.name],
        s.locals.set index (I.number 0)⟩ := by
    refine step_eq hi hst hrow ?_
    unfold Bytecode.perform
    simp only [hrole, hindex]
    exact bind_eq_ok.mpr ⟨index, rfl, bind_eq_ok.mpr ⟨_, hvalue, rfl⟩⟩
  refine ⟨2, ?_, by simp⟩
  rw [hstep, hform]
  refine inStep_next hst hrow (by rw [hstatements]; rfl) ?_ ?_
  · rw [stack_set_local hrow.nameAfter, stack_set_top hrow.distinct]
  · obtain ⟨k, hk⟩ := hrow.nameAfter w (by simp)
    rw [locals_set_local, locals_set hk, hst.locals]

/-- An instruction that is carried along untranslated has the results that are given for its operands. -/
theorem form_step_kept {operands : List Expr} (hst : InStep l rows b.localCount s t)
    (hrow : RowAt l frame b base rows s.next i step rest ins outs)
    (hstatements : step.statements = kept i (base + i.offset) outs operands) :
    Form.step I l t = .goOn
      (t.withResults I (base + i.offset) (outs.map (·.name)) (Form.evals I t.env operands)) := by
  have hstatement := statement_eq hst hrow (k := 0) (by rw [hstatements]; rfl)
  have hnames : (outs.map Expr.var).filterMap Form.resultName = outs.map (·.name) := by
    rw [List.filterMap_map]
    exact congrFun (List.filterMap_eq_map (f := fun v : Var => v.name)) outs
  rw [Form.step, show l.statements[t.next]? = _ from hstatement]
  simp only [hnames]

/-- A call has the results that are given for its parameters at the address of its instruction. -/
theorem form_step_call {target : SymbolRef} (hst : InStep l rows b.localCount s t)
    (hrow : RowAt l frame b base rows s.next i step rest ins outs)
    (hstatements : step.statements = [.call target outs (ins.map .var)]) :
    Form.step I l t = .goOn (t.withResults I (base + i.offset) (outs.map (·.name))
      (ins.map fun v => t.env v.name)) := by
  have hstatement := statement_eq hst hrow (k := 0) (by rw [hstatements]; rfl)
  have haddress : Form.addressAt? l t.next = some (base + i.offset) := by
    rw [hst.position, ← hrow.address]
    exact Form.addressAt?_step (k := 0) hrow.found (by rw [hstatements]; exact Nat.zero_lt_one)
  rw [Form.step, show l.statements[t.next]? = _ from hstatement]
  simp only [haddress, evals_vars]

/-- An instruction that is carried along untranslated with its operands. -/
theorem advances_kept {operands : List Expr} (hi : body[s.next]? = some i)
    (hst : InStep l rows b.localCount s t)
    (hrow : RowAt l frame b base rows s.next i step rest ins outs)
    (hstatements : step.statements = kept i (base + i.offset) outs operands)
    (hperform : Bytecode.perform I b (base + i.offset) i (rest.map fun v => t.env v.name)
      (ins.map fun v => t.env v.name) outs.length s =
        .ok (.goOn { s with
          next := s.next + 1
          stack := rest.map (fun v => t.env v.name) ++
            (List.range outs.length).map
              (I.result (base + i.offset) (Form.evals I t.env operands)) })) :
    Advances I l b base body rows s t :=
  advances_results hi hst hrow (by rw [hstatements]; rfl) (form_step_kept hst hrow hstatements)
    hperform

/-! ## Instructions that compute one value -/

/-- A constant is put on the operand stack, and the routine assigns it to the variable on top. -/
theorem advances_literal {n : Int} {e : Expr} {w : Var}
    (h : Translation l frame b data start base body rows) (hi : body[s.next]? = some i)
    (hst : InStep l rows b.localCount s t)
    (hrow : RowAt l frame b base rows s.next i step rest [] [w])
    (hrole : i.opcode.role = .literal) (hn : frame.owner.literal i = .ok n) (he : Denotes i n e)
    (hstatements : step.statements = [.assign w e]) : Advances I l b base body rows s t := by
  refine advances_assign hi hst hrow hstatements ?_
  rw [eval_of_denotes h hi hrole hn he]
  unfold Bytecode.perform
  simp only [hrole, h.agrees.owner, hn]
  rfl

/-- The value of a local is put on the operand stack, and the routine copies its variable. -/
theorem advances_copy {x w : Var} (h : Translation l frame b data start base body rows)
    (hi : body[s.next]? = some i) (hst : InStep l rows b.localCount s t)
    (hrow : RowAt l frame b base rows s.next i step rest [] [w])
    (hrole : i.opcode.role = .copy) (hx : NamesLocal frame i x)
    (hstatements : step.statements = [.assign w (.var x)]) :
    Advances I l b base body rows s t := by
  obtain ⟨index, hindex, -, hvalue⟩ := local_value h hst hx
  refine advances_assign hi hst hrow hstatements ?_
  unfold Bytecode.perform
  simp only [hrole, hindex]
  exact bind_eq_ok.mpr ⟨index, rfl, bind_eq_ok.mpr ⟨_, hvalue, by rw [Form.eval]; rfl⟩⟩

/-- The value on top is negated, which the routine widens to the 64 bits of its variable. -/
theorem advances_negate {v w : Var} (hi : body[s.next]? = some i)
    (hst : InStep l rows b.localCount s t)
    (hrow : RowAt l frame b base rows s.next i step rest [v] [w])
    (hrole : i.opcode.role = .negate)
    (hstatements : step.statements =
      [.assign w (.operation .zeroExtend [.operation .logicalNot [.var v] 1] 64)]) :
    Advances I l b base body rows s t := by
  refine advances_assign hi hst hrow hstatements ?_
  unfold Bytecode.perform
  simp only [hrole, Form.eval, Form.evals, Form.apply]
  rfl

/-- Two values are combined to one, which the routine widens to the 64 bits of its variable. -/
theorem advances_combine {op : Operator} {left right w : Var} {bits : Int}
    (hi : body[s.next]? = some i) (hst : InStep l rows b.localCount s t)
    (hrow : RowAt l frame b base rows s.next i step rest [left, right] [w])
    (hrole : i.opcode.role = .combine op)
    (hstatements : step.statements =
      [.assign w (.operation .zeroExtend [.operation op [.var left, .var right] bits] 64)]) :
    Advances I l b base body rows s t := by
  refine advances_assign hi hst hrow hstatements ?_
  unfold Bytecode.perform
  simp only [hrole, Form.eval, Form.evals, Form.apply]
  rfl

/-! ## Instructions whose results are given -/

/-- A call hands the values it takes to the interpretation, as its statement does. -/
theorem advances_call {target : SymbolRef} (hi : body[s.next]? = some i)
    (hst : InStep l rows b.localCount s t)
    (hrow : RowAt l frame b base rows s.next i step rest ins outs)
    (hrole : i.opcode.role = .external)
    (hstatements : step.statements = [.call target outs (ins.map .var)]) :
    Advances I l b base body rows s t := by
  refine advances_results hi hst hrow (by rw [hstatements]; rfl)
    (form_step_call hst hrow hstatements) ?_
  unfold Bytecode.perform
  simp only [hrole]
  rfl

/-- A reference to a local is given for the value of the local. -/
theorem advances_borrowLocal {x : Var} (h : Translation l frame b data start base body rows)
    (hi : body[s.next]? = some i) (hst : InStep l rows b.localCount s t)
    (hrow : RowAt l frame b base rows s.next i step rest [] outs)
    (hrole : i.opcode.role = .borrowLocal) (hx : NamesLocal frame i x)
    (hstatements : step.statements = kept i (base + i.offset) outs [.var x]) :
    Advances I l b base body rows s t := by
  obtain ⟨index, hindex, -, hvalue⟩ := local_value h hst hx
  refine advances_kept hi hst hrow hstatements ?_
  unfold Bytecode.perform
  simp only [hrole, hindex]
  exact bind_eq_ok.mpr ⟨index, rfl, bind_eq_ok.mpr ⟨_, hvalue, rfl⟩⟩

/-- A reference to a field is given for the value on top and the address of the field's name. -/
theorem advances_borrowField {v : Var} {ref : SymbolRef}
    (h : Translation l frame b data start base body rows) (hi : body[s.next]? = some i)
    (hst : InStep l rows b.localCount s t)
    (hrow : RowAt l frame b base rows s.next i step rest [v] outs)
    (hrole : i.opcode.role = .borrowField) (hn : frame.owner.fieldPointer i = .ok ref.address)
    (hstatements : step.statements = kept i (base + i.offset) outs [.var v, .symbol ref]) :
    Advances I l b base body rows s t := by
  refine advances_kept hi hst hrow hstatements ?_
  unfold Bytecode.perform
  simp only [hrole, h.agrees.owner, hn]
  rfl

/-- A write through a reference reads the reference first, which is on top, and then the value. -/
theorem advances_write {v r : Var} (hi : body[s.next]? = some i)
    (hst : InStep l rows b.localCount s t)
    (hrow : RowAt l frame b base rows s.next i step rest [v, r] outs)
    (hrole : i.opcode.role = .write)
    (hstatements : step.statements = kept i (base + i.offset) outs [.var r, .var v]) :
    Advances I l b base body rows s t := by
  refine advances_kept hi hst hrow hstatements ?_
  unfold Bytecode.perform
  simp only [hrole]
  rfl

/-- All others that are carried along untranslated read what they take, in order. -/
theorem advances_external (hi : body[s.next]? = some i) (hst : InStep l rows b.localCount s t)
    (hrow : RowAt l frame b base rows s.next i step rest ins outs)
    (hrole : i.opcode.role = .external)
    (hstatements : step.statements = kept i (base + i.offset) outs (ins.map .var)) :
    Advances I l b base body rows s t := by
  refine advances_kept hi hst hrow hstatements ?_
  rw [evals_vars]
  unfold Bytecode.perform
  simp only [hrole]
  rfl

/-! ## Every instruction -/

/-- Behind the last instruction both the function and its routine have come to their end. -/
theorem advances_ended (h : Translation l frame b data start base body rows)
    (hst : InStep l rows b.localCount s t) (hi : body[s.next]? = none) :
    Advances I l b base body rows s t := by
  have hend : l.steps.size ≤ s.next := by
    rw [h.length_steps]
    exact List.getElem?_eq_none_iff.mp hi
  have hstep : Bytecode.step I b base body s = .ended := by rw [Bytecode.step, hi]
  have hform : Form.step I l t = .ended := by
    rw [Form.step, hst.position, Lifted.position_of_le hend,
      List.getElem?_eq_none (Nat.le_refl _)]
  exact advances_of_step hstep hform trivial

/-- Every instruction keeps a function in step with the routine that it was lifted to. -/
theorem advances (h : Translation l frame b data start base body rows) (hflat : FlatBranches body)
    (hst : InStep l rows b.localCount s t) : Advances I l b base body rows s t := by
  cases hi : body[s.next]? with
  | none => exact advances_ended h hst hi
  | some i =>
    obtain ⟨step, rest, ins, outs, hrow⟩ := h.exists_row hi
    have htable := hrow.table
    -- One lemma for each row of the table of lowerings.
    generalize hstatements : step.statements = statements at htable
    cases htable with
    | drop hrole => exact advances_drop hi hst hrow hrole hstatements
    | leave hrole => exact advances_leave hi hst hrow hrole hstatements
    | jump hrole => exact advances_jump h hflat hi hst hrow hrole hstatements
    | branch hrole => exact advances_branch h hflat hi hst hrow hrole hstatements
    | literal hrole hn he => exact advances_literal h hi hst hrow hrole hn he hstatements
    | copy hrole hx => exact advances_copy h hi hst hrow hrole hx hstatements
    | move hrole hx => exact advances_move h hi hst hrow hrole hx hstatements
    | store hrole hx => exact advances_store h hi hst hrow hrole hx hstatements
    | negate hrole => exact advances_negate hi hst hrow hrole hstatements
    | combine hrole => exact advances_combine hi hst hrow hrole hstatements
    | call hrole => exact advances_call hi hst hrow hrole hstatements
    | borrowLocal hrole hx => exact advances_borrowLocal h hi hst hrow hrole hx hstatements
    | borrowField hrole hn => exact advances_borrowField h hi hst hrow hrole hn hstatements
    | write hrole => exact advances_write hi hst hrow hrole hstatements
    | external hrole => exact advances_external hi hst hrow hrole hstatements

/-- The routine simulates the function; it rests at most once for each instruction of the listing. -/
theorem simulates (I : Interpretation V) (h : Translation l frame b data start base body rows)
    (hflat : FlatBranches body) :
    Simulates (InStep l rows b.localCount) (Bytecode.step I b base body) (Form.step I l) (·.next)
      body.length where
  rank_lt s t hst s' hs' := by
    rcases Nat.lt_or_ge s.next body.length with hlt | hge
    · exact hlt
    · rw [Bytecode.step, List.getElem?_eq_none hge] at hs'
      simp at hs'
  advance s t hst := advances h hflat hst

end

end MoveBytecode
