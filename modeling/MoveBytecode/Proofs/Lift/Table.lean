import MoveBytecode.Proofs.Lift.Lowering
import MoveBytecode.Proofs.Machine.Bytecode

/-!
# What instructions are lowered to

`Lowered` is the table of the statements of an instruction, over the variables of the values that it
takes and of those that it puts. `lower_spec` says that a lowering that ends without a fault follows the
table, exchanges exactly these variables on the symbolic stack, and takes and puts as many as the listing
says.
-/

namespace MoveBytecode.Lift

/-- An instruction names the local whose variable is `v`. -/
def NamesLocal (f : Frame) (i : Instruction) (v : Var) : Prop :=
  ∃ index, i.operandValue = .ok index ∧ f.locals[index]? = some v

/-- How wide a constant is: addresses have 256 bits, all others have 64. -/
def literalBits (opcode : Opcode) : Nat := if opcode = .ldAddr then 256 else 64

/-- Texts and byte arrays are loaded by where they are mapped. -/
def Mapped (opcode : Opcode) : Prop := opcode = .ldStr ∨ opcode = .ldBytearray

/-- A value that stands for the constant `n` of an instruction: a number, or the symbol at an address.
A text or a byte array without a symbol is an empty one. -/
def Denotes (i : Instruction) (n : Int) (e : Expr) : Prop :=
  (e = Ir.constant n (literalBits i.opcode) ∧ (Mapped i.opcode → n = 0)) ∨
    ∃ ref : SymbolRef, ref.address = n ∧ e = .symbol ref

/-- The statements of the instruction `i` at an address, where `ins` are the variables of the values
that it takes and `outs` those of the values that it puts, the lowest position first. -/
inductive Lowered (f : Frame) (i : Instruction) (address : Int) :
    (ins outs : List Var) → List Stmt → Prop
  | drop {v : Var} (h : i.opcode.role = .drop) : Lowered f i address [v] [] []
  | leave {ins : List Var} (h : i.opcode.role = .leave) :
    Lowered f i address ins [] [.ret (ins.map .var)]
  | jump (h : i.opcode.role = .jump) :
    Lowered f i address [] []
      [.branch programCounter (Ir.constant (address + i.jump) 64) false]
  | branch {v : Var} {truth : Bool} (h : i.opcode.role = .branch truth) :
    Lowered f i address [v] []
      [.branch programCounter
        (Ir.cond (if truth then .var v else .operation .logicalNot [.var v] 1)
          (Ir.constant (address + i.jump) 64) (Ir.constant (address + i.size) 64)) false]
  | literal {n : Int} {e : Expr} {w : Var} (h : i.opcode.role = .literal)
    (hn : f.owner.literal i = .ok n) (he : Denotes i n e) :
    Lowered f i address [] [w] [.assign w e]
  | copy {x w : Var} (h : i.opcode.role = .copy) (hx : NamesLocal f i x) :
    Lowered f i address [] [w] [.assign w (.var x)]
  | move {x w : Var} (h : i.opcode.role = .move) (hx : NamesLocal f i x) :
    Lowered f i address [] [w] [.assign w (.var x), .assign x (.imm 0 x.bits)]
  | store {v x : Var} (h : i.opcode.role = .store) (hx : NamesLocal f i x) :
    Lowered f i address [v] [] [.assign x (.var v)]
  | negate {v w : Var} (h : i.opcode.role = .negate) :
    Lowered f i address [v] [w]
      [.assign w (.operation .zeroExtend [.operation .logicalNot [.var v] 1] 64)]
  | combine {op : Operator} {left right w : Var} {bits : Int} (h : i.opcode.role = .combine op) :
    Lowered f i address [left, right] [w]
      [.assign w (.operation .zeroExtend [.operation op [.var left, .var right] bits] 64)]
  | call {target : SymbolRef} {ins outs : List Var} (h : i.opcode.role = .external) :
    Lowered f i address ins outs [.call target outs (ins.map .var)]
  | borrowLocal {x : Var} {outs : List Var} (h : i.opcode.role = .borrowLocal)
    (hx : NamesLocal f i x) : Lowered f i address [] outs (kept i address outs [.var x])
  | borrowField {v : Var} {ref : SymbolRef} {outs : List Var} (h : i.opcode.role = .borrowField)
    (hn : f.owner.fieldPointer i = .ok ref.address) :
    Lowered f i address [v] outs (kept i address outs [.var v, .symbol ref])
  | write {v r : Var} {outs : List Var} (h : i.opcode.role = .write) :
    Lowered f i address [v, r] outs (kept i address outs [.var r, .var v])
  | external {ins outs : List Var} (h : i.opcode.role = .external) :
    Lowered f i address ins outs (kept i address outs (ins.map .var))

/-- A function is lifted in the module and with the signature that its body was read with. -/
structure Agrees (f : Frame) (b : Body.Frame) : Prop where
  owner : b.owner = f.owner
  signature : ∀ h s, f.owner.handleOf f.function.record = .ok h →
    f.owner.signatureOf h.record = .ok s → b.signature = s

/-- An instruction takes and puts these numbers of values, as the listing of the function says. -/
def Balanced (f : Frame) (i : Instruction) (pops pushes : Nat) : Prop :=
  ∀ b, Agrees f b → Body.stackEffect b i = .ok (pops, pushes)

/-- From `s` to `s'` an instruction was lowered to some statements by the table. -/
def LoweredTo (f : Frame) (i : Instruction) (address : Int) (s : State) (statements : List Stmt)
    (s' : State) : Prop :=
  ∃ rest ins outs, s.stack.vars = rest ++ ins ∧ s'.stack.vars = rest ++ outs ∧
    Lowered f i address ins outs statements ∧ Balanced f i ins.length outs.length

/-! ## Parts of lowerings -/

variable {f : Frame} {i : Instruction} {address : Int} {s s' : State}

/-- A result that is taken over ends with its value, in the same state. -/
@[simp] theorem runs_ofExcept {σ α : Type} {r : Except Fault α} {a : α} {s s' : σ} :
    Runs (ofExcept r : ExceptT Fault (StateM σ) α) s a s' ↔ r = .ok a ∧ s = s' := by
  cases r with
  | ok b => simp [ofExcept]
  | error e => simp [ofExcept]

/-- A result that is no fault is gone on with. -/
theorem ends_bind_ofExcept {σ α β : Type} {r : Except Fault α} {a : α}
    {f : α → ExceptT Fault (StateM σ) β} {s : σ} {Q : β → σ → Prop} (hr : r = .ok a)
    (hf : Ends (f a) s Q) : Ends (ofExcept r >>= f) s Q :=
  ends_bind_of_runs (runs_ofExcept.mpr ⟨hr, rfl⟩) hf

/-- Reading an operand ends with it, in the same state. -/
@[simp] theorem runs_operand {n : Nat} :
    Runs (operand i) s n s' ↔ i.operandValue = .ok n ∧ s = s' := runs_ofExcept

/-- Looking up a local ends with the variable that the instruction names, in the same state. -/
theorem runs_localVar {v : Var} : Runs (localVar f i) s v s' ↔ NamesLocal f i v ∧ s = s' := by
  simp only [localVar, runs_bind, runs_operand, NamesLocal]
  constructor
  · rintro ⟨index, _, ⟨hindex, rfl⟩, h⟩
    split at h
    · rename_i w hw
      obtain ⟨rfl, rfl⟩ := runs_pure.mp h
      exact ⟨⟨index, hindex, hw⟩, rfl⟩
    · exact absurd h not_runs_throw
  · rintro ⟨⟨index, hindex, hv⟩, rfl⟩
    refine ⟨index, _, ⟨hindex, rfl⟩, ?_⟩
    simp [hv]

/-- Looking up the type of a local leaves the state as it is. -/
theorem eq_of_runs_localType {token : Token} (h : Runs (localType f i) s token s') : s = s' := by
  obtain ⟨index, _, hindex, h⟩ := runs_bind.mp h
  obtain ⟨-, rfl⟩ := runs_operand.mp hindex
  split at h
  · exact (runs_pure.mp h).2
  · exact absurd h not_runs_throw

/-- Looking up a struct ends with the one that the instruction names, in the same state. -/
theorem runs_structOf {d : StructDef} (h : Runs (structOf f i) s d s') :
    (∃ index e, i.operandValue = .ok index ∧ f.owner.structDefs.get (index : Nat) = .ok e ∧
      e.record = d) ∧ s = s' := by
  simp only [structOf, runs_bind, runs_operand, runs_ofExcept, runs_pure] at h
  obtain ⟨index, _, ⟨hindex, rfl⟩, e, _, ⟨he, rfl⟩, rfl, rfl⟩ := h
  exact ⟨⟨index, e, hindex, he, rfl⟩, rfl⟩

/-- Looking up a symbol ends with a reference to the address, in the same state. -/
theorem runs_dataSymbol {address : Int} {ref : SymbolRef}
    (h : Runs (dataSymbol address) s ref s') : ref.address = address ∧ s = s' := by
  obtain ⟨_, _, hget, h⟩ := runs_bind.mp h
  obtain ⟨rfl, rfl⟩ := runs_get.mp hget
  split at h
  · rename_i symbol hsymbol
    obtain ⟨rfl, rfl⟩ := runs_pure.mp h
    unfold Host.symbolAt? at hsymbol
    exact ⟨by simpa using Array.find?_some hsymbol, rfl⟩
  · exact absurd h not_runs_throw

/-- An assignment that is made assigns the source to the target. -/
theorem assign_eq_ok {target : Var} {source : Expr} {statement : Stmt}
    (h : Ir.assign target source = .ok statement) : statement = .assign target source := by
  obtain ⟨_, -, h⟩ := bind_eq_ok.mp h
  exact (pure_eq_ok.mp h).symm

/-- An operation that is made has the operator and the operands, and is one bit wide if it is about
truth. -/
theorem operation_eq_ok {op : Operator} {operands : List Expr} {e : Expr}
    (h : Ir.operation op operands = .ok e) :
    ∃ bits, e = .operation op operands bits ∧ (op.isBoolean = true → bits = 1) := by
  unfold Ir.operation at h
  split at h
  · obtain rfl := Except.ok.inj h
    exact ⟨1, rfl, fun _ => rfl⟩
  · rename_i hop
    split at h
    · obtain rfl := Except.ok.inj h
      exact ⟨_, rfl, fun hb => absurd hb hop⟩
    · simp at h

/-- An extension that is made extends the value to the width. -/
theorem zeroExtend_eq_ok {e e' : Expr} {bits : Int} (h : Ir.zeroExtend e bits = .ok e') :
    e' = .operation .zeroExtend [e] bits := by
  unfold Ir.zeroExtend at h
  split at h
  · simp at h
  · exact (Except.ok.inj h).symm

/-- A token that is pushed with a source puts one variable, which the source is assigned to. -/
theorem runs_pushAssign {token : Token} {source : Expr} {statements : List Stmt}
    (hs : s.WellFormed) (h : Runs (pushAssign f token source) s statements s') :
    ∃ w, s'.stack.vars = s.stack.vars ++ [w] ∧ statements = [.assign w source] := by
  simp only [pushAssign, runs_bind, runs_ofExcept, runs_pure] at h
  obtain ⟨w, t, hw, statement, _, ⟨hassign, rfl⟩, rfl, rfl⟩ := h
  exact ⟨w, vars_of_push hs hw, by rw [assign_eq_ok hassign]⟩

/-- An opcode whose numbers of values are fixed takes and puts these. -/
theorem balanced_of_count {pops pushes : Nat} (hpops : i.opcode.pops.count? = some pops)
    (hpushes : i.opcode.pushes.count? = some pushes) : Balanced f i pops pushes := by
  -- The other four opcodes have no number of values of their own.
  have varies : ∀ opcode : Opcode, opcode = .ret ∨ opcode = .pack ∨ opcode = .unpack ∨ opcode = .call →
      opcode.pops.count? = none ∨ opcode.pushes.count? = none := by
    rintro _ (rfl | rfl | rfl | rfl) <;> decide
  have hother := mt (varies i.opcode) (by simp [hpops, hpushes])
  simp only [not_or] at hother
  intro b _
  unfold Body.stackEffect
  split
  · exact absurd ‹_› hother.1
  · exact absurd ‹_› hother.2.1
  · exact absurd ‹_› hother.2.2.1
  · exact absurd ‹_› hother.2.2.2
  · rw [hpops, hpushes]
    rfl

/-- A return takes as many values as the signature of the function says. -/
theorem balanced_ret (hop : i.opcode = .ret) {e : Entry FunctionHandle} {signature : FunctionSignature}
    (he : f.owner.handleOf f.function.record = .ok e)
    (hsignature : f.owner.signatureOf e.record = .ok signature) :
    Balanced f i signature.returns.length 0 := by
  intro b hframe
  rw [← hframe.signature e signature he hsignature]
  simp only [Body.stackEffect, hop]
  rfl

/-- A call takes and puts as many values as the signature of the callee says. -/
theorem balanced_call (hop : i.opcode = .call) {index : Nat} {e : Entry FunctionHandle}
    {signature : FunctionSignature} (hindex : i.operandValue = .ok index)
    (he : f.owner.functionHandles.get index = .ok e)
    (hsignature : f.owner.signatureOf e.record = .ok signature) :
    Balanced f i signature.params.length signature.returns.length := by
  rintro b ⟨howner, -⟩
  simp only [Body.stackEffect, hop, hindex, howner]
  exact bind_eq_ok.mpr ⟨index, rfl, bind_eq_ok.mpr ⟨e, he, bind_eq_ok.mpr ⟨_, hsignature, rfl⟩⟩⟩

section

variable {index : Nat} {e : Entry StructDef} (hindex : i.operandValue = .ok index)
  (he : f.owner.structDefs.get index = .ok e)

include hindex he

/-- Making a struct takes as many values as it has fields. -/
theorem balanced_pack (hop : i.opcode = .pack) : Balanced f i e.record.fieldCount 1 := by
  rintro b ⟨howner, -⟩
  simp only [Body.stackEffect, hop, hindex, howner]
  exact bind_eq_ok.mpr ⟨index, rfl, bind_eq_ok.mpr ⟨e, he, rfl⟩⟩

/-- Taking a struct apart puts as many values as it has fields. -/
theorem balanced_unpack (hop : i.opcode = .unpack) : Balanced f i 1 e.record.fieldCount := by
  rintro b ⟨howner, -⟩
  simp only [Body.stackEffect, hop, hindex, howner]
  exact bind_eq_ok.mpr ⟨index, rfl, bind_eq_ok.mpr ⟨e, he, rfl⟩⟩

end

/-! ## Lowerings -/

variable {statements : List Stmt}

/-- What denotes the literal of an instruction is assigned to the variable that is put. -/
theorem loweredTo_pushAssign {token : Token} {n : Int} {e : Expr} (hs : s.WellFormed)
    (hrole : i.opcode.role = .literal) (hn : f.owner.literal i = .ok n) (he : Denotes i n e)
    (hb : Balanced f i 0 1) (h : Runs (pushAssign f token e) s statements s') :
    LoweredTo f i address s statements s' := by
  obtain ⟨w, hvars, rfl⟩ := runs_pushAssign hs h
  exact ⟨s.stack.vars, [], [w], (List.append_nil _).symm, hvars, .literal hrole hn he, hb⟩

/-- A literal is put as a constant of its width. -/
theorem loweredTo_constant {token : Token} {n : Int} {bits : Nat} (hs : s.WellFormed)
    (hrole : i.opcode.role = .literal) (hbits : literalBits i.opcode = bits)
    (hmapped : Mapped i.opcode → n = 0) (hn : f.owner.literal i = .ok n) (hb : Balanced f i 0 1)
    (h : Runs (pushAssign f token (Ir.constant n bits)) s statements s') :
    LoweredTo f i address s statements s' :=
  loweredTo_pushAssign hs hrole hn (.inl ⟨by rw [hbits], hmapped⟩) hb h

/-- A constant in the file is put as its address, or as the number 0 if it takes up no addresses. -/
theorem loweredTo_lowerConstant {token : Token} {mapping : Extent} (hs : s.WellFormed)
    (hrole : i.opcode.role = .literal) (hbits : literalBits i.opcode = 64)
    (hn : f.owner.literal i = .ok mapping.pointer) (hb : Balanced f i 0 1)
    (h : Runs (lowerConstant f token mapping) s statements s') :
    LoweredTo f i address s statements s' := by
  unfold lowerConstant at h
  split at h
  · rename_i hsize
    have hpointer : mapping.pointer = 0 := by rw [Extent.pointer, if_pos hsize]
    rw [hpointer] at hn
    exact loweredTo_constant hs hrole hbits (fun _ => rfl) hn hb h
  · rename_i hsize
    obtain ⟨ref, t, href, h⟩ := runs_bind.mp h
    obtain ⟨haddress, rfl⟩ := runs_dataSymbol href
    refine loweredTo_pushAssign hs hrole hn (.inr ⟨ref, ?_, rfl⟩) hb h
    rw [haddress, Extent.pointer, if_neg hsize]

/-- A copy of a local follows the table. -/
theorem loweredTo_lowerCopy (hs : s.WellFormed) (hrole : i.opcode.role = .copy)
    (hb : Balanced f i 0 1) (h : Runs (lowerCopy f i) s statements s') :
    LoweredTo f i address s statements s' := by
  obtain ⟨token, t, htoken, h⟩ := runs_bind.mp h
  obtain rfl := eq_of_runs_localType htoken
  obtain ⟨x, t, hlocal, h⟩ := runs_bind.mp h
  obtain ⟨hx, rfl⟩ := runs_localVar.mp hlocal
  obtain ⟨w, hvars, rfl⟩ := runs_pushAssign hs h
  exact ⟨s.stack.vars, [], [w], (List.append_nil _).symm, hvars, .copy hrole hx, hb⟩

/-- A move of a local follows the table: the local is read and then cleared. -/
theorem loweredTo_lowerMove (hs : s.WellFormed) (hrole : i.opcode.role = .move)
    (hb : Balanced f i 0 1) (h : Runs (lowerMove f i) s statements s') :
    LoweredTo f i address s statements s' := by
  obtain ⟨x, t, hlocal, h⟩ := runs_bind.mp h
  obtain ⟨hx, rfl⟩ := runs_localVar.mp hlocal
  obtain ⟨token, t, htoken, h⟩ := runs_bind.mp h
  obtain rfl := eq_of_runs_localType htoken
  simp only [runs_bind, runs_ofExcept, runs_pure] at h
  obtain ⟨loaded, t, hloaded, cleared, _, ⟨hcleared, rfl⟩, rfl, rfl⟩ := h
  obtain ⟨w, hvars, rfl⟩ := runs_pushAssign hs hloaded
  obtain rfl := assign_eq_ok hcleared
  exact ⟨s.stack.vars, [], [w], (List.append_nil _).symm, hvars, .move hrole hx, hb⟩

/-- A store follows the table. -/
theorem loweredTo_lowerStore (hs : s.WellFormed) (hrole : i.opcode.role = .store)
    (hb : Balanced f i 1 0) (h : Runs (lowerStore f i) s statements s') :
    LoweredTo f i address s statements s' := by
  obtain ⟨x, t, hlocal, h⟩ := runs_bind.mp h
  obtain ⟨hx, rfl⟩ := runs_localVar.mp hlocal
  simp only [runs_bind, runs_ofExcept, runs_pure] at h
  obtain ⟨v, t, hv, statement, _, ⟨hstatement, rfl⟩, rfl, rfl⟩ := h
  obtain rfl := assign_eq_ok hstatement
  exact ⟨t.stack.vars, [v], [], vars_of_pop hs hv, (List.append_nil _).symm, .store hrole hx, hb⟩

/-- A conditional branch follows the table, with the negated value if it is taken on falsehood. -/
theorem loweredTo_lowerBranch {truth : Bool} (hs : s.WellFormed)
    (hrole : i.opcode.role = .branch truth) (htruth : i.opcode = .brFalse ↔ truth = false)
    (hb : Balanced f i 1 0) (h : Runs (lowerBranch i address) s statements s') :
    LoweredTo f i address s statements s' := by
  obtain ⟨v, t, hv, h⟩ := runs_bind.mp h
  refine ⟨t.stack.vars, [v], [], vars_of_pop hs hv, ?_⟩
  cases truth with
  | false =>
    rw [if_pos (htruth.mpr rfl)] at h
    simp only [runs_bind, runs_ofExcept, runs_pure] at h
    obtain ⟨condition, _, ⟨hcondition, rfl⟩, rfl, rfl⟩ := h
    obtain ⟨bits, rfl, hbits⟩ := operation_eq_ok hcondition
    obtain rfl := hbits rfl
    exact ⟨(List.append_nil _).symm, .branch hrole, hb⟩
  | true =>
    rw [if_neg (by simp [htruth])] at h
    simp only [runs_bind, runs_pure] at h
    obtain ⟨_, _, ⟨rfl, rfl⟩, rfl, rfl⟩ := h
    exact ⟨(List.append_nil _).symm, .branch hrole, hb⟩

/-- A return follows the table: it takes the values that the function returns. -/
theorem loweredTo_lowerReturn (hs : s.WellFormed) (hop : i.opcode = .ret)
    (h : Runs (lowerReturn f) s statements s') : LoweredTo f i address s statements s' := by
  simp only [lowerReturn, runs_bind, runs_ofExcept, runs_pure] at h
  obtain ⟨e, _, ⟨he, rfl⟩, signature, _, ⟨hsignature, rfl⟩, vs, t, hvs, rfl, rfl⟩ := h
  obtain ⟨hlength, hvars⟩ := vars_of_popMany hs hvs
  refine ⟨t.stack.vars, vs, [], hvars, (List.append_nil _).symm, .leave (by rw [hop]; rfl), ?_⟩
  rw [hlength]
  exact balanced_ret hop he hsignature

/-- A callee is the internal routine at the address of a handle, or the first routine of its name if
there is none. -/
theorem runs_callee {e : Entry FunctionHandle} {number : Nat}
    (h : Runs (callee f e address) s number s') :
    s = s' ∧ ∃ name, f.owner.functionName e.record = .ok name ∧
      (s.host.routineAt? e.mapping.start true).or (s.host.routineNamed? name) = some number := by
  simp only [callee, runs_bind, runs_ofExcept, runs_get] at h
  obtain ⟨name, _, ⟨hname, rfl⟩, _, _, ⟨rfl, rfl⟩, h⟩ := h
  split at h
  · rename_i hat
    obtain ⟨rfl, rfl⟩ := runs_pure.mp h
    exact ⟨rfl, name, hname, by rw [hat]; rfl⟩
  · rename_i hat
    split at h
    · rename_i hnamed
      obtain ⟨rfl, rfl⟩ := runs_pure.mp h
      exact ⟨rfl, name, hname, by rw [hat, hnamed]; rfl⟩
    · exact absurd h not_runs_throw

/-- A call provides its callee with a prototype, takes the values of its parameters, and then puts those
that it returns. -/
theorem stages_lowerCall (h : Runs (lowerCall f i address) s statements s') :
    ∃ k e name number signature t params u returns r, i.operandValue = .ok k ∧
      f.owner.functionHandles.get k = .ok e ∧ f.owner.functionName e.record = .ok name ∧
      (s.host.routineAt? e.mapping.start true).or (s.host.routineNamed? name) = some number ∧
      f.owner.signatureOf e.record = .ok signature ∧
      Runs (onHost (ensurePrototype f.owner number signature)) s () t ∧
      Runs (popMany signature.params.length) t params u ∧
      Runs (signature.returns.mapM (push f)) u returns s' ∧ s'.host.routine? number = some r ∧
      statements = [.call { name := r.name, address := r.address } returns (params.map .var)] := by
  simp only [lowerCall, runs_bind, runs_operand, runs_ofExcept, runs_get] at h
  obtain ⟨k, _, ⟨hk, rfl⟩, e, _, ⟨he, rfl⟩, number, _, hcallee, signature, _, ⟨hsignature, rfl⟩, _, t,
    hprototype, params, u, hparams, returns, _, hreturns, _, _, ⟨rfl, rfl⟩, h⟩ := h
  obtain ⟨rfl, name, hname, hnumber⟩ := runs_callee hcallee
  split at h
  · rename_i r hr
    obtain ⟨rfl, rfl⟩ := runs_pure.mp h
    exact ⟨k, e, name, number, signature, t, params, u, returns, r, hk, he, hname, hnumber, hsignature,
      hprototype, hparams, hreturns, hr, rfl⟩
  · exact absurd h not_runs_throw

/-- A call follows the table: it takes its parameters and puts what it returns. -/
theorem loweredTo_lowerCall (hs : s.WellFormed) (hop : i.opcode = .call)
    (h : Runs (lowerCall f i address) s statements s') : LoweredTo f i address s statements s' := by
  obtain ⟨index, e, name, number, signature, t, params, u, returns, r, hindex, he, -, -, hsignature,
    hprototype, hparams, hreturns, -, rfl⟩ := stages_lowerCall h
  -- Giving the callee a prototype changes the host and leaves the stack alone.
  obtain ⟨hstack, hcounter⟩ := still_onHost _ _ _ _ hprototype
  obtain ⟨ht, -⟩ := hs.congr hstack (by omega)
  obtain ⟨hu, -⟩ := (orderly_popMany _).keeps _ _ _ hparams ht
  obtain ⟨hplength, hpvars⟩ := vars_of_popMany ht hparams
  obtain ⟨hrlength, hrvars⟩ := vars_of_mapM (orderly_push f) (fun _ _ _ _ => vars_of_push) hu hreturns
  refine ⟨u.stack.vars, params, returns, by rw [← hpvars, hstack], hrvars, .call (by rw [hop]; rfl), ?_⟩
  rw [hplength, hrlength]
  exact balanced_call hop hindex he hsignature

/-- A negation follows the table. -/
theorem loweredTo_lowerNot (hs : s.WellFormed) (hrole : i.opcode.role = .negate)
    (hb : Balanced f i 1 1) (h : Runs (lowerNot f) s statements s') :
    LoweredTo f i address s statements s' := by
  simp only [lowerNot, runs_bind, runs_ofExcept] at h
  obtain ⟨v, t, hv, negated, _, ⟨hnegated, rfl⟩, extended, _, ⟨hextended, rfl⟩, h⟩ := h
  obtain ⟨bits, rfl, hbits⟩ := operation_eq_ok hnegated
  obtain rfl := hbits rfl
  obtain rfl := zeroExtend_eq_ok hextended
  obtain ⟨w, hvars, rfl⟩ := runs_pushAssign (orderly_pop.keeps _ _ _ hv hs).1 h
  exact ⟨t.stack.vars, [v], [w], vars_of_pop hs hv, hvars, .negate hrole, hb⟩

/-- An operation of two values follows the table. -/
theorem loweredTo_lowerBinary {op : Operator} (hs : s.WellFormed)
    (hrole : i.opcode.role = .combine op) (hb : Balanced f i 2 1)
    (h : Runs (lowerBinary f op) s statements s') : LoweredTo f i address s statements s' := by
  simp only [lowerBinary, runs_bind, runs_ofExcept] at h
  obtain ⟨right, t, hright, left, u, hleft, result, _, ⟨hresult, rfl⟩, extended, _,
    ⟨hextended, rfl⟩, h⟩ := h
  obtain ⟨bits, rfl, -⟩ := operation_eq_ok hresult
  obtain rfl := zeroExtend_eq_ok hextended
  obtain ⟨ht, -⟩ := orderly_pop.keeps _ _ _ hright hs
  obtain ⟨hu, -⟩ := orderly_pop.keeps _ _ _ hleft ht
  obtain ⟨w, hvars, rfl⟩ := runs_pushAssign hu h
  -- The right operand is on top, so it was popped first.
  refine ⟨u.stack.vars, [left, right], [w], ?_, hvars, .combine hrole, hb⟩
  rw [vars_of_pop hs hright, vars_of_pop ht hleft, List.append_assoc]
  rfl

/-- Borrowing a local follows the table. -/
theorem loweredTo_lowerBorrowLocal (hs : s.WellFormed) (hrole : i.opcode.role = .borrowLocal)
    (hb : Balanced f i 0 1) (h : Runs (lowerBorrowLocal f i address) s statements s') :
    LoweredTo f i address s statements s' := by
  obtain ⟨x, t, hlocal, h⟩ := runs_bind.mp h
  obtain ⟨hx, rfl⟩ := runs_localVar.mp hlocal
  obtain ⟨token, t, htoken, h⟩ := runs_bind.mp h
  obtain rfl := eq_of_runs_localType htoken
  obtain ⟨w, t, hw, h⟩ := runs_bind.mp h
  obtain ⟨rfl, rfl⟩ := runs_pure.mp h
  exact ⟨s.stack.vars, [], [w], (List.append_nil _).symm, vars_of_push hs hw,
    .borrowLocal hrole hx, hb⟩

/-- Borrowing a field follows the table: the statement names the symbol of the field's name. -/
theorem loweredTo_lowerBorrowField (hs : s.WellFormed) (hop : i.opcode = .ldRefField)
    (hb : Balanced f i 1 1) (h : Runs (lowerBorrowField f i address) s statements s') :
    LoweredTo f i address s statements s' := by
  simp only [lowerBorrowField, runs_bind, runs_operand, runs_ofExcept, runs_pure] at h
  obtain ⟨index, _, ⟨hindex, rfl⟩, field, _, ⟨hfield, rfl⟩, v, t, hv, name, _, ⟨hname, rfl⟩,
    symbol, _, hsymbol, token, _, ⟨-, rfl⟩, w, u, hw, rfl, rfl⟩ := h
  obtain ⟨haddress, rfl⟩ := runs_dataSymbol hsymbol
  obtain ⟨ht, -⟩ := orderly_pop.keeps _ _ _ hv hs
  refine ⟨t.stack.vars, [v], [w], vars_of_pop hs hv, vars_of_push ht hw,
    .borrowField (by rw [hop]; rfl) ?_, hb⟩
  rw [haddress]
  exact bind_eq_ok.mpr ⟨index, hindex, bind_eq_ok.mpr ⟨field, hfield,
    bind_eq_ok.mpr ⟨name, hname, rfl⟩⟩⟩

/-- A value is taken and another one put, which the instruction yields of its own. -/
theorem loweredTo_kept {t : State} {v w : Var} (hs : s.WellFormed)
    (hrole : i.opcode.role = .external) (hb : Balanced f i 1 1) (hv : Runs pop s v t)
    (hw : s'.stack.vars = t.stack.vars ++ [w]) :
    LoweredTo f i address s (kept i address [w] [.var v]) s' :=
  ⟨t.stack.vars, [v], [w], vars_of_pop hs hv, hw, .external hrole, hb⟩

/-- A freeze follows the table. -/
theorem loweredTo_lowerFreeze (hs : s.WellFormed) (hrole : i.opcode.role = .external)
    (hb : Balanced f i 1 1) (h : Runs (lowerFreeze i address) s statements s') :
    LoweredTo f i address s statements s' := by
  simp only [lowerFreeze, runs_bind, runs_get, runs_pure] at h
  obtain ⟨v, t, hv, _, _, ⟨rfl, rfl⟩, w, u, hw, rfl, rfl⟩ := h
  exact loweredTo_kept hs hrole hb hv (vars_of_pushNative (orderly_pop.keeps _ _ _ hv hs).1 hw)

/-- A read follows the table, whether or not the type behind the reference is known. -/
theorem loweredTo_lowerRead (hs : s.WellFormed) (hrole : i.opcode.role = .external)
    (hb : Balanced f i 1 1) (h : Runs (lowerRead f i address) s statements s') :
    LoweredTo f i address s statements s' := by
  simp only [lowerRead, runs_bind, runs_get] at h
  obtain ⟨v, t, hv, _, _, ⟨rfl, rfl⟩, h⟩ := h
  obtain ⟨ht, -⟩ := orderly_pop.keeps _ _ _ hv hs
  split at h
  · obtain ⟨w, u, hw, h⟩ := runs_bind.mp h
    obtain ⟨rfl, rfl⟩ := runs_pure.mp h
    exact loweredTo_kept hs hrole hb hv (vars_of_pushNative ht hw)
  · obtain ⟨w, u, hw, h⟩ := runs_bind.mp h
    obtain ⟨rfl, rfl⟩ := runs_pure.mp h
    exact loweredTo_kept hs hrole hb hv (vars_of_push ht hw)

/-- Borrowing from an account follows the table. -/
theorem loweredTo_lowerBorrowGlobal (hs : s.WellFormed) (hrole : i.opcode.role = .external)
    (hb : Balanced f i 1 1) (h : Runs (lowerBorrowGlobal f i address) s statements s') :
    LoweredTo f i address s statements s' := by
  simp only [lowerBorrowGlobal, runs_bind, runs_pure] at h
  obtain ⟨d, t, hd, v, t', hv, w, u, hw, rfl, rfl⟩ := h
  obtain ⟨-, rfl⟩ := runs_structOf hd
  exact loweredTo_kept hs hrole hb hv (vars_of_push (orderly_pop.keeps _ _ _ hv hs).1 hw)

/-- A move from an account follows the table. -/
theorem loweredTo_lowerMoveFrom (hs : s.WellFormed) (hrole : i.opcode.role = .external)
    (hb : Balanced f i 1 1) (h : Runs (lowerMoveFrom f i address) s statements s') :
    LoweredTo f i address s statements s' := by
  simp only [lowerMoveFrom, runs_bind, runs_pure] at h
  obtain ⟨d, t, hd, v, t', hv, w, u, hw, rfl, rfl⟩ := h
  obtain ⟨-, rfl⟩ := runs_structOf hd
  exact loweredTo_kept hs hrole hb hv (vars_of_push (orderly_pop.keeps _ _ _ hv hs).1 hw)

/-- A write follows the table: the reference is taken first. -/
theorem loweredTo_lowerWrite (hs : s.WellFormed) (hrole : i.opcode.role = .write)
    (hb : Balanced f i 2 0) (h : Runs (lowerWrite i address) s statements s') :
    LoweredTo f i address s statements s' := by
  simp only [lowerWrite, runs_bind, runs_pure] at h
  obtain ⟨r, t, hr, v, u, hv, rfl, rfl⟩ := h
  obtain ⟨ht, -⟩ := orderly_pop.keeps _ _ _ hr hs
  refine ⟨u.stack.vars, [v, r], [], ?_, (List.append_nil _).symm, .write hrole, hb⟩
  rw [vars_of_pop hs hr, vars_of_pop ht hv, List.append_assoc]
  rfl

/-- A move to an account follows the table. -/
theorem loweredTo_lowerMoveTo (hs : s.WellFormed) (hrole : i.opcode.role = .external)
    (hb : Balanced f i 1 0) (h : Runs (lowerMoveTo i address) s statements s') :
    LoweredTo f i address s statements s' := by
  simp only [lowerMoveTo, runs_bind, runs_pure] at h
  obtain ⟨v, t, hv, rfl, rfl⟩ := h
  exact ⟨t.stack.vars, [v], [], vars_of_pop hs hv, (List.append_nil _).symm, .external hrole, hb⟩

/-- Making a struct follows the table: it takes as many values as there are fields. -/
theorem loweredTo_lowerPack (hs : s.WellFormed) (hop : i.opcode = .pack)
    (h : Runs (lowerPack f i address) s statements s') : LoweredTo f i address s statements s' := by
  simp only [lowerPack, runs_bind, runs_pure] at h
  obtain ⟨d, t, hd, fields, t', hfields, w, u, hw, rfl, rfl⟩ := h
  obtain ⟨⟨index, e, hindex, he, rfl⟩, rfl⟩ := runs_structOf hd
  obtain ⟨hlength, hvars⟩ := vars_of_popMany hs hfields
  obtain ⟨ht', -⟩ := (orderly_popMany _).keeps _ _ _ hfields hs
  refine ⟨t'.stack.vars, fields, [w], hvars, vars_of_push ht' hw, .external (by rw [hop]; rfl), ?_⟩
  rw [hlength]
  exact balanced_pack hindex he hop

/-- A struct is taken, and then its fields are put. -/
theorem stages_lowerUnpack (h : Runs (lowerUnpack f i address) s statements s') :
    ∃ k e v t fields results, i.operandValue = .ok k ∧ f.owner.structDefs.get k = .ok e ∧ Runs pop s v t ∧
      f.owner.fieldsOf e.record = .ok fields ∧
      Runs (fields.mapM fun field => do push f (← ofExcept (f.owner.fieldType field.record))) t results s' ∧
      statements = kept i address results [.var v] := by
  simp only [lowerUnpack, runs_bind, runs_ofExcept, runs_pure] at h
  obtain ⟨_, _, hd, v, t, hv, fields, _, ⟨hfields, rfl⟩, results, _, hresults, rfl, rfl⟩ := h
  obtain ⟨⟨k, e, hk, he, rfl⟩, rfl⟩ := runs_structOf hd
  exact ⟨k, e, v, t, fields, results, hk, he, hv, hfields, hresults, rfl⟩

/-- Taking a struct apart follows the table: it puts as many values as there are fields. -/
theorem loweredTo_lowerUnpack (hs : s.WellFormed) (hop : i.opcode = .unpack)
    (h : Runs (lowerUnpack f i address) s statements s') : LoweredTo f i address s statements s' := by
  obtain ⟨index, e, v, t, fields, results, hindex, he, hv, hfields, hresults, rfl⟩ := stages_lowerUnpack h
  obtain ⟨ht, -⟩ := orderly_pop.keeps _ _ _ hv hs
  obtain ⟨hlength, hvars⟩ := vars_of_mapM
    (fun _ => (orderly_ofExcept (plain_fieldType _ _)).bind fun _ => orderly_push f _)
    (fun field s v s' hs hrun => by
      obtain ⟨token, _, htoken, hpush⟩ := runs_bind.mp hrun
      obtain ⟨-, rfl⟩ := runs_ofExcept.mp htoken
      exact vars_of_push hs hpush) ht hresults
  have hcount : fields.length = e.record.fieldCount := by
    rw [← (mapM_eq_ok.mp hfields).length_eq]
    simp [StructDef.fieldIndices]
  refine ⟨t.stack.vars, [v], results, vars_of_pop hs hv, hvars, .external (by rw [hop]; rfl), ?_⟩
  rw [hlength, hcount]
  exact balanced_unpack hindex he hop

/-- An instruction of the ledger follows the table. -/
theorem loweredTo_lowerLedger (hs : s.WellFormed) (hrole : i.opcode.role = .external)
    (hb : Balanced f i (i.opcode.pops.count?.getD 0) (ledgerType? i.opcode).toList.length)
    (h : Runs (lowerLedger f i address) s statements s') : LoweredTo f i address s statements s' := by
  simp only [lowerLedger, runs_bind, runs_pure] at h
  obtain ⟨operands, t, hoperands, results, u, hresults, rfl, rfl⟩ := h
  obtain ⟨hlength, hvars⟩ := vars_of_popMany hs hoperands
  obtain ⟨ht, -⟩ := (orderly_popMany _).keeps _ _ _ hoperands hs
  obtain ⟨hrlength, hrvars⟩ := vars_of_mapM (orderly_push f) (fun _ _ _ _ => vars_of_push) ht hresults
  refine ⟨t.stack.vars, operands, results, hvars, hrvars, .external hrole, ?_⟩
  rw [hlength, hrlength]
  exact hb

/-- A pop lowers to nothing and takes one value. -/
theorem loweredTo_pop (hs : s.WellFormed) (hrole : i.opcode.role = .drop) (hb : Balanced f i 1 0)
    (h : Runs (do let _ ← pop; return []) s statements s') : LoweredTo f i address s statements s' := by
  obtain ⟨v, t, hv, h⟩ := runs_bind.mp h
  obtain ⟨rfl, rfl⟩ := runs_pure.mp h
  exact ⟨t.stack.vars, [v], [], vars_of_pop hs hv, (List.append_nil _).symm, .drop hrole, hb⟩

/-- A jump leaves the stack as it is. -/
theorem loweredTo_lowerJump (hrole : i.opcode.role = .jump) (hb : Balanced f i 0 0)
    (h : Runs (lowerJump i address) s statements s') : LoweredTo f i address s statements s' := by
  obtain ⟨rfl, rfl⟩ := runs_pure.mp h
  exact ⟨s.stack.vars, [], [], (List.append_nil _).symm, (List.append_nil _).symm, .jump hrole, hb⟩

/-- The opcodes that put a literal assign it, at its width, to the variable that they put. -/
theorem loweredTo_literal (hs : s.WellFormed) (hrole : i.opcode.role = .literal)
    (h : Runs (lower f i address) s statements s') : LoweredTo f i address s statements s' := by
  have hb : Balanced f i 0 1 := by
    apply balanced_of_count <;> revert hrole <;> cases i.opcode <;> decide
  have hwidth : ∀ {opcode : Opcode}, i.opcode = opcode → opcode ≠ .ldAddr →
      literalBits i.opcode = 64 := by
    rintro _ rfl hne
    rw [literalBits, if_neg hne]
  have hunmapped : ∀ {opcode : Opcode} {n : Int}, i.opcode = opcode → ¬ Mapped opcode →
      Mapped i.opcode → n = 0 := by
    rintro _ _ rfl hne hmapped
    exact absurd hmapped hne
  -- Each opcode looks its literal up in its own way; the check of the literal repeats the lookup.
  unfold lower at h
  cases hop : i.opcode with
  | ldConst =>
    rw [hop] at h
    obtain ⟨n, t, hoperand, h⟩ := runs_bind.mp h
    obtain ⟨hn, rfl⟩ := runs_operand.mp hoperand
    refine loweredTo_constant hs hrole (hwidth hop (by decide)) (hunmapped hop (by simp [Mapped])) ?_
      hb h
    simp only [Module.literal, hop]
    exact bind_eq_ok.mpr ⟨n, hn, rfl⟩
  | ldTrue | ldFalse =>
    rw [hop] at h
    refine loweredTo_constant hs hrole (hwidth hop (by decide)) (hunmapped hop (by simp [Mapped])) ?_
      hb h
    simp only [Module.literal, hop]
    rfl
  | ldAddr =>
    simp only [hop, runs_bind, runs_operand, runs_ofExcept] at h
    obtain ⟨n, _, ⟨hn, rfl⟩, e, _, ⟨he, rfl⟩, h⟩ := h
    refine loweredTo_constant hs hrole (by rw [literalBits, if_pos hop])
      (hunmapped hop (by simp [Mapped])) ?_ hb h
    simp only [Module.literal, hop]
    exact bind_eq_ok.mpr ⟨n, hn, bind_eq_ok.mpr ⟨e, he, rfl⟩⟩
  | ldStr | ldBytearray =>
    simp only [hop, runs_bind, runs_operand, runs_ofExcept] at h
    obtain ⟨n, _, ⟨hn, rfl⟩, e, _, ⟨he, rfl⟩, h⟩ := h
    refine loweredTo_lowerConstant hs hrole (hwidth hop (by decide)) ?_ hb h
    simp only [Module.literal, hop]
    exact bind_eq_ok.mpr ⟨n, hn, bind_eq_ok.mpr ⟨e, he, rfl⟩⟩
  | _ => simp [hop, Opcode.role] at hrole

/-- A lowering that ends without a fault follows the table. -/
theorem lower_spec (hs : s.WellFormed) (h : Runs (lower f i address) s statements s') :
    LoweredTo f i address s statements s' := by
  by_cases hliteral : i.opcode.role = .literal
  · exact loweredTo_literal hs hliteral h
  -- The numbers of values are fixed for all opcodes but four, which have lemmas of their own.
  have fixed : ∀ {pops pushes : Nat}, i.opcode.pops.count? = some pops →
      i.opcode.pushes.count? = some pushes → Balanced f i pops pushes := balanced_of_count
  -- `i.opcode` stays in the statements, so what is computed of the opcode is carried over to it.
  have role : ∀ {opcode : Opcode} {r : Role}, i.opcode = opcode → opcode.role = r →
      i.opcode.role = r := by
    rintro _ _ rfl rfl
    rfl
  unfold lower at h
  generalize hop : i.opcode = opcode at h fixed
  cases opcode with
  | pop => exact loweredTo_pop hs (role hop rfl) (fixed rfl rfl) h
  | ret => exact loweredTo_lowerReturn hs hop h
  | brTrue | brFalse =>
    exact loweredTo_lowerBranch hs (role hop rfl) (by simp [hop]) (fixed rfl rfl) h
  | branch => exact loweredTo_lowerJump (role hop rfl) (fixed rfl rfl) h
  | ldConst | ldTrue | ldFalse | ldAddr | ldStr | ldBytearray =>
    exact absurd (role hop rfl) hliteral
  | copyLoc => exact loweredTo_lowerCopy hs (role hop rfl) (fixed rfl rfl) h
  | moveLoc => exact loweredTo_lowerMove hs (role hop rfl) (fixed rfl rfl) h
  | stLoc => exact loweredTo_lowerStore hs (role hop rfl) (fixed rfl rfl) h
  | ldRefLoc => exact loweredTo_lowerBorrowLocal hs (role hop rfl) (fixed rfl rfl) h
  | ldRefField => exact loweredTo_lowerBorrowField hs hop (fixed rfl rfl) h
  | call => exact loweredTo_lowerCall hs hop h
  | pack => exact loweredTo_lowerPack hs hop h
  | unpack => exact loweredTo_lowerUnpack hs hop h
  | readRef => exact loweredTo_lowerRead hs (role hop rfl) (fixed rfl rfl) h
  | writeRef => exact loweredTo_lowerWrite hs (role hop rfl) (fixed rfl rfl) h
  | freezeRef => exact loweredTo_lowerFreeze hs (role hop rfl) (fixed rfl rfl) h
  | not => exact loweredTo_lowerNot hs (role hop rfl) (fixed rfl rfl) h
  | borrowRef => exact loweredTo_lowerBorrowGlobal hs (role hop rfl) (fixed rfl rfl) h
  | moveFrom => exact loweredTo_lowerMoveFrom hs (role hop rfl) (fixed rfl rfl) h
  | moveTo => exact loweredTo_lowerMoveTo hs (role hop rfl) (fixed rfl rfl) h
  | add | sub | mul | mod | div | bitOr | bitAnd | xor | or | and | eq | neq | lt | gt | le | ge =>
    exact loweredTo_lowerBinary hs (role hop rfl) (fixed rfl rfl) h
  | assert | getTxnGasUnitPrice | getTxnMaxGasUnits | getGasRemaining | getTxnSender | «exists»
    | releaseRef | createAccount | emitEvent | getTxnSequenceNumber | getTxnPublicKey =>
    refine loweredTo_lowerLedger hs (role hop rfl) ?_ h
    rw [hop]
    exact fixed rfl rfl

end MoveBytecode.Lift
