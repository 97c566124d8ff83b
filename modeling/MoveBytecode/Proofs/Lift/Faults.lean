import MoveBytecode.Proofs.Lift.Course
import MoveBytecode.Proofs.Lift.Widths

/-!
# Where lowerings fail

In a sound state whose stack holds the values that an instruction takes, its lowering fails only where a
value of 256 bits meets a place of 64 (`Overflows`) and at a call of which the host knows no routine
(`CallsUnknown`): `ends_lowerAt` and `outcome_lowerAt_of_breaks`.
-/

namespace MoveBytecode

/-- What a module needs so that its functions can be lifted on a host: its numbers lead to records and
its tokens to types, and each constant that takes up addresses has a symbol. -/
structure Module.Grounded (m : Module) (h : Host) : Prop where
  closed : m.Closed
  knows : m.KnowsAll
  strings : ∀ e ∈ m.strings.toList, ∃ symbol, h.symbolAt? e.mapping.start = some symbol
  bytearrays : ∀ e ∈ m.bytearrays.toList, e.mapping.size ≠ 0 →
    ∃ symbol, h.symbolAt? e.mapping.start = some symbol

namespace Lift

/-! ## Faults -/

/-- In this state an instruction puts a value of 256 bits into a place of 64: it stores it into a local,
or it computes with it. -/
inductive Overflows (f : Frame) (i : Instruction) (s : State) : Fault → Prop
  | store {rest : List Var} {v x : Var} (hop : i.opcode = .stLoc) (hvars : s.stack.vars = rest ++ [v])
    (hx : NamesLocal f i x) (hwide : v.bits = 256) (hnarrow : x.bits = 64) :
    Overflows f i s (.doesNotFit v.text 256 x.text 64)
  | combine {rest : List Var} {left right : Var} (hop : i.opcode.isBinaryOperation = true)
    (hvars : s.stack.vars = rest ++ [left, right]) (hwide : left.bits = 256 ∨ right.bits = 256) :
    Overflows f i s (.cannotExtend 256 64)

/-- Where the callee of a handle is in the host that was published. -/
def calleeOf? (h : Host) (e : Entry FunctionHandle) (name : String) : Option Nat :=
  (h.routineAt? e.mapping.start true).or (h.routineNamed? name)

/-- An instruction calls a handle of this name, and the host has no routine at its address or of its
name. -/
def CallsUnknown (f : Frame) (h : Host) (i : Instruction) (name : String) : Prop :=
  i.opcode = .call ∧ ∃ (index : Nat) (e : Entry FunctionHandle), i.operandValue = .ok index ∧
    f.owner.functionHandles.get index = .ok e ∧ f.owner.functionName e.record = .ok name ∧
    calleeOf? h e name = none

/-- In this state a placed instruction cannot be lowered on the host that was published, for one of the
two reasons. -/
inductive Breaks (f : Frame) (h : Host) (p : Placed) (s : State) : Fault → Prop
  | overflow {fault : Fault} (ho : Overflows f p.instruction s fault) : Breaks f h p s fault
  | unknown {name : String} (hc : CallsUnknown f h p.instruction name) :
    Breaks f h p s (.unresolvedCall name p.address)

/-- An overflow is reported as a width that does not match. -/
theorem Overflows.kind_eq {f : Frame} {i : Instruction} {s : State} {fault : Fault}
    (h : Overflows f i s fault) : fault.kind = .widthMismatch := by
  cases h with
  | store => rfl
  | combine => rfl

/-- The stack holds the values that an instruction takes. -/
def Supplied (f : Frame) (i : Instruction) (s : State) : Prop :=
  ∀ pops pushes, Balanced f i pops pushes → pops ≤ s.stack.height

/-! ## Frames -/

/-- The frame of a function of a grounded module, from which no opcode is left out: its locals are as
wide as their types say. -/
structure Frame.Grounded (f : Frame) (h : Host) : Prop where
  owner : f.owner.Grounded h
  function : f.function.record ∈ f.owner.functions
  removed : f.removed = []
  localTypes : f.owner.localsOf f.function.record = .ok f.localTypes.toList
  locals : f.locals.toList.map (·.bits) = f.localTypes.toList.map fun token => (token.bits : Int)

namespace Frame.Grounded

variable {f : Frame} {h : Host} {i : Instruction}

/-- The operand of an instruction leads to something. -/
theorem operandValue (hf : f.Grounded h) (hi : i ∈ f.function.record.code.instructions)
    {kind : OperandKind} (hkind : i.opcode.operandKind = kind) (hne : kind ≠ .none) :
    ∃ n, i.operandValue = .ok n ∧ n < f.owner.operandBound f.function.record kind := by
  have hclosed := hf.owner.closed.functions _ hf.function
  obtain ⟨o, ho⟩ := Option.isSome_iff_exists.mp ((hclosed.isSome i hi).mpr (hkind ▸ hne))
  obtain ⟨hokind, hbound⟩ := hclosed.operand i hi o ho
  refine ⟨o.value, ?_, ?_⟩
  · rw [Instruction.operandValue, ho]
  · rwa [hokind, hkind] at hbound

/-- The local that an instruction names is as wide as its type says, which the module knows. -/
theorem exists_local (hf : f.Grounded h) (hi : i ∈ f.function.record.code.instructions)
    (hkind : i.opcode.operandKind = .localVar) :
    ∃ n x token, i.operandValue = .ok n ∧ f.locals[n]? = some x ∧ f.localTypes[n]? = some token ∧
      x.bits = token.bits ∧ f.owner.Knows token := by
  obtain ⟨n, hn, hbound⟩ := hf.operandValue hi hkind (by decide)
  obtain ⟨e, he, htypes⟩ := bind_eq_ok.mp hf.localTypes
  have hrecord := (Pool.record_of_get he).2
  rw [Int.toNat_natCast, pure_eq_ok.mp htypes] at hrecord
  have hlt : n < f.localTypes.toList.length := by
    simpa [Module.operandBound, Module.localCount, hrecord] using hbound
  have hlength := congrArg List.length hf.locals
  rw [List.length_map, List.length_map] at hlength
  have hbits := congrArg (·[n]?) hf.locals
  simp only [List.getElem?_map, List.getElem?_eq_getElem hlt,
    List.getElem?_eq_getElem (hlength ▸ hlt), Option.map_some, Option.some.injEq] at hbits
  refine ⟨n, f.locals.toList[n], f.localTypes.toList[n], hn, ?_, ?_, hbits, ?_⟩
  · rw [← Array.getElem?_toList, List.getElem?_eq_getElem]
  · rw [← Array.getElem?_toList, List.getElem?_eq_getElem]
  · exact hf.owner.knows.locals _ (List.mem_of_getElem? hrecord) _ (List.getElem_mem hlt)

end Frame.Grounded

/-! ## Values -/

/-- A value that is no wider than its target can be assigned to it. -/
theorem assign_of_le (target : Var) (source : Expr) (h : source.bits ≤ target.bits) :
    Ir.assign target source = .ok (.assign target source) := by
  have hfit : Ir.checkFit (.var target) source = .ok () := if_neg (Int.not_lt.mpr h)
  rw [Ir.assign, hfit]
  rfl

/-- A value that is wider than its target cannot be assigned to it. -/
theorem assign_of_lt (target : Var) (source : Expr) (h : target.bits < source.bits) :
    Ir.assign target source =
      .error (.doesNotFit source.text source.bits target.text target.bits) := by
  have hfit : Ir.checkFit (.var target) source = .error _ := if_pos h
  rw [Ir.assign, hfit, Expr.text]
  rfl

/-- A value that is no wider than asked for can be extended. -/
theorem zeroExtend_of_le {e : Expr} {bits : Int} (h : e.bits ≤ bits) :
    Ir.zeroExtend e bits = .ok (.operation .zeroExtend [e] bits) := if_neg (Int.not_lt.mpr h)

/-- A value that is wider than asked for cannot be extended. -/
theorem zeroExtend_of_lt {e : Expr} {bits : Int} (h : bits < e.bits) :
    Ir.zeroExtend e bits = .error (.cannotExtend e.bits bits) := if_pos h

/-- An operation of two values is as wide as the wider one, or a truth value. -/
theorem operation_pair (op : Operator) (left right : Var) :
    Ir.operation op [.var left, .var right] = .ok (.operation op [.var left, .var right]
      (if op.isBoolean then 1 else max left.bits right.bits)) := by
  unfold Ir.operation
  split
  · rfl
  · rfl

/-! ## Lowerings that end -/

section

variable {f : Frame} {h : Host} {i : Instruction} {address : Int} {s : State}

/-- A symbol that the host had is found. -/
theorem State.Sound.runs_dataSymbol (hs : s.Sound h) {address : Int}
    (hsymbol : ∃ symbol, h.symbolAt? address = some symbol) :
    ∃ ref : SymbolRef, ref.bits = 64 ∧ Runs (dataSymbol address) s ref s := by
  obtain ⟨symbol, hsymbol⟩ := hsymbol
  have hfound : s.host.symbolAt? address = some symbol := by
    rw [← hsymbol, Host.symbolAt?, Host.symbolAt?, hs.settled.symbols]
  refine ⟨{ name := symbol.name, address := symbol.address }, rfl,
    runs_bind.mpr ⟨s, s, runs_get.mpr ⟨rfl, rfl⟩, ?_⟩⟩
  rw [hfound]
  exact runs_pure.mpr ⟨rfl, rfl⟩

/-- A supplied instruction whose numbers of values are fixed finds as many as it takes. -/
theorem Supplied.le (h : Supplied f i s) {pops pushes : Nat}
    (hpops : i.opcode.pops.count? = some pops) (hpushes : i.opcode.pushes.count? = some pushes) :
    pops ≤ s.stack.height := h _ _ (balanced_of_count hpops hpushes)

/-- The callee of a handle is the same in a sound state as on the host. -/
theorem State.Sound.calleeOf?_eq (hs : s.Sound h) (e : Entry FunctionHandle) (name : String) :
    calleeOf? s.host e name = calleeOf? h e name := by
  unfold calleeOf?
  rw [Host.routineAt?_eq hs.settled.roster, Host.routineNamed?_eq hs.settled.roster]

/-- A callee that is there is found. -/
theorem runs_callee_of_some {e : Entry FunctionHandle} {name : String} {number : Nat}
    (hname : f.owner.functionName e.record = .ok name)
    (hnumber : calleeOf? s.host e name = some number) :
    Runs (callee f e address) s number s := by
  refine runs_bind.mpr ⟨name, s, runs_ofExcept.mpr ⟨hname, rfl⟩,
    runs_bind.mpr ⟨s, s, runs_get.mpr ⟨rfl, rfl⟩, ?_⟩⟩
  unfold calleeOf? at hnumber
  dsimp only
  cases hat : s.host.routineAt? e.mapping.start true with
  | some n =>
    rw [hat, Option.some_or] at hnumber
    exact runs_pure.mpr ⟨Option.some.inj hnumber, rfl⟩
  | none =>
    rw [hat, Option.none_or] at hnumber
    rw [hnumber]
    exact runs_pure.mpr ⟨rfl, rfl⟩

/-- A callee that is not there ends the lowering at the address of the call. -/
theorem outcome_callee_of_none {e : Entry FunctionHandle} {name : String}
    (hname : f.owner.functionName e.record = .ok name) (hnone : calleeOf? s.host e name = none) :
    outcome (callee f e address) s = (.error (.unresolvedCall name address), s) := by
  obtain ⟨hat, hnamed⟩ := Option.or_eq_none_iff.mp hnone
  rw [callee, outcome_bind_of_runs (runs_ofExcept.mpr ⟨hname, rfl⟩),
    outcome_bind_of_runs (runs_get.mpr ⟨rfl, rfl⟩)]
  dsimp only
  rw [hat, hnamed]
  rfl

/-- A callee that is found is a routine. -/
theorem exists_routine_of_calleeOf? {e : Entry FunctionHandle} {name : String} {number : Nat}
    (hnumber : calleeOf? h e name = some number) : ∃ r, h.routine? number = some r := by
  rcases Option.or_eq_some_iff.mp hnumber with hat | ⟨-, hnamed⟩
  · exact Host.exists_routine_of_routineAt? hat
  · exact Host.exists_routine_of_routineNamed? hnamed

variable (hf : f.Grounded h) (hi : i ∈ f.function.record.code.instructions) (hs : s.Sound h)

section

include hs

/-- A conditional branch ends if there is a value to test. -/
theorem ends_lowerBranch (hheight : 1 ≤ s.stack.height) :
    Ends (lowerBranch i address) s fun _ t => t.Sound h := by
  refine (hs.ends_pop hheight).bind ?_
  rintro v t - ⟨ht, -⟩
  split
  · exact ends_bind_ofExcept rfl (ends_pure ht)
  · exact ends_bind_of_runs (runs_pure.mpr ⟨rfl, rfl⟩) (ends_pure ht)

/-- A freeze ends if there is a reference to freeze. -/
theorem ends_lowerFreeze (hheight : 1 ≤ s.stack.height) :
    Ends (lowerFreeze i address) s fun _ t => t.Sound h := by
  refine (hs.ends_pop hheight).bind ?_
  rintro v t - ⟨ht, -, hbits, -⟩
  refine ends_bind_get ?_
  refine (ht.ends_pushNative hbits fun type htype => ht.scope.types v type htype).bind ?_
  exact fun _ _ _ hu => ends_pure hu.1

/-- A write ends if there are a reference and a value. -/
theorem ends_lowerWrite (hheight : 2 ≤ s.stack.height) :
    Ends (lowerWrite i address) s fun _ t => t.Sound h := by
  refine (hs.ends_pop (by omega)).bind ?_
  rintro reference t - ⟨ht, hsucc, -⟩
  refine (ht.ends_pop (by omega)).bind ?_
  exact fun _ _ _ hu => ends_pure hu.1

/-- A move to an account ends if there is a value to move. -/
theorem ends_lowerMoveTo (hheight : 1 ≤ s.stack.height) :
    Ends (lowerMoveTo i address) s fun _ t => t.Sound h :=
  (hs.ends_pop hheight).bind fun _ _ _ ht => ends_pure ht.1

end

section

include hf hs

/-- A value is put onto the stack that a statement is made of. -/
theorem ends_push_return (token : Token) (htoken : f.owner.Knows token) (make : Var → List Stmt) :
    Ends (do return make (← push f token)) s fun _ t => t.Sound h :=
  (hs.ends_push hf.owner.closed token htoken).bind fun _ _ _ ht => ends_pure ht.1

/-- A value that is no wider than the token says is put onto the stack. -/
theorem ends_pushAssign (token : Token) (source : Expr) (htoken : f.owner.Knows token)
    (hfit : source.bits ≤ token.bits) : Ends (pushAssign f token source) s fun _ t => t.Sound h := by
  refine (hs.ends_push hf.owner.closed token htoken).bind ?_
  rintro v t - ⟨ht, -, hbits⟩
  have hassign := assign_of_le v source (by rw [hbits]; exact hfit)
  exact ends_bind_ofExcept hassign (ends_pure ht)

/-- A constant of 64 bits is put as the number 0 if it takes up no addresses, and as its symbol
otherwise. -/
theorem ends_lowerConstant {token : Token} (htoken : f.owner.Knows token) (hbits : token.bits = 64)
    {mapping : Extent} (hsymbol : mapping.size ≠ 0 →
      ∃ symbol, h.symbolAt? mapping.start = some symbol) :
    Ends (lowerConstant f token mapping) s fun _ t => t.Sound h := by
  unfold lowerConstant
  split
  · refine ends_pushAssign hf hs token _ htoken ?_
    rw [hbits]
    exact Int.le_refl 64
  · rename_i hsize
    obtain ⟨ref, href, hrun⟩ := hs.runs_dataSymbol (hsymbol hsize)
    refine ends_bind_of_runs hrun (ends_pushAssign hf hs token _ htoken ?_)
    rw [hbits]
    exact Int.le_of_eq href

/-- A return ends if there are the values to return. -/
theorem ends_lowerReturn (hop : i.opcode = .ret) (hsupplied : Supplied f i s) :
    Ends (lowerReturn f) s fun _ t => t.Sound h := by
  obtain ⟨e, he, hhandle⟩ := hf.owner.closed.handleOf hf.function
  obtain ⟨signature, -, hsignature⟩ := hf.owner.closed.signatureOf he
  refine ends_bind_ofExcept hhandle ?_
  refine ends_bind_ofExcept hsignature ?_
  refine (hs.ends_popMany (hsupplied _ _ (balanced_ret hop hhandle hsignature))).bind ?_
  exact fun _ _ _ ht => ends_pure ht

/-- A negation ends if there is a value to negate. -/
theorem ends_lowerNot (hheight : 1 ≤ s.stack.height) :
    Ends (lowerNot f) s fun _ t => t.Sound h := by
  refine (hs.ends_pop hheight).bind ?_
  rintro v t - ⟨ht, -⟩
  refine ends_bind_ofExcept rfl ?_
  refine ends_bind_ofExcept (zeroExtend_of_le ?_) ?_
  · show (1 : Int) ≤ 64
    decide
  · exact ends_pushAssign hf ht .integer _ trivial (Int.le_refl 64)

/-- Two values are combined whose result is no wider than an integer. -/
theorem ends_lowerBinary {op : Operator} (hheight : 2 ≤ s.stack.height)
    (hfit : op.isBoolean = true ∨ ∀ rest left right, s.stack.vars = rest ++ [left, right] →
      left.bits ≤ 64 ∧ right.bits ≤ 64) :
    Ends (lowerBinary f op) s fun _ t => t.Sound h := by
  refine (hs.ends_pop (by omega)).bind ?_
  rintro right t - ⟨ht, hsucc, -, -, hright⟩
  refine (ht.ends_pop (by omega)).bind ?_
  rintro left u - ⟨hu, -, -, -, hleft⟩
  refine ends_bind_ofExcept (operation_pair op left right) ?_
  refine ends_bind_ofExcept (zeroExtend_of_le ?_) ?_
  · show (if op.isBoolean = true then (1 : Int) else max left.bits right.bits) ≤ 64
    split
    · decide
    · rename_i hop
      have hvars : s.stack.vars = u.stack.vars ++ [left, right] := by
        rw [hright, hleft, List.append_assoc]
        rfl
      obtain ⟨hl, hr⟩ := (hfit.resolve_left hop) _ _ _ hvars
      omega
  · exact ends_pushAssign hf hu .integer _ trivial (Int.le_refl 64)

/-- What is read through a reference is as wide as the type that the reference leads to, or as a reference
if that type is not known. -/
theorem ends_lowerRead (hheight : 1 ≤ s.stack.height) :
    Ends (lowerRead f i address) s fun _ t => t.Sound h := by
  refine (hs.ends_pop hheight).bind ?_
  rintro v t - ⟨ht, -⟩
  refine ends_bind_get ?_
  split
  · rename_i type htype
    obtain ⟨reference, hreference, hpointed⟩ := Option.bind_eq_some_iff.mp htype
    have hsized := (ht.scope.types v reference hreference).of_pointed? hpointed
    have hbits : IsWidth (if type.bits = 0 then 64 else type.bits) := by
      split
      · exact .inl (Int.le_refl 64)
      · exact hsized.isWidth
    refine (ht.ends_pushNative hbits fun _ heq => Option.some.inj heq ▸ hsized).bind ?_
    exact fun _ _ _ hu => ends_pure hu.1
  · exact ends_push_return hf ht (.anyReference true) trivial _

/-- An instruction of the ledger ends if there are the values that it takes. -/
theorem ends_lowerLedger (hheight : i.opcode.pops.count?.getD 0 ≤ s.stack.height) :
    Ends (lowerLedger f i address) s fun _ t => t.Sound h := by
  have hknows : ∀ token ∈ (ledgerType? i.opcode).toList, f.owner.Knows token := by
    intro token htoken
    unfold ledgerType? at htoken
    split at htoken
    all_goals
      simp only [Option.toList_some, Option.toList_none, List.mem_singleton, List.not_mem_nil]
        at htoken
    all_goals
      subst htoken
      trivial
  refine (hs.ends_popMany hheight).bind fun operands t _ ht => ?_
  exact (ht.ends_mapM_push hf.owner.closed hknows).bind fun _ _ _ hu => ends_pure hu

end

section

include hf hi

/-- An instruction that names an entry of a pool finds it. -/
theorem exists_entry {α : Type} (pool : Pool α) (kind : OperandKind)
    (hkind : i.opcode.operandKind = kind) (hne : kind ≠ .none)
    (hbound : f.owner.operandBound f.function.record kind = pool.size) :
    ∃ (n : Nat) (e : Entry α), i.operandValue = .ok n ∧ pool.get n = .ok e ∧
      e.record ∈ pool.records := by
  obtain ⟨n, hn, hlt⟩ := hf.operandValue hi hkind hne
  obtain ⟨e, he, hrecord⟩ :=
    Pool.exists_get (Int.natCast_nonneg n) (Int.ofNat_lt.mpr (hbound ▸ hlt))
  exact ⟨n, e, hn, he, hrecord⟩

/-- The struct that an instruction names, with the token of its handle. -/
theorem exists_struct (hkind : i.opcode.operandKind = .structDef) :
    ∃ (n : Nat) (e : Entry StructDef), i.operandValue = .ok n ∧
      f.owner.structDefs.get n = .ok e ∧ e.record ∈ f.owner.structDefs.records ∧
      Runs (structOf f i) s e.record s ∧ f.owner.Knows (.struct e.record.handle) := by
  obtain ⟨n, e, hn, he, hrecord⟩ :=
    exists_entry hf hi f.owner.structDefs .structDef hkind (by decide) rfl
  refine ⟨n, e, hn, he, hrecord, ?_, Int.natCast_nonneg _, ?_⟩
  · exact runs_bind.mpr ⟨n, s, runs_operand.mpr ⟨hn, rfl⟩,
      runs_bind.mpr ⟨e, s, runs_ofExcept.mpr ⟨he, rfl⟩, runs_pure.mpr ⟨rfl, rfl⟩⟩⟩
  · exact Int.ofNat_lt.mpr (hf.owner.closed.structDefs _ hrecord).1

/-- An instruction that names a local finds its variable and its type, which is as wide. -/
theorem runs_local (hkind : i.opcode.operandKind = .localVar) :
    ∃ x token, NamesLocal f i x ∧ Runs (localVar f i) s x s ∧ Runs (localType f i) s token s ∧
      x.bits = token.bits ∧ f.owner.Knows token := by
  obtain ⟨n, x, token, hn, hx, htoken, hbits, hknows⟩ := hf.exists_local hi hkind
  have hnames : NamesLocal f i x := ⟨n, hn, hx⟩
  refine ⟨x, token, hnames, runs_localVar.mpr ⟨hnames, rfl⟩, ?_, hbits, hknows⟩
  refine runs_bind.mpr ⟨n, s, runs_operand.mpr ⟨hn, rfl⟩, ?_⟩
  rw [htoken]
  exact runs_pure.mpr ⟨rfl, rfl⟩

include hs

/-- A copy of a local ends, as the new variable has the width of the local. -/
theorem ends_lowerCopy (hkind : i.opcode.operandKind = .localVar) :
    Ends (lowerCopy f i) s fun _ t => t.Sound h := by
  obtain ⟨x, token, -, hx, htoken, hbits, hknows⟩ := runs_local hf hi (s := s) hkind
  refine ends_bind_of_runs htoken (ends_bind_of_runs hx ?_)
  exact ends_pushAssign hf hs token (.var x) hknows (Int.le_of_eq hbits)

/-- A move of a local ends, as the new variable has the width of the local and 0 fits into every
local. -/
theorem ends_lowerMove (hkind : i.opcode.operandKind = .localVar) :
    Ends (lowerMove f i) s fun _ t => t.Sound h := by
  obtain ⟨x, token, -, hx, htoken, hbits, hknows⟩ := runs_local hf hi (s := s) hkind
  refine ends_bind_of_runs hx (ends_bind_of_runs htoken ?_)
  refine (ends_pushAssign hf hs token (.var x) hknows (Int.le_of_eq hbits)).bind fun loaded t _ ht => ?_
  have hcleared := assign_of_le x (.imm 0 x.bits) (Int.le_refl _)
  exact ends_bind_ofExcept hcleared (ends_pure ht)

/-- A store ends unless it puts a value of 256 bits into a local of 64. -/
theorem ends_lowerStore (hop : i.opcode = .stLoc) (hheight : 1 ≤ s.stack.height)
    (hfit : ∀ fault, ¬ Overflows f i s fault) :
    Ends (lowerStore f i) s fun _ t => t.Sound h := by
  obtain ⟨x, token, hnames, hx, -, hbits, -⟩ := runs_local hf hi (s := s) (by rw [hop]; rfl)
  refine ends_bind_of_runs hx ((hs.ends_pop hheight).bind ?_)
  rintro v t - ⟨ht, -, hv, -, hvars⟩
  have hle : v.bits ≤ x.bits := by
    have hx64 : x.bits = 64 ∨ x.bits = 256 := by
      rw [hbits]
      cases token with
      | address => exact .inr rfl
      | _ => exact .inl rfl
    have hnot : ¬ (v.bits = 256 ∧ x.bits = 64) := fun ⟨hwide, hnarrow⟩ =>
      hfit _ (.store hop hvars hnames hwide hnarrow)
    unfold IsWidth at hv
    omega
  exact ends_bind_ofExcept (assign_of_le x (.var v) hle) (ends_pure ht)

/-- Borrowing a local ends with a reference to its type. -/
theorem ends_lowerBorrowLocal (hkind : i.opcode.operandKind = .localVar) :
    Ends (lowerBorrowLocal f i address) s fun _ t => t.Sound h := by
  obtain ⟨x, token, -, hx, htoken, -, hknows⟩ := runs_local hf hi (s := s) hkind
  refine ends_bind_of_runs hx (ends_bind_of_runs htoken ?_)
  exact ends_push_return hf hs (.reference false token) hknows _

/-- Borrowing a field ends if there is a reference to the struct. -/
theorem ends_lowerBorrowField (hop : i.opcode = .ldRefField) (hheight : 1 ≤ s.stack.height) :
    Ends (lowerBorrowField f i address) s fun _ t => t.Sound h := by
  obtain ⟨n, field, hn, hfield, hrecord⟩ :=
    exists_entry hf hi f.owner.fieldDefs .fieldDef (by rw [hop]; rfl) (by decide) rfl
  obtain ⟨token, htoken, htype⟩ := hf.owner.closed.fieldType hrecord
  obtain ⟨name, hname, -⟩ := Pool.exists_get (Int.natCast_nonneg field.record.name)
    (Int.ofNat_lt.mpr (hf.owner.closed.fieldDefs _ hrecord).2.1)
  refine ends_bind_of_runs (runs_operand.mpr ⟨hn, rfl⟩) ?_
  refine ends_bind_ofExcept hfield ((hs.ends_pop hheight).bind ?_)
  rintro v t - ⟨ht, -⟩
  obtain ⟨ref, -, href⟩ := ht.runs_dataSymbol (hf.owner.strings name (Pool.mem_toList_of_get hname))
  refine ends_bind_ofExcept hname (ends_bind_of_runs href ?_)
  refine ends_bind_ofExcept htype ?_
  exact ends_push_return hf ht (.reference true token) (hf.owner.knows.types token htoken) _

/-- Borrowing from an account ends if there is an address. -/
theorem ends_lowerBorrowGlobal (hkind : i.opcode.operandKind = .structDef)
    (hheight : 1 ≤ s.stack.height) :
    Ends (lowerBorrowGlobal f i address) s fun _ t => t.Sound h := by
  obtain ⟨n, e, -, -, -, hrun, hknows⟩ := exists_struct hf hi (s := s) hkind
  refine ends_bind_of_runs hrun ((hs.ends_pop hheight).bind fun v t _ ht => ?_)
  exact ends_push_return hf ht.1 (.reference true (.struct e.record.handle)) hknows _

/-- A move from an account ends if there is an address. -/
theorem ends_lowerMoveFrom (hkind : i.opcode.operandKind = .structDef)
    (hheight : 1 ≤ s.stack.height) :
    Ends (lowerMoveFrom f i address) s fun _ t => t.Sound h := by
  obtain ⟨n, e, -, -, -, hrun, hknows⟩ := exists_struct hf hi (s := s) hkind
  refine ends_bind_of_runs hrun ((hs.ends_pop hheight).bind fun v t _ ht => ?_)
  exact ends_push_return hf ht.1 (.struct e.record.handle) hknows _

/-- Making a struct ends if there are the values of its fields. -/
theorem ends_lowerPack (hop : i.opcode = .pack) (hsupplied : Supplied f i s) :
    Ends (lowerPack f i address) s fun _ t => t.Sound h := by
  obtain ⟨n, e, hn, he, -, hrun, hknows⟩ := exists_struct hf hi (s := s) (by rw [hop]; rfl)
  refine ends_bind_of_runs hrun ?_
  refine (hs.ends_popMany (hsupplied _ _ (balanced_pack hn he hop))).bind fun fields t _ ht => ?_
  exact ends_push_return hf ht (.reference true (.struct e.record.handle)) hknows _

/-- Taking a struct apart ends if there is a struct. -/
theorem ends_lowerUnpack (hop : i.opcode = .unpack) (hsupplied : Supplied f i s) :
    Ends (lowerUnpack f i address) s fun _ t => t.Sound h := by
  obtain ⟨n, e, hn, he, hrecord, hrun, -⟩ := exists_struct hf hi (s := s) (by rw [hop]; rfl)
  obtain ⟨fields, hfields, hrecords⟩ := hf.owner.closed.fieldsOf hrecord
  refine ends_bind_of_runs hrun ?_
  refine (hs.ends_pop (hsupplied _ _ (balanced_unpack hn he hop))).bind fun v t _ ht => ?_
  refine ends_bind_ofExcept hfields ?_
  refine (ends_mapM (I := fun u => u.Sound h) (fun field hfield u hu => ?_) ht.1).bind
    fun _ _ _ hu => ends_pure hu
  obtain ⟨token, htoken, htype⟩ := hf.owner.closed.fieldType (hrecords field hfield)
  refine ends_bind_ofExcept htype ?_
  exact (hu.ends_push hf.owner.closed token (hf.owner.knows.types token htoken)).mono fun _ _ _ hq => hq.1

/-- A call ends if there are the values of its parameters and its callee is known. -/
theorem ends_lowerCall (hop : i.opcode = .call) (hsupplied : Supplied f i s)
    (hknown : ∀ name, ¬ CallsUnknown f h i name) :
    Ends (lowerCall f i address) s fun _ t => t.Sound h := by
  obtain ⟨n, e, hn, he, hrecord⟩ :=
    exists_entry hf hi f.owner.functionHandles .functionHandle (by rw [hop]; rfl) (by decide) rfl
  obtain ⟨name, hname⟩ := hf.owner.closed.functionName hrecord
  obtain ⟨signature, hmem, hsignature⟩ := hf.owner.closed.signatureOf hrecord
  obtain ⟨number, hnumber⟩ : ∃ number, calleeOf? h e name = some number :=
    Option.ne_none_iff_exists'.mp fun hnone => hknown name ⟨hop, n, e, hn, he, hname, hnone⟩
  -- The lookups leave the state alone, and so does the prototype leave the stack.
  refine ends_bind_of_runs (runs_operand.mpr ⟨hn, rfl⟩) ?_
  refine ends_bind_ofExcept he ?_
  refine ends_bind_of_runs (runs_callee_of_some hname ((hs.calleeOf?_eq e name).trans hnumber)) ?_
  refine ends_bind_ofExcept hsignature ?_
  refine (hs.ends_onHost (P := fun _ => True) (ends_ensurePrototype hf.owner.closed hf.owner.knows
    hs.settled number hmem) ((durable_settled h).lasting.ensurePrototype _ _ _)).bind ?_
  rintro _ t - ⟨ht, hstack, -⟩
  have hcount : signature.params.length ≤ t.stack.height := by
    rw [hstack]
    exact hsupplied _ _ (balanced_call hop hn he hsignature)
  refine (ht.ends_popMany hcount).bind fun params u _ hu => ?_
  refine (hu.ends_mapM_push hf.owner.closed (hf.owner.knows.functions _ hmem).1).bind ?_
  intro returns v _ hv
  -- The callee is still there when the results have been put, as the roster stays.
  refine ends_bind_get ?_
  obtain ⟨r, hr⟩ := exists_routine_of_calleeOf? hnumber
  obtain ⟨r', hr', -⟩ := Host.exists_routine? hv.settled.roster.symm hr
  rw [hr']
  exact ends_pure hv

/-! ## All opcodes -/

omit hf hi in
/-- The operands of a combination that does not overflow are no wider than an integer. -/
theorem bits_le_of_not_overflows (hfit : ∀ fault, ¬ Overflows f i s fault)
    (hop : i.opcode.isBinaryOperation = true) (rest : List Var) (left right : Var)
    (hvars : s.stack.vars = rest ++ [left, right]) : left.bits ≤ 64 ∧ right.bits ≤ 64 := by
  have hl : IsWidth left.bits := hs.isWidth (by simp [hvars])
  have hr : IsWidth right.bits := hs.isWidth (by simp [hvars])
  have hnot : ¬ (left.bits = 256 ∨ right.bits = 256) := fun hwide =>
    hfit _ (.combine hop hvars hwide)
  unfold IsWidth at hl hr
  omega

/-- An instruction that puts a literal takes nothing, and its literal is as wide as its type. -/
theorem ends_literal (hrole : i.opcode.role = .literal) :
    Ends (lower f i address) s fun _ t => t.Sound h := by
  have kind {opcode : Opcode} (hop : i.opcode = opcode) : i.opcode.operandKind = opcode.operandKind :=
    congrArg _ hop
  -- The operands lead somewhere, as the module is grounded; the widths are compared case by case.
  unfold lower
  cases hop : i.opcode with
  | ldConst =>
    obtain ⟨n, hn, -⟩ := hf.operandValue hi (kind hop) (by decide)
    refine ends_bind_of_runs (runs_operand.mpr ⟨hn, rfl⟩) ?_
    exact ends_pushAssign hf hs .integer _ trivial (Int.le_refl 64)
  | ldTrue | ldFalse => exact ends_pushAssign hf hs .bool _ trivial (Int.le_refl 64)
  | ldAddr =>
    obtain ⟨n, e, hn, he, -⟩ := exists_entry hf hi f.owner.addresses _ (kind hop) (by decide) rfl
    refine ends_bind_of_runs (runs_operand.mpr ⟨hn, rfl⟩) ?_
    refine ends_bind_ofExcept he ?_
    exact ends_pushAssign hf hs .address _ trivial (Int.le_refl 256)
  | ldStr =>
    obtain ⟨n, e, hn, he, -⟩ := exists_entry hf hi f.owner.strings _ (kind hop) (by decide) rfl
    refine ends_bind_of_runs (runs_operand.mpr ⟨hn, rfl⟩) ?_
    refine ends_bind_ofExcept he ?_
    have htoken : f.owner.Knows .string := trivial
    exact ends_lowerConstant hf hs htoken rfl fun _ =>
      hf.owner.strings e (Pool.mem_toList_of_get he)
  | ldBytearray =>
    obtain ⟨n, e, hn, he, -⟩ := exists_entry hf hi f.owner.bytearrays _ (kind hop) (by decide) rfl
    refine ends_bind_of_runs (runs_operand.mpr ⟨hn, rfl⟩) ?_
    refine ends_bind_ofExcept he ?_
    have htoken : f.owner.Knows .bytearray := trivial
    exact ends_lowerConstant hf hs htoken rfl (hf.owner.bytearrays e (Pool.mem_toList_of_get he))
  | _ => simp [hop, Opcode.role] at hrole

/-- An instruction that finds the values that it takes is lowered unless it breaks. -/
theorem ends_lower (hsupplied : Supplied f i s) (hbreaks : ∀ fault, ¬ Breaks f h ⟨address, i⟩ s fault) :
    Ends (lower f i address) s fun _ t => t.Sound h := by
  by_cases hliteral : i.opcode.role = .literal
  · exact ends_literal hf hi hs hliteral
  have hoverflow (fault : Fault) : ¬ Overflows f i s fault := fun ho => hbreaks fault (.overflow ho)
  have hknown (name : String) : ¬ CallsUnknown f h i name := fun hc => hbreaks _ (.unknown hc)
  have narrow := bits_le_of_not_overflows hs hoverflow
  have height {pops pushes : Nat} (hpops : i.opcode.pops.count? = some pops)
      (hpushes : i.opcode.pushes.count? = some pushes) : pops ≤ s.stack.height :=
    hsupplied.le hpops hpushes
  have kind {opcode : Opcode} (hop : i.opcode = opcode) : i.opcode.operandKind = opcode.operandKind :=
    congrArg _ hop
  unfold lower
  -- What `RET`, `CALL`, `PACK` and `UNPACK` take is said by a signature or a struct; all others take a
  -- number of values of their own.
  generalize hop : i.opcode = opcode at height narrow hliteral
  cases opcode with
  | pop => exact (hs.ends_pop (height rfl rfl)).bind fun _ _ _ ht => ends_pure ht.1
  | ret => exact ends_lowerReturn hf hs hop hsupplied
  | brTrue | brFalse => exact ends_lowerBranch hs (height rfl rfl)
  | branch => exact ends_pure hs
  | ldConst | ldTrue | ldFalse | ldAddr | ldStr | ldBytearray => exact absurd rfl hliteral
  | copyLoc => exact ends_lowerCopy hf hi hs (kind hop)
  | moveLoc => exact ends_lowerMove hf hi hs (kind hop)
  | stLoc => exact ends_lowerStore hf hi hs hop (height rfl rfl) hoverflow
  | ldRefLoc => exact ends_lowerBorrowLocal hf hi hs (kind hop)
  | ldRefField => exact ends_lowerBorrowField hf hi hs hop (height rfl rfl)
  | call => exact ends_lowerCall hf hi hs hop hsupplied hknown
  | pack => exact ends_lowerPack hf hi hs hop hsupplied
  | unpack => exact ends_lowerUnpack hf hi hs hop hsupplied
  | readRef => exact ends_lowerRead hf hs (height rfl rfl)
  | writeRef => exact ends_lowerWrite hs (height rfl rfl)
  | freezeRef => exact ends_lowerFreeze hs (height rfl rfl)
  | not => exact ends_lowerNot hf hs (height rfl rfl)
  | borrowRef => exact ends_lowerBorrowGlobal hf hi hs (kind hop) (height rfl rfl)
  | moveFrom => exact ends_lowerMoveFrom hf hi hs (kind hop) (height rfl rfl)
  | moveTo => exact ends_lowerMoveTo hs (height rfl rfl)
  | add | sub | mul | mod | div | bitOr | bitAnd | xor =>
    exact ends_lowerBinary hf hs (height rfl rfl) (.inr (narrow rfl))
  | or | and | eq | neq | lt | gt | le | ge =>
    exact ends_lowerBinary hf hs (height rfl rfl) (.inl rfl)
  | assert | getTxnGasUnitPrice | getTxnMaxGasUnits | getGasRemaining | getTxnSender | «exists»
    | releaseRef | createAccount | emitEvent | getTxnSequenceNumber | getTxnPublicKey =>
    refine ends_lowerLedger hf hs ?_
    rw [hop]
    exact height rfl rfl

end

end

/-! ## Lowerings that fail -/

section

variable {f : Frame} {h : Host} {i : Instruction} {address : Int} {s : State}

/-- Values that are known to be on top of the stack are those that are taken. -/
theorem State.Sound.runs_pop (hs : s.Sound h) {rest : List Var} {v : Var}
    (hvars : s.stack.vars = rest ++ [v]) :
    ∃ t, Runs pop s v t ∧ t.Sound h ∧ t.stack.vars = rest := by
  have hheight : 0 < s.stack.height := by
    rw [← hs.length_vars, hvars]
    simp
  obtain ⟨w, t, hrun, ht, -, -, -, htop⟩ := hs.ends_pop hheight
  obtain ⟨hrest, hv⟩ := List.append_inj' (htop.symm.trans hvars) rfl
  obtain rfl : w = v := by simpa using hv
  exact ⟨t, hrun, ht, hrest⟩

/-- The arithmetic and bitwise opcodes combine two values by an operator that is not about truth. -/
theorem exists_operator (f : Frame) (address : Int) (hop : i.opcode.isBinaryOperation = true) :
    ∃ op : Operator, op.isBoolean = false ∧ lower f i address = lowerBinary f op := by
  unfold lower
  generalize i.opcode = opcode at hop
  cases opcode with
  | add | sub | mul | mod | div | bitOr | bitAnd | xor =>
    refine ⟨_, ?_, rfl⟩
    rfl
  | _ => simp [Opcode.isBinaryOperation] at hop

/-- A value of 256 bits that meets a place of 64 ends the lowering. -/
theorem outcome_lower_of_overflows (hs : s.Sound h) {fault : Fault}
    (hoverflow : Overflows f i s fault) :
    ∃ t, outcome (lower f i address) s = (.error fault, t) := by
  cases hoverflow with
  | @store rest v x hop hvars hx hwide hnarrow =>
    obtain ⟨t, hpop, -, -⟩ := hs.runs_pop hvars
    have hlower : lower f i address = lowerStore f i := by simp only [lower, hop]
    have hassign := assign_of_lt x (.var v) (by simp only [Expr.bits]; omega)
    rw [Expr.bits, Expr.text, hwide, hnarrow] at hassign
    refine ⟨t, ?_⟩
    rw [hlower, lowerStore, outcome_bind_of_runs (runs_localVar.mpr ⟨hx, rfl⟩),
      outcome_bind_of_runs hpop, hassign]
    rfl
  | @combine rest left right hop hvars hwide =>
    obtain ⟨op, hvalue, hlower⟩ := exists_operator f address hop
    have hsplit : s.stack.vars = (rest ++ [left]) ++ [right] := by simp [hvars]
    obtain ⟨t, hright, ht, htrest⟩ := hs.runs_pop hsplit
    obtain ⟨u, hleft, -, -⟩ := ht.runs_pop htrest
    -- Each of the two values has a width of values, and one of them has 256 bits.
    have hmax : max left.bits right.bits = 256 := by
      have hl : IsWidth left.bits := hs.isWidth (by simp [hvars])
      have hr : IsWidth right.bits := hs.isWidth (by simp [hvars])
      unfold IsWidth at hl hr
      omega
    have hoperation := operation_pair op left right
    rw [hvalue, if_neg (by decide), hmax] at hoperation
    have hextend : Ir.zeroExtend (.operation op [.var left, .var right] 256) 64 =
        .error (.cannotExtend 256 64) := zeroExtend_of_lt (by simp only [Expr.bits]; decide)
    refine ⟨u, ?_⟩
    rw [hlower, lowerBinary, outcome_bind_of_runs hright, outcome_bind_of_runs hleft,
      outcome_bind_of_runs (runs_ofExcept.mpr ⟨hoperation, rfl⟩), hextend]
    rfl

/-- A call of which the host knows no routine ends the lowering. -/
theorem outcome_lower_of_unknown (hs : s.Sound h) {name : String} (hcall : CallsUnknown f h i name) :
    outcome (lower f i address) s = (.error (.unresolvedCall name address), s) := by
  obtain ⟨hop, n, e, hn, he, hname, hnone⟩ := hcall
  have hlower : lower f i address = lowerCall f i address := by simp only [lower, hop]
  rw [← hs.calleeOf?_eq] at hnone
  rw [hlower, lowerCall, outcome_bind_of_runs (runs_operand.mpr ⟨hn, rfl⟩),
    outcome_bind_of_runs (runs_ofExcept.mpr ⟨he, rfl⟩),
    outcome_bind_of_error (outcome_callee_of_none hname hnone)]

/-! ## Placed instructions -/

/-- A sound state stays sound when an event is recorded. -/
theorem State.Sound.record (hs : s.Sound h) (e : Event) :
    State.Sound h { s with events := s.events.push e } :=
  hs.congr rfl rfl ((durable_settled h).event _ e hs.settled) hs.scope

variable {p : Placed}

/-- Where no opcode is left out, an instruction is lowered as its opcode says. -/
theorem lowerSupported_eq (hf : f.Grounded h) (p : Placed) :
    lowerSupported f p = lower f p.instruction p.address := by
  rw [lowerSupported, hf.removed, if_neg]
  simp

/-- A placed instruction that does not break is lowered, and what it becomes is recorded. -/
theorem ends_lowerAt (hf : f.Grounded h)
    (hi : p.instruction ∈ f.function.record.code.instructions) (hs : s.Sound h)
    (hsupplied : Supplied f p.instruction s) (hbreaks : ∀ fault, ¬ Breaks f h p s fault) :
    Ends (lowerAt f p) s fun _ t => t.Sound h := by
  obtain ⟨statements, t, hlower, ht⟩ := ends_lower hf hi hs hsupplied hbreaks
  rw [← lowerSupported_eq hf] at hlower
  refine ends_bind_of_runs (runs_tryCatch.mpr (.inl hlower)) ?_
  have hrecord : Ends (statements.forM fun x => record (.lowered p.address x)) t fun _ u => u.Sound h :=
    ends_forM (fun x _ u hu => ends_modify (hu.record _)) ht
  exact hrecord.bind fun _ u _ hu => ends_pure hu

/-- A placed instruction that breaks ends the lift with its fault. -/
theorem outcome_lowerAt_of_breaks (hf : f.Grounded h)
    (hi : p.instruction ∈ f.function.record.code.instructions) (hs : s.Sound h) {fault : Fault}
    (hbreaks : Breaks f h p s fault) : ∃ t, outcome (lowerAt f p) s = (.error fault, t) := by
  obtain ⟨t, hlower⟩ : ∃ t, outcome (lowerSupported f p) s = (.error fault, t) := by
    rw [lowerSupported_eq hf]
    cases hbreaks with
    | overflow hoverflow => exact outcome_lower_of_overflows hs hoverflow
    | unknown hcall => exact ⟨s, outcome_lower_of_unknown hs hcall⟩
  -- The report of the fault shows the instruction, which the module can.
  obtain ⟨text, htext⟩ := hf.owner.closed.showInstruction hf.function hi p.address
  let reported : Event := .notLowered p.address p.instruction.raw text
  have hcaught : outcome (tryCatch (lowerSupported f p) (reportFault f p)) s =
      (.error fault, { t with events := t.events.push reported }) := by
    rw [outcome_tryCatch, hlower]
    dsimp only
    rw [reportFault, outcome_bind_of_runs (runs_ofExcept.mpr ⟨htext, rfl⟩)]
    rfl
  exact ⟨_, outcome_bind_of_error hcaught⟩

end

end Lift

end MoveBytecode
