import MoveBytecode.Proofs.Loading.Decode

/-!
# References of loaded modules

Every number by which a record of a loaded module refers to another leads to a record: `Module.Closed`.
The references between records without code were checked once the pools were complete
(`dataClosed_of_checkReferences`); those in functions were checked one by one while the functions were
read, so they follow from the bodies that decoding leaves.
-/

namespace MoveBytecode.Module

/-- The records without code refer to records. -/
structure DataClosed (m : Module) : Prop where
  moduleHandles : ∀ h ∈ m.moduleHandles.records,
    h.address < m.addresses.size ∧ h.name < m.strings.size
  structHandles : ∀ h ∈ m.structHandles.records,
    h.owner < m.moduleHandles.size ∧ h.name < m.strings.size
  functionHandles : ∀ h ∈ m.functionHandles.records,
    h.owner < m.moduleHandles.size ∧ h.name < m.strings.size ∧
      h.signature < m.functionSignatures.size
  /-- The whole run of a struct's fields is there. -/
  structDefs : ∀ d ∈ m.structDefs.records,
    d.handle < m.structHandles.size ∧ d.firstField + d.fieldCount ≤ m.fieldDefs.size
  fieldDefs : ∀ d ∈ m.fieldDefs.records,
    d.owner < m.structHandles.size ∧ d.name < m.strings.size ∧ d.type < m.typeSignatures.size
  /-- The structs of all signatures are there, however deep in references they stand. -/
  tokens : ∀ token ∈ m.signatureTokens, ∀ handle ∈ token.handles,
    0 ≤ handle ∧ handle < m.structHandles.size

/-- How many locals a function has. -/
def localCount (m : Module) (f : FunctionDef) : Nat :=
  (m.localSignatures.records[f.code.locals]?.map List.length).getD 0

/-- How many things an operand of some kind may refer to in a function. -/
def operandBound (m : Module) (f : FunctionDef) : OperandKind → Nat
  | .none => 0
  | .branch => f.code.instructions.length
  | .immediate => 2 ^ 64
  | .localVar => m.localCount f
  | .address => m.addresses.size
  | .bytearray => m.bytearrays.size
  | .string => m.strings.size
  | .functionHandle => m.functionHandles.size
  | .fieldDef => m.fieldDefs.size
  | .structDef => m.structDefs.size

/-- A function refers to records, locals and instructions that are there. -/
structure FunctionClosed (m : Module) (f : FunctionDef) : Prop where
  handle : f.handle < m.functionHandles.size
  locals : f.code.locals < m.localSignatures.size
  /-- An instruction has an operand exactly if its opcode has one. -/
  isSome : ∀ i ∈ f.code.instructions, i.operand.isSome = true ↔ i.opcode.operandKind ≠ .none
  operand : ∀ i ∈ f.code.instructions, ∀ o ∈ i.operand,
    o.kind = i.opcode.operandKind ∧ o.value < m.operandBound f o.kind

/-- Every number in a module by which a record refers to another leads to a record. -/
structure Closed (m : Module) : Prop extends m.DataClosed where
  functions : ∀ f ∈ m.functions, m.FunctionClosed f

/-! ## Records without code -/

/-- Whether references lead to records depends on the records only. -/
theorem DataClosed.of_sameRecords {m n : Module} (h : m.DataClosed) (k : m.SameRecords n) :
    n.DataClosed := by
  -- The tokens come from three tables, as their records do.
  have htokens : m.signatureTokens = n.signatureTokens := by
    have hf : ∀ o : Module, o.functionSignatures.toList.flatMap
        (fun e => e.record.returns ++ e.record.params) =
        o.functionSignatures.records.flatMap fun s => s.returns ++ s.params := by
      simp [Pool.records, List.flatMap_map]
    have hl : ∀ o : Module, o.localSignatures.toList.flatMap (·.record) =
        o.localSignatures.records.flatten := by
      simp [Pool.records, List.flatMap_def]
    have ht : ∀ o : Module, o.typeSignatures.toList.map (·.record) = o.typeSignatures.records :=
      fun o => rfl
    simp only [signatureTokens, hf, hl, ht, k.functionSignatures.records, k.localSignatures.records,
      k.typeSignatures.records]
  obtain ⟨h1, h2, h3, h4, h5, h6⟩ := h
  rw [k.moduleHandles.records, k.addresses.size_eq, k.strings.size_eq] at h1
  rw [k.structHandles.records, k.moduleHandles.size_eq, k.strings.size_eq] at h2
  rw [k.functionHandles.records, k.moduleHandles.size_eq, k.strings.size_eq,
    k.functionSignatures.size_eq] at h3
  rw [k.structDefs.records, k.structHandles.size_eq, k.fieldDefs.size_eq] at h4
  rw [k.fieldDefs.records, k.structHandles.size_eq, k.strings.size_eq, k.typeSignatures.size_eq] at h5
  rw [htokens, k.structHandles.size_eq] at h6
  exact ⟨h1, h2, h3, h4, h5, h6⟩

/-- References that were checked lead somewhere. -/
theorem resolves_of_checkReferences {m : Module} (h : m.checkReferences = .ok ()) :
    ∀ r ∈ m.references, r.resolves = true := by
  unfold checkReferences at h
  split at h
  · simp at h
  · rename_i hnone
    simpa using List.find?_eq_none.mp hnone

/-- An index that resolves is that of a record. -/
theorem lt_of_resolves {α : Type} {pool : Pool α} {holder : String} {index : Int}
    (h : (Reference.into pool holder index).resolves = true) : 0 ≤ index ∧ index < pool.size := by
  simpa [Reference.into, Reference.resolves] using h

/-- A module whose references were checked is closed as far as it has no code. -/
theorem dataClosed_of_checkReferences {m : Module} (h : m.checkReferences = .ok ()) :
    m.DataClosed := by
  have hall := resolves_of_checkReferences h
  simp only [references, List.forall_mem_append] at hall
  obtain ⟨hmodules, hstructs, hfunctions, hdefs, hfields, htokens⟩ := hall
  -- What is left of each list is one fact for each field of each record.
  simp only [moduleReferences, structReferences, functionReferences, structDefReferences,
    fieldDefReferences, tokenReferences, List.forall_mem_flatMap, List.forall_mem_cons,
    List.forall_mem_map] at hmodules hstructs hfunctions hdefs hfields htokens
  refine ⟨?_, ?_, ?_, ?_, ?_, ?_⟩
  · refine List.forall_mem_map.mpr fun e he => ?_
    obtain ⟨ha, hn, -⟩ := hmodules e he
    have := lt_of_resolves ha
    have := lt_of_resolves hn
    omega
  · refine List.forall_mem_map.mpr fun e he => ?_
    obtain ⟨ho, hn, -⟩ := hstructs e he
    have := lt_of_resolves ho
    have := lt_of_resolves hn
    omega
  · refine List.forall_mem_map.mpr fun e he => ?_
    obtain ⟨ho, hn, hs, -⟩ := hfunctions e he
    have := lt_of_resolves ho
    have := lt_of_resolves hn
    have := lt_of_resolves hs
    omega
  · refine List.forall_mem_map.mpr fun e he => ?_
    obtain ⟨hh, hf, -⟩ := hdefs e he
    have := lt_of_resolves hh
    -- The reference of a struct to its fields is to the whole run of them.
    have : e.record.firstField + e.record.fieldCount ≤ m.fieldDefs.size := by
      simpa [Reference.resolves] using hf
    omega
  · refine List.forall_mem_map.mpr fun e he => ?_
    obtain ⟨ho, hn, ht, -⟩ := hfields e he
    have := lt_of_resolves ho
    have := lt_of_resolves hn
    have := lt_of_resolves ht
    omega
  · exact fun token ht handle hh => lt_of_resolves (htokens token ht handle hh)

/-- References that lead somewhere are not refused. -/
theorem DataClosed.checkReferences {m : Module} (h : m.DataClosed) : m.checkReferences = .ok () := by
  have entry : ∀ {α : Type} {pool : Pool α} {holder : String} {index : Nat}, index < pool.size →
      (Reference.into pool holder index).resolves = true := by
    intro α pool holder index hindex
    simpa [Reference.into, Reference.resolves] using hindex
  have record : ∀ {α : Type} {p : Pool α} {e : Entry α}, e ∈ p.toList → e.record ∈ p.records :=
    fun he => List.mem_map_of_mem he
  have hall : ∀ r ∈ m.references, r.resolves = true := by
    -- The references are listed table by table, so that each table's own bounds answer for its part.
    simp only [references, moduleReferences, structReferences, functionReferences,
      structDefReferences, fieldDefReferences, tokenReferences, List.forall_mem_append,
      List.forall_mem_flatMap, List.forall_mem_cons, List.forall_mem_map]
    refine ⟨fun e he => ?_, fun e he => ?_, fun e he => ?_, fun e he => ?_, fun e he => ?_,
      fun token ht handle hh => ?_⟩
    · obtain ⟨ha, hn⟩ := h.moduleHandles _ (record he)
      exact ⟨entry ha, entry hn, by simp⟩
    · obtain ⟨ho, hn⟩ := h.structHandles _ (record he)
      exact ⟨entry ho, entry hn, by simp⟩
    · obtain ⟨ho, hn, hs⟩ := h.functionHandles _ (record he)
      exact ⟨entry ho, entry hn, entry hs, by simp⟩
    · obtain ⟨hh, hf⟩ := h.structDefs _ (record he)
      exact ⟨entry hh, by simpa [Reference.resolves] using hf, by simp⟩
    · obtain ⟨ho, hn, ht⟩ := h.fieldDefs _ (record he)
      exact ⟨entry ho, entry hn, entry ht, by simp⟩
    · obtain ⟨h0, hlt⟩ := h.tokens token ht handle hh
      simp [Reference.into, Reference.resolves, h0, hlt]
  have hnone : m.references.find? (!·.resolves) = none := by
    rw [List.find?_eq_none]
    intro r hr
    simp [hall r hr]
  rw [Module.checkReferences, hnone]

/-! ## Functions -/

/-- An operand that was accepted refers to something. -/
theorem lt_operandBound {m : Module} {f : FunctionDef} {frame : Body.Frame} {o : Operand}
    {opcode : Opcode} (howner : frame.owner = m) (hcount : frame.localCount = m.localCount f)
    (hcheck : Body.checkOperand frame opcode o = .ok ()) (hlimit : o.value < o.kind.limit)
    (hbranch : o.kind = .branch → o.value < f.code.instructions.length) :
    o.value < m.operandBound f o.kind := by
  obtain ⟨kind, value⟩ := o
  -- Operands into a pool were compared with its size, those of locals with the number of locals.
  have pooled : ∀ pool size, m.operandPool? kind = some (pool, size) → kind ≠ .localVar →
      value < size := by
    intro pool size hpool hkind
    simp only [Body.checkOperand, howner, hpool, hkind, if_false] at hcheck
    by_contra hlt
    simp [hlt] at hcheck
  cases kind with
  | none => simp [OperandKind.limit] at hlimit
  | branch => exact hbranch rfl
  | immediate => exact hlimit
  | localVar =>
    simp only [Body.checkOperand, if_true] at hcheck
    split at hcheck
    · simp at hcheck
    · simp only [operandBound, ← hcount]
      omega
  | address | bytearray | string | functionHandle | fieldDef | structDef =>
    exact pooled _ _ rfl (by decide)

/-- A function with a body that was read is closed. -/
theorem functionClosed_of_holdsBody {m : Module} {f : FunctionDef} (h : m.HoldsBody f) :
    m.FunctionClosed f := by
  obtain ⟨frame, hframe, hsound⟩ := h
  obtain ⟨e, signature, localTypes, name, he, -, hl, -, -, rfl⟩ := Body.frame_eq_ok.mp hframe
  have hhandle := (List.getElem?_eq_some_iff.mp (Pool.record_of_get he).2).1
  have hlocals := (List.getElem?_eq_some_iff.mp (Pool.record_of_get hl).2).1
  rw [Pool.length_records, Int.toNat_natCast] at hhandle hlocals
  have hcount : localTypes.record.length = m.localCount f := by
    have hrecord := (Pool.record_of_get hl).2
    rw [Int.toNat_natCast] at hrecord
    rw [localCount, hrecord]
    rfl
  refine ⟨hhandle, hlocals, fun i hi => (hsound.accepted hi).isSome, fun i hi o ho => ?_⟩
  obtain ⟨hkind, hlimit, hcheck⟩ := (hsound.accepted hi).operand o ho
  refine ⟨hkind, lt_operandBound rfl hcount hcheck hlimit fun hbranch => ?_⟩
  -- Branches are not checked where they are read, but they have been resolved.
  have hop : i.opcode.isBranch = true := Opcode.isBranch_iff.mpr (hkind.symm.trans hbranch)
  obtain ⟨target, destination, hoperand, htarget, -⟩ := hsound.branch i hi hop
  obtain rfl := Option.some.inj (hoperand.symm.trans ho)
  exact (List.getElem?_eq_some_iff.mp htarget).1

/-- What decoding leaves is closed. -/
theorem Decoded.closed {m : Module} (h : m.Decoded) : m.Closed := by
  obtain ⟨n, hcheck, hn⟩ := h.checked
  exact { (dataClosed_of_checkReferences hcheck).of_sameRecords hn with
    functions := fun f hf => functionClosed_of_holdsBody (h.bodies f hf) }

end MoveBytecode.Module
