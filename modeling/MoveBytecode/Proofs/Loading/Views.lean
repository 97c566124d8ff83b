import MoveBytecode.Load.Basic
import MoveBytecode.Proofs.Format.Assembly
import MoveBytecode.Proofs.Loading.Closure

/-!
# Views of loaded modules

Following the numbers of a closed module never fails, so neither does anything that shows the module:
names, types, the printers of all pools, the listings of its functions and the comments on them. The
lemmas go from the look-ups to the listings; `Module.Readable` collects what they come to.
-/

namespace MoveBytecode

variable {α β : Type}

/-- What starts with a look-up of a record that is there fails only after it. -/
theorem Pool.answers_get_bind {p : Pool α} {index : Int} {f : Entry α → Except Fault β}
    (h0 : 0 ≤ index) (h : index < p.size) (hf : ∀ e : Entry α, e.record ∈ p.records → Answers (f e)) :
    Answers (p.get index >>= f) := by
  obtain ⟨e, he, hrecord⟩ := exists_get h0 h
  exact answers_bind_of_ok he (hf e hrecord)

/-- A sequence that looks up an index within its pool first succeeds if the rest does for every
record. -/
theorem Pool.answers_get_natCast_bind {p : Pool α} {index : Nat} {f : Entry α → Except Fault β}
    (h : index < p.size) (hf : ∀ e : Entry α, e.record ∈ p.records → Answers (f e)) :
    Answers (p.get index >>= f) :=
  answers_get_bind (Int.natCast_nonneg index) (by exact_mod_cast h) hf

namespace Module

variable {m : Module}

/-- The string of an index within its pool is found. -/
theorem answers_string {index : Nat} (h : index < m.strings.size) : Answers (m.string index) :=
  Pool.answers_get_natCast_bind h fun _ _ => answers_pure _

/-! ## Names -/

namespace DataClosed

/-- A module handle has a name. -/
theorem moduleName (hm : m.DataClosed) {h : ModuleHandle} (hh : h ∈ m.moduleHandles.records) :
    Answers (m.moduleName h) :=
  answers_string (hm.moduleHandles h hh).2

/-- A function handle has a name. -/
theorem functionName (hm : m.DataClosed) {h : FunctionHandle} (hh : h ∈ m.functionHandles.records) :
    Answers (m.functionName h) := by
  obtain ⟨howner, hname, -⟩ := hm.functionHandles h hh
  refine (answers_string hname).bind fun _ _ => ?_
  refine Pool.answers_get_natCast_bind howner fun owner howner => ?_
  refine (hm.moduleName howner).bind fun _ _ => ?_
  split
  · exact answers_pure _
  · exact answers_pure _

end DataClosed

namespace Closed

/-- A module handle has a full name. -/
theorem moduleFullName (hm : m.Closed) {h : ModuleHandle} (hh : h ∈ m.moduleHandles.records) :
    Answers (m.moduleFullName h) := by
  refine Pool.answers_get_natCast_bind (hm.moduleHandles h hh).1 fun _ _ => ?_
  exact (hm.moduleName hh).bind fun _ _ => answers_pure _

/-- A struct handle has a name. -/
theorem structName (hm : m.Closed) {h : StructHandle} (hh : h ∈ m.structHandles.records) :
    Answers (m.structName h) :=
  answers_string (hm.structHandles h hh).2

/-- A struct handle has a full name. -/
theorem structFullName (hm : m.Closed) {h : StructHandle} (hh : h ∈ m.structHandles.records) :
    Answers (m.structFullName h) := by
  refine Pool.answers_get_natCast_bind (hm.structHandles h hh).1 fun owner howner => ?_
  refine (hm.structName hh).bind fun _ _ => ?_
  exact (hm.moduleFullName howner).bind fun _ _ => answers_pure _

/-- The name outside the module is there for every number of a struct. -/
theorem structHostName (hm : m.Closed) {handle : Int}
    (h : 0 ≤ handle ∧ handle < m.structHandles.size) : Answers (m.structHostName handle) :=
  Pool.answers_get_bind h.1 h.2 fun _ he => (hm.structFullName he).bind fun _ _ => answers_pure _

/-- A field has a name. -/
theorem fieldName (hm : m.Closed) {d : FieldDef} (hd : d ∈ m.fieldDefs.records) :
    Answers (m.fieldName d) :=
  answers_string (hm.fieldDefs d hd).2.1

/-- A struct definition has a name. -/
theorem structDefName (hm : m.Closed) {d : StructDef} (hd : d ∈ m.structDefs.records) :
    Answers (m.structDefName d) :=
  Pool.answers_get_natCast_bind (hm.structDefs d hd).1 fun _ hh => hm.structName hh

/-! ## Types -/

/-- A function handle has a signature, which is one of the module. -/
theorem signatureOf (hm : m.Closed) {h : FunctionHandle} (hh : h ∈ m.functionHandles.records) :
    ∃ s ∈ m.functionSignatures.records, m.signatureOf h = .ok s := by
  obtain ⟨e, he, hs⟩ := Pool.exists_get (Int.natCast_nonneg h.signature)
    (Int.ofNat_lt.mpr (hm.functionHandles h hh).2.2)
  exact ⟨e.record, hs, bind_eq_ok.mpr ⟨e, he, rfl⟩⟩

/-- A field has a type, which is one of the module. -/
theorem fieldType (hm : m.Closed) {d : FieldDef} (hd : d ∈ m.fieldDefs.records) :
    ∃ token ∈ m.typeSignatures.records, m.fieldType d = .ok token := by
  obtain ⟨e, he, ht⟩ := Pool.exists_get (Int.natCast_nonneg d.type)
    (Int.ofNat_lt.mpr (hm.fieldDefs d hd).2.2)
  exact ⟨e.record, ht, bind_eq_ok.mpr ⟨e, he, rfl⟩⟩

/-- A function has types of locals, which are those of a signature of the module. -/
theorem localsOf (hm : m.Closed) {f : FunctionDef} (hf : f ∈ m.functions) :
    ∃ tokens ∈ m.localSignatures.records, m.localsOf f = .ok tokens := by
  obtain ⟨e, he, ht⟩ := Pool.exists_get (Int.natCast_nonneg f.code.locals)
    (Int.ofNat_lt.mpr (hm.functions f hf).locals)
  exact ⟨e.record, ht, bind_eq_ok.mpr ⟨e, he, rfl⟩⟩

/-- A function has a handle, which is one of the module. -/
theorem handleOf (hm : m.Closed) {f : FunctionDef} (hf : f ∈ m.functions) :
    ∃ h, h.record ∈ m.functionHandles.records ∧ m.handleOf f = .ok h := by
  obtain ⟨e, he, hh⟩ := Pool.exists_get (Int.natCast_nonneg f.handle)
    (Int.ofNat_lt.mpr (hm.functions f hf).handle)
  exact ⟨e, hh, he⟩

/-- The fields of a struct are field definitions. -/
theorem fieldsOf (hm : m.Closed) {d : StructDef} (hd : d ∈ m.structDefs.records) :
    ∃ fields, m.fieldsOf d = .ok fields ∧ ∀ e ∈ fields, e.record ∈ m.fieldDefs.records := by
  -- The fields of a struct are a run of definitions, all of which are there.
  have hbound : ∀ index ∈ d.fieldIndices, index < m.fieldDefs.size := by
    intro index hindex
    obtain ⟨k, hk, rfl⟩ := List.mem_map.mp hindex
    have := List.mem_range.mp hk
    have := (hm.structDefs d hd).2
    omega
  have hget : ∀ index ∈ d.fieldIndices, Answers (m.fieldDefs.get (index : Nat)) := fun index hindex =>
    (Pool.exists_get (Int.natCast_nonneg index) (Int.ofNat_lt.mpr (hbound index hindex))).imp
      fun e he => he.1
  obtain ⟨fields, hfields⟩ := answers_mapM hget
  refine ⟨fields, hfields, fun e he => ?_⟩
  obtain ⟨index, -, hindex⟩ := exists_of_mem_mapM hfields he
  exact List.mem_of_getElem? (Pool.record_of_get hindex).2

/-! ## Records as text -/

/-- A struct handle is shown. -/
theorem showStructHandle (hm : m.Closed) {h : StructHandle} (hh : h ∈ m.structHandles.records) :
    Answers (m.showStructHandle h) :=
  (hm.structFullName hh).bind fun _ _ => answers_pure _

/-- A token whose structs are there can be shown, however deep in references they stand. -/
theorem showToken_of_handles (hm : m.Closed) {token : Token}
    (h : ∀ handle ∈ token.handles, 0 ≤ handle ∧ handle < m.structHandles.size) :
    Answers (m.showToken token) := by
  induction token with
  | bool | integer | string | address | bytearray => exact answers_ok _
  | reference mutable target ih => exact (ih h).bind fun _ _ => answers_pure _
  | anyReference mutable => exact answers_ok _
  | struct handle =>
    obtain ⟨h0, hlt⟩ := h handle List.mem_cons_self
    refine Pool.answers_get_bind h0 hlt fun e he => ?_
    exact (hm.showStructHandle he).bind fun _ _ => answers_pure _
  | anyStruct => exact answers_ok _

/-- A token of the signatures is shown. -/
theorem showToken (hm : m.Closed) {token : Token} (h : token ∈ m.signatureTokens) :
    Answers (m.showToken token) :=
  hm.showToken_of_handles (hm.tokens token h)

/-- Tokens of the signatures are shown. -/
theorem showTokens (hm : m.Closed) {tokens : List Token} (h : tokens ⊆ m.signatureTokens) :
    Answers (m.showTokens tokens) :=
  (answers_mapM fun _ ht => hm.showToken (h ht)).bind fun _ _ => answers_pure _

/-- The tokens of type signatures are among those of the signatures. -/
theorem typeTokens (m : Module) : m.typeSignatures.records ⊆ m.signatureTokens :=
  List.subset_append_left _ _

/-- The tokens of a function signature are among those of the signatures. -/
theorem functionTokens {s : FunctionSignature} (hs : s ∈ m.functionSignatures.records) :
    s.returns ⊆ m.signatureTokens ∧ s.params ⊆ m.signatureTokens := by
  obtain ⟨e, he, rfl⟩ := List.mem_map.mp hs
  refine ⟨fun token ht => ?_, fun token ht => ?_⟩
  all_goals
    refine List.mem_append_right _ (List.mem_append_left _ (List.mem_flatMap.mpr ⟨e, he, ?_⟩))
  · exact List.mem_append_left _ ht
  · exact List.mem_append_right _ ht

/-- The tokens of the types of locals are among those of the signatures. -/
theorem localTokens {tokens : List Token} (h : tokens ∈ m.localSignatures.records) :
    tokens ⊆ m.signatureTokens := by
  obtain ⟨e, he, rfl⟩ := List.mem_map.mp h
  exact fun token ht => List.mem_append_right _ (List.mem_append_right _
    (List.mem_flatMap.mpr ⟨e, he, ht⟩))

/-- A function signature is shown. -/
theorem showSignature (hm : m.Closed) {s : FunctionSignature}
    (hs : s ∈ m.functionSignatures.records) : Answers (m.showSignature s) := by
  obtain ⟨hreturns, hparams⟩ := functionTokens hs
  refine (hm.showTokens hparams).bind fun _ _ => ?_
  exact (hm.showTokens hreturns).bind fun _ _ => answers_pure _

/-- A function handle is shown. -/
theorem showFunctionHandle (hm : m.Closed) {h : FunctionHandle}
    (hh : h ∈ m.functionHandles.records) : Answers (m.showFunctionHandle h) := by
  obtain ⟨howner, hname, -⟩ := hm.functionHandles h hh
  obtain ⟨s, hs, hsignature⟩ := hm.signatureOf hh
  refine Pool.answers_get_natCast_bind howner fun owner howner => ?_
  refine answers_bind_of_ok hsignature ?_
  refine (hm.showSignature hs).bind fun _ _ => ?_
  refine (hm.moduleFullName howner).bind fun _ _ => ?_
  exact (answers_string hname).bind fun _ _ => answers_pure _

/-- A field is shown with its type. -/
theorem showField (hm : m.Closed) {d : FieldDef} (hd : d ∈ m.fieldDefs.records) :
    Answers (m.showField d) := by
  obtain ⟨token, ht, htype⟩ := hm.fieldType hd
  refine (hm.fieldName hd).bind fun _ _ => ?_
  refine answers_bind_of_ok htype ?_
  exact (hm.showToken (typeTokens m ht)).bind fun _ _ => answers_pure _

/-- A struct definition is shown with its fields. -/
theorem showStructDef (hm : m.Closed) {d : StructDef} (hd : d ∈ m.structDefs.records) :
    Answers (m.showStructDef d) := by
  obtain ⟨fields, hfields, hrecords⟩ := hm.fieldsOf hd
  refine Pool.answers_get_natCast_bind (hm.structDefs d hd).1 fun h hh => ?_
  refine answers_bind_of_ok hfields ?_
  refine (answers_mapM fun e he => hm.showField (hrecords e he)).bind fun _ _ => ?_
  exact (hm.showStructHandle hh).bind fun _ _ => answers_pure _

/-- A field definition is shown. -/
theorem showFieldDef (hm : m.Closed) {d : FieldDef} (hd : d ∈ m.fieldDefs.records) :
    Answers (m.showFieldDef d) := by
  refine Pool.answers_get_natCast_bind (hm.fieldDefs d hd).1 fun h hh => ?_
  refine (hm.structName hh).bind fun _ _ => ?_
  exact (hm.showField hd).bind fun _ _ => answers_pure _

/-! ## Functions -/

/-- The operand of an instruction of the module can be shown, wherever the instruction stands. -/
theorem showOperand (hm : m.Closed) {f : FunctionDef} (hf : f ∈ m.functions) {i : Instruction}
    (hi : i ∈ f.code.instructions) (address : Int) : Answers (m.showOperand i address) := by
  have hbound := (hm.functions f hf).operand i hi
  unfold Module.showOperand
  cases ho : i.operand with
  | none => exact answers_pure _
  | some o =>
    obtain ⟨kind, value⟩ := o
    -- Only operands into pools are looked up; the others are shown as numbers or addresses.
    have hlt : value < m.operandBound f kind := (hbound _ ho).2
    cases kind with
    | none | branch | immediate | localVar => exact answers_pure _
    | address => exact Pool.answers_get_natCast_bind hlt fun _ _ => answers_pure _
    | bytearray => exact Pool.answers_get_natCast_bind hlt fun _ _ => answers_pure _
    | string => exact (answers_string hlt).bind fun _ _ => answers_pure _
    | fieldDef => exact Pool.answers_get_natCast_bind hlt fun _ hd => hm.fieldName hd
    | functionHandle => exact Pool.answers_get_natCast_bind hlt fun _ hh => hm.functionName hh
    | structDef => exact Pool.answers_get_natCast_bind hlt fun _ hd => hm.structDefName hd

/-- An instruction of a function is shown, wherever it is mapped. -/
theorem showInstruction (hm : m.Closed) {f : FunctionDef} (hf : f ∈ m.functions) {i : Instruction}
    (hi : i ∈ f.code.instructions) (address : Int) : Answers (m.showInstruction i address) :=
  (hm.showOperand hf hi address).bind fun _ _ => answers_pure _

/-- A function has a name. -/
theorem nameOf (hm : m.Closed) {f : FunctionDef} (hf : f ∈ m.functions) : Answers (m.nameOf f) := by
  obtain ⟨h, hh, hhandle⟩ := hm.handleOf hf
  refine answers_bind_of_ok hhandle ?_
  exact hm.functionName hh

/-- What starts with the locals of a function fails only after them. -/
theorem answers_localsOf_bind {α : Type} (hm : m.Closed) {f : FunctionDef} (hf : f ∈ m.functions)
    {g : List Token → Except Fault α} (hg : ∀ tokens, tokens ⊆ m.signatureTokens → Answers (g tokens)) :
    Answers (m.localsOf f >>= g) := by
  obtain ⟨tokens, ht, hlocals⟩ := hm.localsOf hf
  refine answers_bind_of_ok hlocals ?_
  exact hg tokens (localTokens ht)

/-- What starts with the handle of a function fails only after it. -/
theorem answers_handleOf_bind {α : Type} (hm : m.Closed) {f : FunctionDef} (hf : f ∈ m.functions)
    {g : Entry FunctionHandle → Except Fault α}
    (hg : ∀ h : Entry FunctionHandle, h.record ∈ m.functionHandles.records → Answers (g h)) :
    Answers (m.handleOf f >>= g) :=
  Pool.answers_get_natCast_bind (hm.functions f hf).handle hg

/-- The code of a function is shown. -/
theorem showCode (hm : m.Closed) {f : Entry FunctionDef} (hf : f.record ∈ m.functions) :
    Answers (m.showCode f) := by
  refine hm.answers_localsOf_bind hf fun tokens ht => ?_
  refine (hm.showTokens ht).bind fun _ _ => ?_
  refine (answers_mapM fun i hi => ?_).bind fun _ _ => answers_pure _
  exact (hm.showInstruction hf hi _).bind fun _ _ => answers_pure _

/-- A function definition is shown. -/
theorem showFunctionDef (hm : m.Closed) {f : Entry FunctionDef} (hf : f.record ∈ m.functions) :
    Answers (m.showFunctionDef f) := by
  refine hm.answers_handleOf_bind hf fun h hh => ?_
  refine (hm.showFunctionHandle hh).bind fun _ _ => ?_
  exact (hm.showCode hf).bind fun _ _ => answers_pure _

/-- The comment on any address: most addresses have none. -/
theorem comment? (hm : m.Closed) (address : Int) : Answers (m.comment? address) := by
  unfold Module.comment?
  split
  · exact answers_pure _
  · rename_i f hfind
    have hf := record_mem_functions (List.mem_of_find?_eq_some hfind)
    refine hm.answers_handleOf_bind hf fun h hh => ?_
    obtain ⟨s, hs, hsignature⟩ := hm.signatureOf hh
    refine answers_bind_of_ok hsignature ?_
    refine hm.answers_localsOf_bind hf fun tokens ht => ?_
    refine (hm.showSignature hs).bind fun _ _ => ?_
    exact (hm.showTokens ht).bind fun _ _ => answers_pure _

/-- A function is disassembled. -/
theorem disassemble (hm : m.Closed) {f : Entry FunctionDef} (hf : f.record ∈ m.functions) :
    Answers (m.disassemble f) := by
  refine (hm.nameOf hf).bind fun _ _ => ?_
  refine (hm.comment? _).bind fun _ _ => ?_
  refine (answers_mapM fun i hi => ?_).bind fun _ _ => answers_pure _
  exact (hm.showInstruction hf hi _).bind fun _ _ => answers_pure _

/-- The whole module is disassembled. -/
theorem disassembly (hm : m.Closed) : Answers (m.disassembly "") := by
  refine answers_bind_of_ok (a := m.internalFunctions) rfl ?_
  exact (answers_mapM fun f hf => hm.disassemble (record_mem_functions hf)).bind
    fun _ _ => answers_pure _

/-! ## Tables -/

/-- Each pool, with the printer that the table listing uses for it, has entries that can all be
shown. -/
theorem entries (hm : m.Closed) : ∀ shown ∈ m.listedPools (⟨fun p print =>
    ∀ e ∈ p.toList, Answers (print e)⟩ : PoolUse Prop), shown := by
  have record : ∀ {α : Type} {p : Pool α} {e : Entry α}, e ∈ p.toList → e.record ∈ p.records :=
    fun he => List.mem_map_of_mem he
  simp only [listedPools, List.forall_mem_cons]
  refine ⟨fun e he => hm.moduleFullName (record he), fun e he => hm.showStructHandle (record he),
    fun e he => hm.showFunctionHandle (record he), fun e he => hm.showStructDef (record he),
    fun e he => hm.showFieldDef (record he),
    fun e he => hm.showToken (typeTokens m (record he)),
    fun e he => hm.showSignature (record he), fun e he => hm.showTokens (localTokens (record he)),
    fun e _ => answers_ok _, fun e _ => answers_ok _, fun e _ => answers_ok _, fun e he => ?_,
    fun _ h => absurd h List.not_mem_nil⟩
  exact hm.showFunctionDef (List.mem_append_left _ (record he))

/-- A pool is shown if each of its entries is. -/
theorem showPool {α : Type} {p : Pool α} {print : Entry α → Except Fault String}
    (h : ∀ e ∈ p.toList, Answers (print e)) : Answers (showPool p print) :=
  (answers_mapM fun e he => (h e he).bind fun _ _ => answers_pure _).bind fun _ _ => answers_pure _

/-- The tables of a module are shown. -/
theorem showTables (hm : m.Closed) : Answers m.showTables := by
  -- The list of pools is the same as in `entries`, with another use of each.
  have hpools : Answers ((m.listedPools ⟨fun p print => Module.showPool p print⟩).mapM id) := by
    have hentries := hm.entries
    simp only [listedPools, List.forall_mem_cons] at hentries
    obtain ⟨h1, h2, h3, h4, h5, h6, h7, h8, h9, h10, h11, h12, -⟩ := hentries
    refine answers_mapM ?_
    simp only [listedPools, List.forall_mem_cons]
    exact ⟨showPool h1, showPool h2, showPool h3, showPool h4, showPool h5, showPool h6,
      showPool h7, showPool h8, showPool h9, showPool h10, showPool h11, showPool h12,
      fun _ h => absurd h List.not_mem_nil⟩
  refine hpools.bind fun _ _ => ?_
  split
  · exact answers_pure _
  · rename_i main hmain
    refine (hm.showFunctionDef ?_).bind fun _ _ => answers_pure _
    simp [Module.functions, hmain]

/-! ## Look-ups by name -/

/-- The search for a function by name does not fail. -/
theorem functionNamed? (hm : m.Closed) (name : String) : Answers (m.functionNamed? name) :=
  answers_findM? fun _ hf => (hm.nameOf (record_mem_functions hf)).bind fun _ _ => answers_pure _

/-- The search for a handle by name does not fail. -/
theorem handleNamed? (hm : m.Closed) (name : String) : Answers (m.handleNamed? name) :=
  answers_findM? fun _ hh =>
    (hm.functionName (List.mem_map_of_mem hh)).bind fun _ _ => answers_pure _

end Closed

/-- What shows a module, or follows the numbers of its own records, answers. -/
structure Readable (m : Module) : Prop where
  tables : Answers m.showTables
  /-- The printer of each pool answers on each entry of the pool. -/
  entries : ∀ shown ∈ m.listedPools (⟨fun p print =>
    ∀ e ∈ p.toList, Answers (print e)⟩ : PoolUse Prop), shown
  tokens : ∀ token ∈ m.signatureTokens, Answers (m.showToken token)
  /-- Every number of a text leads to the text. -/
  strings : ∀ index : Int, 0 ≤ index ∧ index < m.strings.size → Answers (m.string index)
  modules : ∀ h ∈ m.moduleHandles.records, Answers (m.moduleName h) ∧ Answers (m.moduleFullName h)
  structs : ∀ h ∈ m.structHandles.records, Answers (m.structName h) ∧ Answers (m.structFullName h)
  /-- Every number of a struct has a name outside the module. -/
  hostNames : ∀ handle : Int, 0 ≤ handle ∧ handle < m.structHandles.size →
    Answers (m.structHostName handle)
  handles : ∀ h ∈ m.functionHandles.records,
    Answers (m.functionName h) ∧ Answers (m.signatureOf h)
  structDefs : ∀ d ∈ m.structDefs.records, Answers (m.structDefName d) ∧ Answers (m.fieldTypes d)
  fieldDefs : ∀ d ∈ m.fieldDefs.records, Answers (m.fieldName d) ∧ Answers (m.fieldType d)
  functions : ∀ f ∈ m.functions, Answers (m.nameOf f) ∧ Answers (m.handleOf f) ∧
    Answers (m.localsOf f)
  instructions : ∀ f ∈ m.functions, ∀ i ∈ f.code.instructions, ∀ address,
    Answers (m.showInstruction i address)
  listing : ∀ f ∈ m.internalFunctions, Answers (m.disassemble f)
  listings : Answers (m.disassembly "")
  comments : ∀ address, Answers (m.comment? address)
  searches : ∀ name, Answers (m.functionNamed? name) ∧ Answers (m.handleNamed? name)

/-- In a closed module every view and every name can be asked for. -/
theorem Closed.readable {m : Module} (hm : m.Closed) : m.Readable where
  tables := hm.showTables
  entries := hm.entries
  tokens token h := hm.showToken h
  strings index h := Pool.answers_get_bind h.1 h.2 fun _ _ => answers_pure _
  modules h hh := ⟨hm.moduleName hh, hm.moduleFullName hh⟩
  structs h hh := ⟨hm.structName hh, hm.structFullName hh⟩
  hostNames handle h := hm.structHostName h
  handles h hh := ⟨hm.functionName hh, (hm.signatureOf hh).imp fun _ hs => hs.2⟩
  structDefs d hd := by
    refine ⟨hm.structDefName hd, ?_⟩
    obtain ⟨fields, hfields, hrecords⟩ := hm.fieldsOf hd
    refine answers_bind_of_ok hfields (answers_mapM fun e he => ?_)
    refine (hm.fieldName (hrecords e he)).bind fun _ _ => ?_
    obtain ⟨token, -, ht⟩ := hm.fieldType (hrecords e he)
    exact answers_bind_of_ok ht (answers_pure _)
  fieldDefs d hd := ⟨hm.fieldName hd, (hm.fieldType hd).imp fun _ ht => ht.2⟩
  functions f hf := ⟨hm.nameOf hf, (hm.handleOf hf).imp fun _ hh => hh.2,
    (hm.localsOf hf).imp fun _ ht => ht.2⟩
  instructions f hf i hi := hm.showInstruction hf hi
  listing f hf := hm.disassemble (record_mem_functions hf)
  listings := hm.disassembly
  comments := hm.comment?
  searches name := ⟨hm.functionNamed? name, hm.handleNamed? name⟩

/-- Every number held in a loaded module leads to a record, so that everything that shows the module
or follows its own records answers. -/
theorem loaded_closed {config : Config} {data : Bytes} {m : Module} (h : Loads config data m) :
    m.Closed ∧ m.Readable := by
  have hm := h.decoded.1.closed
  exact ⟨hm, hm.readable⟩

/-- A library with a struct of one field and a function that makes one and borrows its field. -/
def sampleLibrary : Bytes :=
  Format.assemble .libra [
    ⟨.moduleHandles, [0, 0]⟩, ⟨.structHandles, [0, 2, 0]⟩, ⟨.functionHandles, [0, 1, 0]⟩,
    ⟨.addressPool, List.replicate 32 0⟩,
    ⟨.stringPool, [1, 0x4D, 1, 0x66, 1, 0x54, 1, 0x78]⟩,
    ⟨.structDefs, [0, 1, 0]⟩, ⟨.fieldDefs, [0, 3, 0]⟩,
    ⟨.typeSignatures, [1, 2]⟩, ⟨.functionSignatures, [2, 0, 0]⟩, ⟨.localSignatures, [3, 1, 7, 0]⟩,
    ⟨.functionDefs,
      [0, 0, 2, 0, 7, 0] ++
        [0x06, 5, 0, 0, 0, 0, 0, 0, 0] ++ [0x12, 0] ++ [0x0D, 0] ++ [0x0E, 0] ++ [0x0F, 0] ++
        [0x01] ++ [0x02]⟩]

/-- This library is loaded, is closed, and can be read. -/
theorem sampleLibrary_closed :
    ∃ m, Loads .standard sampleLibrary m ∧ m.functions.length = 1 ∧ m.Closed ∧ m.Readable := by
  have hload : ∃ m, load .standard sampleLibrary = .ok m ∧ m.functions.length = 1 := by
    have : ((load .standard sampleLibrary).toOption.map (·.functions.length)) = some 1 := by
      decide +kernel
    obtain ⟨m, hm, hlength⟩ := Option.map_eq_some_iff.mp this
    cases h : load .standard sampleLibrary with
    | error e => simp [h, Except.toOption] at hm
    | ok n =>
      obtain rfl : n = m := by simpa [h, Except.toOption] using hm
      exact ⟨n, rfl, hlength⟩
  obtain ⟨m, hm, hlength⟩ := hload
  exact ⟨m, .inl hm, hlength, loaded_closed (.inl hm)⟩

end Module

end MoveBytecode
