import MoveBytecode.Body
import MoveBytecode.Listing.Tables
import MoveBytecode.Proofs.Run

/-!
# Look-ups and records

What a module says of itself follows numbers to records. Two modules whose tables without code hold the
same records under the same numbers (`Module.Agrees`) give the same names and the same text for every
record and every instruction, whatever file the records stand in and whatever addresses they have.
-/

namespace MoveBytecode

variable {α β : Type}

namespace Pool

/-- The records of a pool in order. -/
def records (p : Pool α) : List α := p.toList.map (·.record)

/-- A pool has as many records as it is large. -/
@[simp] theorem length_records (p : Pool α) : p.records.length = p.size := by
  simp [records, toList, size]

/-- The record that is added stands behind the others. -/
@[simp] theorem records_add (p : Pool α) (file : Extent) (record : α) :
    (p.add file record).records = p.records ++ [record] := by
  simp [records]

/-- The record at a place is that of the entry there. -/
theorem getElem?_records (p : Pool α) (index : Nat) :
    p.records[index]? = (p.entries[index]?).map (·.record) := by
  simp [records, toList]

variable {p q : Pool α}

/-- Two pools of the same name with the same records. -/
def Agrees (p q : Pool α) : Prop := p.name = q.name ∧ p.records = q.records

/-- Pools that agree are equally large. -/
theorem Agrees.size_eq (h : p.Agrees q) : p.size = q.size := by
  rw [← length_records, h.2, length_records]

/-- A look-up of a record depends on the records alone. -/
theorem Agrees.map_record_get (h : p.Agrees q) (index : Int) :
    (·.record) <$> p.get index = (·.record) <$> q.get index := by
  unfold get
  split
  · have hrecord := congrArg (·[index.toNat]?) h.2
    simp only [getElem?_records] at hrecord
    cases hp : p.entries[index.toNat]? with
    | none =>
      rw [hp, Option.map_none, eq_comm, Option.map_eq_none_iff] at hrecord
      simp only [hrecord, h.1, h.size_eq]
    | some e =>
      rw [hp, Option.map_some, eq_comm, Option.map_eq_some_iff] at hrecord
      obtain ⟨e', he', hee⟩ := hrecord
      simp only [he', Functor.map, Except.map, hee]
  · simp only [h.1, h.size_eq]

/-- What looks at the record of an entry that is looked up depends on the records alone. -/
theorem Agrees.get_bind (h : p.Agrees q) (index : Int) (f : α → Except Fault β) :
    (p.get index >>= fun e => f e.record) = q.get index >>= fun e => f e.record := by
  rw [← bind_map_left (·.record) (p.get index) f, h.map_record_get, bind_map_left]

end Pool

namespace Module

/-- Two modules with the same records in every table without code. -/
structure Agrees (m n : Module) : Prop where
  moduleHandles : m.moduleHandles.Agrees n.moduleHandles
  structHandles : m.structHandles.Agrees n.structHandles
  functionHandles : m.functionHandles.Agrees n.functionHandles
  addresses : m.addresses.Agrees n.addresses
  bytearrays : m.bytearrays.Agrees n.bytearrays
  strings : m.strings.Agrees n.strings
  typeSignatures : m.typeSignatures.Agrees n.typeSignatures
  functionSignatures : m.functionSignatures.Agrees n.functionSignatures
  localSignatures : m.localSignatures.Agrees n.localSignatures
  structDefs : m.structDefs.Agrees n.structDefs
  fieldDefs : m.fieldDefs.Agrees n.fieldDefs

variable {m n : Module}

namespace Agrees

/-! ## Names and signatures -/

/-- Modules that agree have the same strings. -/
theorem string (h : m.Agrees n) : m.string = n.string :=
  funext fun index => h.strings.get_bind index pure

/-- Modules that agree give modules the same names. -/
theorem moduleName (h : m.Agrees n) : m.moduleName = n.moduleName := by
  funext d
  simp only [Module.moduleName, h.string]

/-- Modules that agree give modules the same full names. -/
theorem moduleFullName (h : m.Agrees n) : m.moduleFullName = n.moduleFullName := by
  funext d
  simp only [Module.moduleFullName, h.moduleName]
  exact h.addresses.get_bind _ fun address => do
    return addressText address ++ "." ++ (← n.moduleName d)

/-- Modules that agree give structs the same names. -/
theorem structName (h : m.Agrees n) : m.structName = n.structName := by
  funext d
  simp only [Module.structName, h.string]

/-- Modules that agree give structs the same full names. -/
theorem structFullName (h : m.Agrees n) : m.structFullName = n.structFullName := by
  funext d
  simp only [Module.structFullName, h.structName, h.moduleFullName]
  exact h.moduleHandles.get_bind _ fun owner => do
    let name ← n.structName d
    return name ++ "@" ++ (← n.moduleFullName owner)

/-- Modules that agree give structs the same names on a host. -/
theorem structHostName (h : m.Agrees n) : m.structHostName = n.structHostName := by
  funext handle
  simp only [Module.structHostName, h.structFullName]
  exact h.structHandles.get_bind _ fun d => do return (← n.structFullName d).map hostChar

/-- Modules that agree give functions the same names. -/
theorem functionName (h : m.Agrees n) : m.functionName = n.functionName := by
  funext d
  simp only [Module.functionName, h.string, h.moduleName]
  refine bind_congr fun name => ?_
  exact h.moduleHandles.get_bind _ fun owner => do
    let ownerName ← n.moduleName owner
    if isSelfName ownerName then return name else return ownerName ++ "_" ++ name

/-- Modules that agree give fields the same names. -/
theorem fieldName (h : m.Agrees n) : m.fieldName = n.fieldName := by
  funext d
  simp only [Module.fieldName, h.string]

/-- Modules that agree give struct definitions the same names. -/
theorem structDefName (h : m.Agrees n) : m.structDefName = n.structDefName := by
  funext d
  simp only [Module.structDefName, h.structName]
  exact h.structHandles.get_bind _ n.structName

/-- Modules that agree have the same signatures of functions. -/
theorem signatureOf (h : m.Agrees n) : m.signatureOf = n.signatureOf :=
  funext fun d => h.functionSignatures.get_bind d.signature pure

/-- Modules that agree have the same types of locals. -/
theorem localsOf (h : m.Agrees n) : m.localsOf = n.localsOf :=
  funext fun f => h.localSignatures.get_bind f.code.locals pure

/-- Modules that agree have the same types of fields. -/
theorem fieldType (h : m.Agrees n) : m.fieldType = n.fieldType :=
  funext fun d => h.typeSignatures.get_bind d.type pure

/-- Modules that agree give function definitions the same names. -/
theorem nameOf (h : m.Agrees n) : m.nameOf = n.nameOf := by
  funext f
  simp only [Module.nameOf, Module.handleOf, h.functionName]
  exact h.functionHandles.get_bind _ n.functionName

/-- What looks at the records of the fields of a struct. -/
theorem mapM_fieldsOf (h : m.Agrees n) (d : StructDef) (f : FieldDef → Except Fault β) :
    (m.fieldsOf d >>= fun fields => fields.mapM fun e => f e.record) =
      n.fieldsOf d >>= fun fields => fields.mapM fun e => f e.record := by
  have hrecords : List.map (·.record) <$> m.fieldsOf d = List.map (·.record) <$> n.fieldsOf d :=
    map_mapM_congr (fun i => h.fieldDefs.map_record_get _) d.fieldIndices
  have hmap (k : Module) : (k.fieldsOf d >>= fun fields => fields.mapM fun e => f e.record) =
      (List.map (·.record) <$> k.fieldsOf d) >>= fun records => records.mapM f := by
    rw [bind_map_left]
    exact bind_congr fun fields => (List.mapM_map ..).symm
  rw [hmap m, hmap n, hrecords]

/-! ## Listings -/

/-- Modules that agree show struct handles alike. -/
theorem showStructHandle (h : m.Agrees n) : m.showStructHandle = n.showStructHandle := by
  funext d
  simp only [Module.showStructHandle, h.structFullName]

/-- Modules that agree show tokens alike. -/
theorem showToken (h : m.Agrees n) : m.showToken = n.showToken := by
  funext token
  induction token with
  | reference mutable target ih => simp only [Module.showToken, ih]
  | struct handle =>
    simp only [Module.showToken, h.showStructHandle]
    exact h.structHandles.get_bind _ fun d => do return "struct " ++ (← n.showStructHandle d)
  | bool | integer | string | address | bytearray | anyReference mutable | anyStruct => rfl

/-- Modules that agree show lists of tokens alike. -/
theorem showTokens (h : m.Agrees n) : m.showTokens = n.showTokens := by
  funext tokens
  simp only [Module.showTokens, h.showToken]

/-- Modules that agree show signatures alike. -/
theorem showSignature (h : m.Agrees n) : m.showSignature = n.showSignature := by
  funext s
  simp only [Module.showSignature, h.showTokens]

/-- Modules that agree show function handles alike. -/
theorem showFunctionHandle (h : m.Agrees n) : m.showFunctionHandle = n.showFunctionHandle := by
  funext d
  simp only [Module.showFunctionHandle, h.signatureOf, h.showSignature, h.moduleFullName, h.string]
  exact h.moduleHandles.get_bind _ fun owner => do
    let signature ← n.showSignature (← n.signatureOf d)
    let ownerName ← n.moduleFullName owner
    return ownerName ++ "." ++ (← n.string d.name) ++ signature

/-- Modules that agree show fields alike. -/
theorem showField (h : m.Agrees n) : m.showField = n.showField := by
  funext d
  simp only [Module.showField, h.fieldName, h.fieldType, h.showToken]

/-- Modules that agree show field definitions alike. -/
theorem showFieldDef (h : m.Agrees n) : m.showFieldDef = n.showFieldDef := by
  funext d
  simp only [Module.showFieldDef, h.structName, h.showField]
  exact h.structHandles.get_bind _ fun owner => do
    let ownerName ← n.structName owner
    return ownerName ++ "." ++ (← n.showField d)

/-- Modules that agree show struct definitions alike. -/
theorem showStructDef (h : m.Agrees n) : m.showStructDef = n.showStructDef := by
  funext d
  have hshow (k : Module) : k.showStructDef d = k.structHandles.get d.handle >>= fun s =>
      (k.fieldsOf d >>= fun fields => fields.mapM fun e => k.showField e.record) >>= fun fields => do
        let handle ← k.showStructHandle s.record
        return handle ++ " \x7b" ++ String.intercalate ", " fields ++ "\x7d" := by
    simp only [Module.showStructDef, bind_assoc]
  rw [hshow m, hshow n, h.showField, h.showStructHandle, h.mapM_fieldsOf]
  exact h.structHandles.get_bind _ fun s =>
    (n.fieldsOf d >>= fun fields => fields.mapM fun e => n.showField e.record) >>= fun fields => do
      let handle ← n.showStructHandle s
      return handle ++ " \x7b" ++ String.intercalate ", " fields ++ "\x7d"

/-- Modules that agree show operands alike. -/
theorem showOperand (h : m.Agrees n) : m.showOperand = n.showOperand := by
  funext i address
  simp only [Module.showOperand, h.string, h.fieldName, h.functionName, h.structDefName]
  rcases i.operand with _ | ⟨kind, value⟩
  · rfl
  · cases kind with
    | address => exact h.addresses.get_bind _ fun v => pure (addressText v)
    | bytearray => exact h.bytearrays.get_bind _ fun v => pure (bytearrayText v)
    | fieldDef => exact h.fieldDefs.get_bind _ n.fieldName
    | functionHandle => exact h.functionHandles.get_bind _ n.functionName
    | structDef => exact h.structDefs.get_bind _ n.structDefName
    | none | branch | immediate | localVar | string => rfl

/-- Modules that agree show instructions alike. -/
theorem showInstruction (h : m.Agrees n) : m.showInstruction = n.showInstruction := by
  funext i address
  simp only [Module.showInstruction, h.showOperand]

/-! ## Bodies -/

/-- Modules that agree refer operands to pools of the same names and sizes. -/
theorem operandPool? (h : m.Agrees n) : m.operandPool? = n.operandPool? := by
  funext kind
  cases kind with
  | none | branch | immediate | localVar => rfl
  | address => simp only [Module.operandPool?, h.addresses.1, h.addresses.size_eq]
  | bytearray => simp only [Module.operandPool?, h.bytearrays.1, h.bytearrays.size_eq]
  | string => simp only [Module.operandPool?, h.strings.1, h.strings.size_eq]
  | functionHandle => simp only [Module.operandPool?, h.functionHandles.1, h.functionHandles.size_eq]
  | fieldDef => simp only [Module.operandPool?, h.fieldDefs.1, h.fieldDefs.size_eq]
  | structDef => simp only [Module.operandPool?, h.structDefs.1, h.structDefs.size_eq]

end Agrees

end Module

namespace Body

variable {f g : Frame}

/-- The check of operands depends on the records of the module and on the number of locals only. -/
theorem checkOperand_of_agrees (h : f.owner.Agrees g.owner) (hcount : f.localCount = g.localCount) :
    checkOperand f = checkOperand g := by
  funext opcode o
  simp only [checkOperand, h.operandPool?, hcount]

/-- The effect of an instruction on the stack depends on the records of the module and on the signature
only. -/
theorem stackEffect_of_agrees (h : f.owner.Agrees g.owner) (hsignature : f.signature = g.signature) :
    stackEffect f = stackEffect g := by
  funext i
  unfold stackEffect
  rw [hsignature, h.signatureOf]
  split
  · rfl
  · refine bind_congr fun value => ?_
    exact h.structDefs.get_bind value fun d => pure (d.fieldCount, 1)
  · refine bind_congr fun value => ?_
    exact h.structDefs.get_bind value fun d => pure (1, d.fieldCount)
  · refine bind_congr fun value => ?_
    exact h.functionHandles.get_bind value fun target => do
      let signature ← g.owner.signatureOf target
      return (signature.params.length, signature.returns.length)
  · rfl

end Body

end MoveBytecode
