import MoveBytecode.Proofs.Format.Filled
import MoveBytecode.Proofs.Format.Records

/-!
# Reading the functions of a description

An instruction is read from its bytes as its opcode and its operand, whichever of the kinds of operands
that is; the depth of the stack, which reading keeps, is the one that the description gives
(`Description.depthBehind?`). By induction on the body the scan leaves the listing of the description, and
its branches are then resolved to the distances of the description.
-/

namespace MoveBytecode.Format

open Reader Body

/-! ## Operands -/

/-- An operand within the bound of its field is read from its bytes. -/
theorem parses_operand {kind : OperandKind} {value : Nat} (hkind : kind ≠ .none)
    (h : value < kind.limit) : (operand kind).Parses (operandBytes kind value) (some value) := by
  cases kind with
  | none => exact absurd rfl hkind
  | branch => exact (parses_unsigned h).bind_pure rfl
  | immediate => exact (parses_unsigned h).bind_pure rfl
  | localVar =>
    have hbyte : (UInt8.ofNat value).toNat = value := by
      rw [UInt8.toNat_ofNat']
      exact Nat.mod_eq_of_lt h
    refine (parses_u8 _).bind_pure ?_
    rw [hbyte]
  | address | bytearray | string | functionHandle | fieldDef | structDef =>
    exact (parses_varu16 (Nat.le_of_lt_succ h)).bind_pure rfl

/-- The operand of an instruction, if its opcode has one, is read from its bytes. -/
theorem parses_commandOperand {c : Command}
    (hsome : c.operand.isSome = true ↔ c.opcode.operandKind ≠ .none)
    (hlimit : ∀ value ∈ c.operand, value < c.opcode.operandKind.limit) :
    (operand c.opcode.operandKind).Parses
      ((c.operand.map (operandBytes c.opcode.operandKind)).getD []) c.operand := by
  cases hvalue : c.operand with
  | none =>
    have hkind : c.opcode.operandKind = .none := by
      by_contra hne
      simpa [hvalue] using hsome.mpr hne
    rw [hkind]
    exact parses_pure none
  | some value => exact parses_operand (hsome.mp (by simp [hvalue])) (hlimit value hvalue)

namespace Description

variable {d : Description} {m : Module} {p : Procedure}

/-- The operands of a function within the bounds of what they refer to are within the bounds of their
fields. -/
theorem operand_lt_limit (hd : d.WellFormed) (hp : d.AdmitsProcedure p)
    (hfits : ∀ c ∈ p.body, ∀ n ∈ commandNumbers c, n ≤ 0xFFFF) {c : Command} (hc : c ∈ p.body)
    {value : Nat} (hvalue : value ∈ c.operand) : value < c.opcode.operandKind.limit := by
  have hbound := hp.operand c hc value hvalue
  have hnumbers := hfits c hc
  unfold commandNumbers at hnumbers
  cases hkind : c.opcode.operandKind with
  | none => simp [hkind, bound] at hbound
  | branch =>
    have := hp.length
    simp only [hkind, bound] at hbound
    simp only [OperandKind.limit]
    omega
  | immediate =>
    rw [hkind] at hbound
    exact hbound
  | localVar =>
    -- A signature has at most 255 locals, so one byte is enough.
    have hlocals := List.getElem?_eq_getElem hp.locals
    have hlength := (hd.items .localSignatures _ (List.getElem_mem hp.locals)).length
    simp only [hkind, bound, localCount, hlocals, Option.map_some, Option.getD_some] at hbound
    simp only [OperandKind.limit]
    omega
  | address | bytearray | string | functionHandle | fieldDef | structDef =>
    simp only [hkind] at hnumbers
    exact Nat.lt_succ_of_le (hnumbers value (by simpa using hvalue))

/-- The frame by which the functions of a description are read. -/
def frame (d : Description) (m : Module) (p : Procedure) (name : String) : Body.Frame :=
  ⟨m, name, d.signature p.handle, d.localCount p⟩

/-- An operand below its bound passes the check of operands. -/
theorem checkOperand_eq (hm : d.Filled m) (name : String) {opcode : Opcode} {kind : OperandKind}
    {value : Nat} (h : value < d.bound p kind) :
    checkOperand (d.frame m p name) opcode ⟨kind, value⟩ = .ok () := by
  unfold checkOperand
  cases kind with
  | none => simp [bound] at h
  | branch | immediate => rfl
  | localVar =>
    have hcount : ¬ d.localCount p ≤ value := Nat.not_le.mpr h
    simp [frame, hcount]
  | address =>
    simpa [frame, bound, Module.operandPool?, Pool.size_of_records hm.addresses] using h
  | bytearray =>
    simpa [frame, bound, Module.operandPool?, Pool.size_of_records hm.bytearrays] using h
  | string =>
    simpa [frame, bound, Module.operandPool?, Pool.size_of_records hm.strings] using h
  | functionHandle =>
    simpa [frame, bound, Module.operandPool?, Pool.size_of_records hm.functionHandles] using h
  | fieldDef =>
    simpa [frame, bound, Module.operandPool?, Pool.size_of_records hm.fieldDefs] using h
  | structDef =>
    simpa [frame, bound, Module.operandPool?, Pool.size_of_records hm.structDefs] using h

/-! ## The effects of instructions -/

/-- The number of fields of a struct that is there. -/
theorem get_structDef (hm : d.Filled m) {value : Nat} (h : value < d.structDefs.length) :
    ∃ e, m.structDefs.get value = .ok e ∧ e.record.fieldCount = d.fieldCount value := by
  have hget := List.getElem?_eq_getElem h
  obtain ⟨e, he, hrecord⟩ := Pool.get_of_records hm.structDefs hget
  exact ⟨e, he, by simp [fieldCount, hget, hrecord]⟩

/-- What reading counts for an instruction is what the description says. -/
theorem stackEffect_eq (hd : d.WellFormed) (hm : d.Filled m) (name : String) {c : Command}
    {i : Instruction} (hsome : c.operand.isSome = true ↔ c.opcode.operandKind ≠ .none)
    (hbound : ∀ value ∈ c.operand, value < d.bound p c.opcode.operandKind)
    (hopcode : i.opcode = c.opcode)
    (hoperand : i.operand = c.operand.map (Operand.mk c.opcode.operandKind)) :
    stackEffect (d.frame m p name) i = .ok (d.effect p c) := by
  -- Three opcodes count by their operand, which the instruction has from the description.
  have value : c.opcode.operandKind ≠ .none →
      ∃ v, c.operand = some v ∧ i.operandValue = .ok v ∧ v < d.bound p c.opcode.operandKind := by
    intro hkind
    obtain ⟨v, hv⟩ := Option.isSome_iff_exists.mp (hsome.mpr hkind)
    refine ⟨v, hv, ?_, hbound v hv⟩
    simp [Instruction.operandValue, hoperand, hv]
  unfold stackEffect effect
  rw [hopcode]
  cases hop : c.opcode with
  | ret => rfl
  | pack | unpack =>
    obtain ⟨v, hv, hvalue, hlt⟩ := value (by rw [hop]; decide)
    rw [hop] at hlt
    obtain ⟨e, he, hcount⟩ := get_structDef hm hlt
    rw [hvalue, hv]
    refine bind_eq_ok.mpr ⟨v, rfl, bind_eq_ok.mpr ⟨e, he, ?_⟩⟩
    rw [hcount]
    rfl
  | call =>
    obtain ⟨v, hv, hvalue, hlt⟩ := value (by rw [hop]; decide)
    rw [hop] at hlt
    obtain ⟨e, he, -, hsignature⟩ := signatureOf_eq hd hm hlt
    rw [hvalue, hv]
    exact bind_eq_ok.mpr ⟨v, rfl, bind_eq_ok.mpr ⟨e, he, bind_eq_ok.mpr ⟨_, hsignature, rfl⟩⟩⟩
  | _ => rfl

/-! ## Instructions -/

/-- An instruction is read from its bytes. -/
theorem runs_readInstruction_bytes (hd : d.WellFormed) (hm : d.Filled m)
    (hp : d.AdmitsProcedure p) (hfits : ∀ c ∈ p.body, ∀ n ∈ commandNumbers c, n ≤ 0xFFFF)
    (name : String) {c : Command} (hc : c ∈ p.body) (base index : Nat) {s : Cursor}
    (hs : s.Faces c.bytes) :
    Runs (readInstruction (d.frame m p name) base index) s
      ⟨c.opcode, c.bytes.toArray, index, s.position - base,
        c.operand.map (Operand.mk c.opcode.operandKind), 0, 0, none⟩
      (s.moved c.bytes.length) := by
  have hoperand := parses_commandOperand (hp.isSome c hc)
    fun value hvalue => operand_lt_limit hd hp hfits hc hvalue
  -- The first byte is the opcode, and the rest is the operand.
  obtain ⟨hcode, hrest⟩ : s.Faces [c.opcode.code] ∧ (s.moved 1).Faces _ := hs.append
  have hrun := hoperand _ hrest
  rw [Cursor.moved_moved, Nat.add_comm] at hrun
  refine runs_readInstruction.mpr ⟨c.opcode.code, c.opcode, c.operand,
    parses_u8 c.opcode.code s hcode, Opcode.ofCode?_code c.opcode, hrun, ?_, ?_⟩
  · exact fun value hvalue => checkOperand_eq hm name (hp.operand c hc value hvalue)
  · rw [Cursor.moved_data, Cursor.moved_position, Nat.add_sub_cancel_left]
    congr 1
    exact hs.window.symm

/-- An instruction is read at a stack depth that it does not fall below. -/
theorem runs_step_bytes (hd : d.WellFormed) (hm : d.Filled m) (hp : d.AdmitsProcedure p)
    (hfits : ∀ c ∈ p.body, ∀ n ∈ commandNumbers c, n ≤ 0xFFFF) (name : String) {c : Command}
    (hc : c ∈ p.body) (base index depth : Nat) {s : Cursor} (hs : s.Faces c.bytes)
    (hdepth : ¬ depth < (d.effect p c).1) :
    Runs (step (d.frame m p name) base index depth) s
      ⟨c.opcode, c.bytes.toArray, index, s.position - base,
        c.operand.map (Operand.mk c.opcode.operandKind), depth,
        depth - (d.effect p c).1 + (d.effect p c).2, none⟩
      (s.moved c.bytes.length) := by
  have hread := runs_readInstruction_bytes hd hm hp hfits name hc base index hs
  refine runs_bind.mpr ⟨_, _, hread, runs_bind.mpr ⟨d.effect p c, s.moved c.bytes.length, ?_, ?_⟩⟩
  · exact runs_ofExcept.mpr
      ⟨stackEffect_eq hd hm name (hp.isSome c hc) (hp.operand c hc) rfl rfl, rfl⟩
  · simp only [if_neg hdepth]
    exact runs_pure.mpr ⟨rfl, rfl⟩

/-! ## The scan -/

/-- The scan of instructions leaves their listing behind what was read before. -/
theorem scan_bytes (hd : d.WellFormed) (hm : d.Filled m) (hp : d.AdmitsProcedure p)
    (hfits : ∀ c ∈ p.body, ∀ n ∈ commandNumbers c, n ≤ 0xFFFF) (name : String) (base : Nat)
    {l : List Command} (hl : ∀ c ∈ l, c ∈ p.body) {done : Array Instruction}
    {offset depth final : Nat} {s : Cursor} (hs : s.Faces (l.flatMap Command.bytes))
    (hposition : s.position = base + offset) (hdepth : d.depthBehind? p depth l = some final) :
    scan (d.frame m p name) base l.length done depth s =
      (⟨done ++ (d.listing p done.size offset depth l).toArray, final, none⟩,
        s.moved (l.flatMap Command.bytes).length) := by
  induction l generalizing done offset depth s with
  | nil =>
    obtain rfl := Option.some.inj hdepth
    simp [scan, listing]
  | cons c rest ih =>
    simp only [depthBehind?] at hdepth
    split at hdepth
    · simp at hdepth
    · rename_i hpops
      rw [List.flatMap_cons] at hs
      obtain ⟨hfirst, hrest⟩ := hs.append
      have hc := hl c List.mem_cons_self
      have hstep := runs_step_bytes hd hm hp hfits name hc base done.size depth hfirst hpops
      -- Offsets count from the base of the body, and so does the listing.
      have hoffset : s.position - base = offset := by omega
      have hnext : (s.moved c.bytes.length).position = base + (offset + c.bytes.length) := by
        rw [Cursor.moved_position]
        omega
      rw [List.length_cons, scan, runs_iff_runAt.mp hstep]
      simp only
      rw [ih (fun c hc => hl c (List.mem_cons_of_mem _ hc)) hrest hnext hdepth, hoffset]
      have hpush : ∀ (i : Instruction) (is : List Instruction),
          done.push i ++ is.toArray = done ++ (i :: is).toArray := by
        intro i is
        apply Array.ext'
        simp
      rw [Cursor.moved_moved, ← List.length_append, Array.size_push, hpush, List.flatMap_cons]
      rfl

/-! ## Whole bodies -/

/-- The instructions of a listing are those that were listed, in order. -/
theorem mem_listing {index offset depth : Nat} {l : List Command} {i : Instruction}
    (h : i ∈ d.listing p index offset depth l) :
    i.branchDelta = none ∧ ∃ c ∈ l, i.opcode = c.opcode ∧
      i.operand = c.operand.map (Operand.mk c.opcode.operandKind) := by
  induction l generalizing index offset depth with
  | nil => simp [listing] at h
  | cons c rest ih =>
    rcases List.mem_cons.mp h with rfl | h
    · exact ⟨rfl, c, List.mem_cons_self, rfl, rfl⟩
    · obtain ⟨hnone, c', hc', heq⟩ := ih h
      exact ⟨hnone, c', List.mem_cons_of_mem _ hc', heq⟩

/-- The listing of commands has one instruction for each. -/
@[simp] theorem length_listing (index offset depth : Nat) (l : List Command) :
    (d.listing p index offset depth l).length = l.length := by
  induction l generalizing index offset depth with
  | nil => rfl
  | cons c rest ih => simp [listing, ih]

/-- The branches of an admitted function are resolved. -/
theorem mapM_resolveBranch_listing (hp : d.AdmitsProcedure p) (name : String) :
    (d.listing p 0 0 0 p.body).mapM
      (resolveBranch name (d.listing p 0 0 0 p.body).toArray) = .ok (d.instructions p) := by
  rw [mapM_eq_ok, instructions, List.forall₂_map_right_iff, List.forall₂_same]
  intro i hi
  obtain ⟨hnone, c, hc, hopcode, hoperand⟩ := mem_listing hi
  refine resolveBranch_of_target hnone fun hbranch => ?_
  have hkind : c.opcode.operandKind = .branch := by
    rw [← hopcode]
    exact Opcode.isBranch_iff.mp hbranch
  obtain ⟨value, hvalue⟩ := Option.isSome_iff_exists.mp ((hp.isSome c hc).mpr (by simp [hkind]))
  have hlt := hp.operand c hc value hvalue
  rw [hkind] at hlt
  exact ⟨_, by rw [hoperand, hvalue]; rfl, by simpa [bound] using hlt⟩

/-- A body is read from its bytes. -/
theorem runs_read_bytes (hd : d.WellFormed) (hm : d.Filled m) (hp : d.AdmitsProcedure p)
    (hfits : ∀ c ∈ p.body, ∀ n ∈ commandNumbers c, n ≤ 0xFFFF) (name : String) {s : Cursor}
    (hs : s.Faces (p.body.flatMap Command.bytes)) :
    Runs (Body.read (d.frame m p name) p.body.length) s (d.instructions p)
      (s.moved (p.body.flatMap Command.bytes).length) := by
  have hscan : scan (d.frame m p name) s.position p.body.length #[] 0 s =
      (⟨#[] ++ (d.listing p 0 0 0 p.body).toArray, 0, none⟩, _) :=
    scan_bytes hd hm hp hfits name s.position (fun c hc => hc) hs rfl hp.balanced
  simp only [Body.read, runs_bind, runs_get, runs_set, runs_ofExcept]
  refine ⟨_, _, ⟨rfl, rfl⟩, ⟨⟩, _, rfl, ?_, ?_⟩
  · rw [hscan]
    refine finish_eq_ok.mpr ⟨rfl, rfl, ?_⟩
    simpa [frame] using mapM_resolveBranch_listing hp name
  · rw [hscan]

/-- What stands in front of a body is read from its bytes. -/
theorem parses_head (hm : d.Filled m) (hp : d.AdmitsProcedure p) (hhandle : p.handle ≤ 0xFFFF)
    (hstack : p.maxStack ≤ 0xFFFF) (hlocals : p.locals ≤ 0xFFFF) :
    (Table.readFunctionHeader m).Parses p.head
      ⟨p.handle, p.flags, p.maxStack, p.locals, p.body.length⟩ := by
  have hflags : (UInt8.ofNat p.flags).toNat = p.flags := by
    rw [UInt8.toNat_ofNat']
    exact Nat.mod_eq_of_lt (Nat.lt_succ_of_le hp.flags)
  have hcount : p.body.length < 256 ^ 2 := Nat.lt_succ_of_le hp.length
  have hhandles : m.functionHandles.containsIndex p.handle = true := by
    simp [Pool.containsIndex, Pool.size_of_records hm.functionHandles, hp.handle]
  have hsignatures : m.localSignatures.containsIndex p.locals = true := by
    simp [Pool.containsIndex, Pool.size_of_records hm.localSignatures, hp.locals]
  refine (parses_varu16 hhandle).bind ((parses_u8 _).bind ((parses_varu16 hstack).bind
    ((parses_varu16 hlocals).bind ((parses_unsigned hcount).bind_pure ?_))))
  simp [hhandles, hsignatures, hflags]

/-- A function is read from its bytes. -/
theorem runs_readFunction (hd : d.WellFormed) (hm : d.Filled m) (hp : d.AdmitsProcedure p)
    (hfits : ∀ n ∈ p.handle :: p.maxStack :: p.locals :: p.body.flatMap commandNumbers, n ≤ 0xFFFF)
    {s : Cursor} (hs : s.Faces p.bytes) :
    Runs (Table.readFunction m) s (d.function p s.position) (s.moved p.bytes.length) := by
  simp only [List.forall_mem_cons, List.forall_mem_flatMap] at hfits
  obtain ⟨hhandle, hstack, hlocals, hcommands⟩ := hfits
  obtain ⟨hhead, hbody⟩ := hs.append
  obtain ⟨name, hframe⟩ := frame_eq hd hm hp
  have hread := runs_read_bytes hd hm hp hcommands name hbody
  rw [Cursor.moved_moved, ← List.length_append] at hread
  simp only [Table.readFunction, runs_bind, runs_position, runs_ofExcept, runs_pure]
  exact ⟨_, _, parses_head hm hp hhandle hstack hlocals s hhead, _, _, ⟨rfl, rfl⟩, _, _,
    ⟨hframe, rfl⟩, _, _, hread, rfl, rfl⟩

end Description

end MoveBytecode.Format
