import MoveBytecode.Proofs.Loading.CodeUnits
import MoveBytecode.Proofs.Loading.Views
import MoveBytecode.Proofs.Reading.Spelling

/-!
# Instructions in code

What stands in the code for an instruction is an item: the byte of an opcode and a spelling of its operand,
which refers to something (`Body.Item.Decoded`). Anything else ahead of a cursor is listed with the fault
that says so (`Body.Misread`). An instruction is read where an item lies ahead that does not take more
values than there are (`Body.runs_step`). Otherwise the read fails, first with what is no item, and then
with an item that takes too many values (`Body.fails_step`).
-/

namespace MoveBytecode

open Reader (runs_u8 fails_u8 runs_operand fails_operand runs_ofExcept runs_position)

namespace Module

variable {m : Module}

/-- A function handle whose signature was checked has one. -/
theorem DataClosed.exists_signatureAt? (hm : m.DataClosed) {handle : Nat}
    (h : handle < m.functionHandles.size) :
    ∃ e s, m.functionHandles.get handle = .ok e ∧ e.record ∈ m.functionHandles.records ∧
      m.signatureOf e.record = .ok s ∧ m.signatureAt? handle = some s := by
  obtain ⟨e, he, hmem⟩ := Pool.exists_get (Int.natCast_nonneg handle) (by exact_mod_cast h)
  obtain ⟨-, -, hsignature⟩ := hm.functionHandles e.record hmem
  obtain ⟨s, hs⟩ : Answers (m.signatureOf e.record) :=
    Pool.answers_get_natCast_bind hsignature fun _ _ => answers_pure _
  exact ⟨e, s, he, hmem, hs, signatureAt?_of_signatureOf he hs⟩

end Module

namespace Body

/-! ## Items -/

/-- An operand refers to a local of the function, or to a record of its pool. -/
def Frame.InRange (f : Frame) (o : Operand) : Prop :=
  (o.kind = .localVar → o.value < f.localCount) ∧
    ∀ pool size, f.owner.operandPool? o.kind = some (pool, size) → o.value < size

/-- An instruction as it stands in the code: an opcode, and the bytes and the value of its operand. -/
structure Item where
  opcode : Opcode
  octets : List UInt8
  operand : Option Nat

namespace Item

/-- The bytes of an item. -/
def bytes (x : Item) : List UInt8 := x.opcode.code :: x.octets

/-- The instruction of an item at a place in the body, with the depths of the stack around it. -/
def instruction (x : Item) (index offset before after : Nat) : Instruction where
  opcode := x.opcode
  raw := x.bytes.toArray
  index := index
  offset := offset
  operand := x.operand.map (Operand.mk x.opcode.operandKind)
  depthBefore := before
  depthAfter := after
  branchDelta := none

/-- The bytes ahead of a cursor are those of an item, whose operand is in range. -/
structure Decoded (x : Item) (f : Frame) (c : Cursor) : Prop where
  spelled : x.opcode.operandKind.Spells x.octets x.operand
  inRange : ∀ value ∈ x.operand, f.InRange ⟨x.opcode.operandKind, value⟩
  faces : c.Faces x.bytes

end Item

/-- How many values an item takes from the stack and how many it puts there. -/
def Frame.arity? (f : Frame) (x : Item) : Option (Nat × Nat) :=
  f.owner.arity? f.signature (x.instruction 0 0 0 0)

/-- What lies ahead of a cursor instead of an item, and the fault that says so. -/
inductive Misread (f : Frame) (c : Cursor) : Fault → Prop
  | nothing (h : c.stop ≤ c.position) : Misread f c (.shortRead 1 c.position c.stop)
  | unknown {byte : UInt8} (faces : c.Faces [byte]) (h : Opcode.ofCode? byte = none) :
    Misread f c (.opcodeUnknown byte c.position)
  | operand {opcode : Opcode} {fault : Fault} (faces : c.Faces [opcode.code])
    (h : opcode.operandKind.Misspelled (c.moved 1) fault) : Misread f c fault
  | beyondCount {x : Item} {value : Nat} (spelled : x.opcode.operandKind.Spells x.octets (some value))
    (faces : c.Faces x.bytes) (kind : x.opcode.operandKind = .localVar) (h : f.localCount ≤ value) :
    Misread f c (.localBeyondCount x.opcode value f.localCount)
  | beyondPool {x : Item} {value size : Nat} {pool : String}
    (spelled : x.opcode.operandKind.Spells x.octets (some value)) (faces : c.Faces x.bytes)
    (kind : f.owner.operandPool? x.opcode.operandKind = some (pool, size)) (h : size ≤ value) :
    Misread f c (.operandBeyondPool x.opcode pool value size)

variable {f : Frame} {c c' : Cursor} {fault : Fault}

/-- A misspelt operand is reported as the end of the input or as a number that is too long. -/
theorem kind_of_misspelled {kind : OperandKind} (h : kind.Misspelled c fault) :
    fault.kind = .endOfInput ∨ fault.kind = .varintOverflow := by
  cases h with
  | cut | unended => exact .inl rfl
  | tooLong | tooLarge => exact .inr rfl

/-- What is no item is reported in one of four ways. -/
theorem Misread.kind (h : Misread f c fault) : fault.kind ∈
    [FaultKind.endOfInput, .varintOverflow, .unknownOpcode, .unresolvedReference] := by
  cases h with
  | nothing => simp [Fault.kind]
  | unknown => simp [Fault.kind]
  | operand _ hmisspelled =>
    obtain h | h := kind_of_misspelled hmisspelled
    · simp [h]
    · simp [h]
  | beyondCount | beyondPool => simp [Fault.kind]

/-! ## Operands and effects -/

/-- The operand of an item passes the check if it is in range. -/
theorem checkOperand_eq_ok {opcode : Opcode} {o : Operand} :
    checkOperand f opcode o = .ok () ↔ f.InRange o := by
  unfold checkOperand Frame.InRange
  by_cases hlocal : o.kind = .localVar
  · simp [hlocal, Module.operandPool?]
  · rcases hpool : f.owner.operandPool? o.kind with _ | ⟨pool, size⟩
    · simp [hlocal]
    · simp [hlocal]

/-- The check names the bound that an operand does not keep. -/
theorem checkOperand_eq_error {opcode : Opcode} {o : Operand} :
    checkOperand f opcode o = .error fault ↔
      (o.kind = .localVar ∧ f.localCount ≤ o.value ∧
        fault = .localBeyondCount opcode o.value f.localCount) ∨
      ∃ pool size, f.owner.operandPool? o.kind = some (pool, size) ∧ size ≤ o.value ∧
        fault = .operandBeyondPool opcode pool o.value size := by
  unfold checkOperand
  by_cases hlocal : o.kind = .localVar
  · by_cases hcount : f.localCount ≤ o.value
    · simp [hlocal, hcount, Module.operandPool?, eq_comm]
    · simp [hlocal, hcount, Module.operandPool?]
  · rcases hpool : f.owner.operandPool? o.kind with _ | ⟨pool, size⟩
    · simp [hlocal]
    · by_cases hsize : o.value < size
      · simp [hlocal, hsize, Nat.not_le_of_lt hsize]
      · simp [hlocal, hsize, Nat.le_of_not_lt hsize, eq_comm]

/-- The operand that an opcode has is spelled out. -/
theorem exists_value_of_spells {kind : OperandKind} {octets : List UInt8} {operand : Option Nat}
    (h : kind.Spells octets operand) (hkind : kind ≠ .none) : ∃ value, operand = some value := by
  cases h with
  | empty => exact absurd rfl hkind
  | fixed _ => exact ⟨_, rfl⟩
  | index => exact ⟨_, rfl⟩

/-- In a module with resolved references the effect of an item is its arity. -/
theorem exists_stackEffect (hm : f.owner.DataClosed) {x : Item} (hx : x.Decoded f c)
    (index offset before after : Nat) : ∃ pops pushes, f.arity? x = some (pops, pushes) ∧
      stackEffect f (x.instruction index offset before after) = .ok (pops, pushes) := by
  -- Three opcodes have an operand that refers to what they count.
  have hvalue (hkind : x.opcode.operandKind ≠ .none) : ∃ value, x.operand = some value ∧
      (x.instruction index offset before after).operandValue = .ok value ∧
      f.InRange ⟨x.opcode.operandKind, value⟩ := by
    obtain ⟨value, hvalue⟩ := exists_value_of_spells hx.spelled hkind
    exact ⟨value, hvalue, by simp [Instruction.operandValue, Item.instruction, hvalue],
      hx.inRange value hvalue⟩
  have hanswers : Answers (stackEffect f (x.instruction index offset before after)) := by
    cases hop : x.opcode with
    | pack | unpack =>
      obtain ⟨value, -, hvalue, -, hpool⟩ := hvalue (by rw [hop]; decide)
      have hlt := hpool _ _ (by rw [hop]; rfl)
      obtain ⟨e, he, -⟩ := Pool.exists_get (Int.natCast_nonneg value) (by exact_mod_cast hlt)
      simp only [stackEffect, Item.instruction, hop] at hvalue ⊢
      exact ⟨_, bind_eq_ok.mpr ⟨value, hvalue, bind_eq_ok.mpr ⟨e, he, rfl⟩⟩⟩
    | call =>
      obtain ⟨value, -, hvalue, -, hpool⟩ := hvalue (by rw [hop]; decide)
      obtain ⟨e, s, he, -, hs, -⟩ := hm.exists_signatureAt? (hpool _ _ (by rw [hop]; rfl))
      simp only [stackEffect, Item.instruction, hop] at hvalue ⊢
      exact ⟨_, bind_eq_ok.mpr ⟨value, hvalue, bind_eq_ok.mpr ⟨e, he, bind_eq_ok.mpr ⟨s, hs, rfl⟩⟩⟩⟩
    | _ =>
      simp only [stackEffect, Item.instruction, hop]
      exact answers_pure _
  obtain ⟨⟨pops, pushes⟩, heffect⟩ := hanswers
  exact ⟨pops, pushes, arity?_of_stackEffect heffect, heffect⟩

/-! ## One instruction -/

/-- An opcode that is read for a byte has the byte as its code. -/
theorem code_of_ofCode? {byte : UInt8} {opcode : Opcode} (h : Opcode.ofCode? byte = some opcode) :
    opcode.code = byte := by
  have := List.find?_some h
  simpa using this

/-- An instruction is read where an item lies ahead. -/
theorem runs_readInstruction_iff (hc : c.Inside) {base index : Nat} {i : Instruction} :
    Runs (readInstruction f base index) c i c' ↔ ∃ x : Item, x.Decoded f c ∧
      i = x.instruction index (c.position - base) 0 0 ∧ c' = c.moved x.bytes.length := by
  rw [runs_readInstruction]
  constructor
  · rintro ⟨byte, opcode, value, hbyte, hop, hoperand, hcheck, rfl⟩
    obtain ⟨hlt, hvalue, -⟩ := runs_u8.mp hbyte
    obtain ⟨octets, hspells, hfaces, rfl⟩ := (runs_operand (hc.next hlt)).mp hoperand
    obtain rfl := code_of_ofCode? hop
    have hbytes : c.Faces (opcode.code :: octets) := Cursor.faces_cons.mpr ⟨hlt, hvalue, hfaces⟩
    have hmoved : (c.moved 1).moved octets.length = c.moved (opcode.code :: octets).length := by
      rw [Cursor.moved_moved, List.length_cons, Nat.add_comm]
    refine ⟨⟨opcode, octets, value⟩, ⟨hspells, ?_, hbytes⟩, ?_, hmoved⟩
    · exact fun v hv => checkOperand_eq_ok.mp (hcheck v hv)
    · rw [hmoved, Cursor.moved_data, Cursor.moved_position, Nat.add_sub_cancel_left, hbytes.window]
      rfl
  · rintro ⟨x, ⟨hspells, hrange, hfaces⟩, rfl, rfl⟩
    obtain ⟨hlt, hvalue, hrest⟩ := Cursor.faces_cons.mp hfaces
    have hmoved : (c.moved 1).moved x.octets.length = c.moved x.bytes.length := by
      rw [Cursor.moved_moved, Item.bytes, List.length_cons, Nat.add_comm]
    refine ⟨x.opcode.code, x.opcode, x.operand, runs_u8.mpr ⟨hlt, hvalue, rfl⟩,
      Opcode.ofCode?_code _, ?_, fun v hv => checkOperand_eq_ok.mpr (hrange v hv), ?_⟩
    · rw [← hmoved]
      exact (runs_operand (hc.next hlt)).mpr ⟨x.octets, hspells, hrest, rfl⟩
    · rw [Cursor.moved_data, Cursor.moved_position, Nat.add_sub_cancel_left, hfaces.window]
      rfl

/-- Asking for the position never fails. -/
theorem not_fails_position : ¬ Fails Reader.position c fault := by
  simp only [Reader.position, fails_bind, not_fails_get, not_fails_pure, and_false, exists_false,
    or_false, not_false_eq_true]

/-- A result that is taken over fails with its fault. -/
theorem fails_ofExcept {α : Type} {r : Except Fault α} :
    Fails (Reader.ofExcept r) c fault ↔ r = .error fault := by
  cases r with
  | ok a => simp [Reader.ofExcept]
  | error e => simp [Reader.ofExcept]

/-- At the end of its window, a read of an instruction fails for want of a byte. -/
theorem fails_readInstruction_of_end {base index : Nat} (hend : c.stop ≤ c.position) :
    Fails (readInstruction f base index) c fault ↔ fault = .shortRead 1 c.position c.stop := by
  simp only [readInstruction, fails_bind, not_fails_position, runs_position, false_or]
  constructor
  · rintro ⟨_, _, ⟨rfl, rfl⟩, h | ⟨_, _, hbyte, -⟩⟩
    · exact (fails_u8.mp h).2
    · exact absurd (runs_u8.mp hbyte).1 (Nat.not_lt_of_le hend)
  · rintro rfl
    exact ⟨_, _, ⟨rfl, rfl⟩, .inl (fails_u8.mpr ⟨hend, rfl⟩)⟩

/-- Behind a byte that is no opcode, a read of an instruction fails with it. -/
theorem fails_readInstruction_of_unknown {base index : Nat} {byte : UInt8}
    (hbyte : Runs Reader.u8 c byte (c.moved 1)) (hop : Opcode.ofCode? byte = none) :
    Fails (readInstruction f base index) c fault ↔ fault = .opcodeUnknown byte c.position := by
  simp only [readInstruction, fails_bind, not_fails_position, runs_position, false_or]
  constructor
  · rintro ⟨_, _, ⟨rfl, rfl⟩, h | ⟨_, _, hbyte', h⟩⟩
    · exact absurd h hbyte.not_fails
    · obtain ⟨rfl, rfl⟩ := hbyte'.unique hbyte
      rw [hop] at h
      exact (fails_throw.mp h).symm
  · rintro rfl
    refine ⟨_, _, ⟨rfl, rfl⟩, .inr ⟨byte, _, hbyte, ?_⟩⟩
    rw [hop]
    exact fails_throw.mpr rfl

/-- Behind an opcode, a read of an instruction fails with its operand or with the check of it. -/
theorem fails_readInstruction_of_opcode {base index : Nat} {opcode : Opcode}
    (hcode : Runs Reader.u8 c opcode.code (c.moved 1)) :
    Fails (readInstruction f base index) c fault ↔
      Fails (Reader.operand opcode.operandKind) (c.moved 1) fault ∨
        ∃ value c', Runs (Reader.operand opcode.operandKind) (c.moved 1) (some value) c' ∧
          checkOperand f opcode ⟨opcode.operandKind, value⟩ = .error fault := by
  simp only [readInstruction, fails_bind, not_fails_position, runs_position, false_or]
  -- The read of the bytes behind the check does not fail.
  have hrest (s : Cursor) (start : Nat) (o : Option Operand) : ¬ Fails (do
      let raw := (← get).data.window start ((← Reader.position) - start)
      return (⟨opcode, raw, index, start - base, o, 0, 0, none⟩ : Instruction) :
        Reader Instruction) s fault := by
    simp only [fails_bind, not_fails_get, not_fails_position, not_fails_pure, and_false, exists_false,
      or_false, not_false_eq_true]
  constructor
  · rintro ⟨_, _, ⟨rfl, rfl⟩, h | ⟨byte, _, hbyte, h⟩⟩
    · exact absurd h hcode.not_fails
    · obtain ⟨rfl, rfl⟩ := hbyte.unique hcode
      rw [Opcode.ofCode?_code] at h
      refine (fails_bind.mp h).imp_right ?_
      rintro ⟨value, c', hoperand, h⟩
      cases value with
      | none => exact absurd h (hrest _ _ _)
      | some v =>
        refine ⟨v, c', hoperand, fails_ofExcept.mp ((fails_bind.mp h).resolve_right ?_)⟩
        rintro ⟨_, _, -, h⟩
        exact hrest _ _ _ h
  · intro h
    refine ⟨_, _, ⟨rfl, rfl⟩, .inr ⟨opcode.code, _, hcode, ?_⟩⟩
    rw [Opcode.ofCode?_code]
    refine fails_bind.mpr (h.imp_right ?_)
    rintro ⟨value, c', hoperand, hcheck⟩
    exact ⟨some value, c', hoperand, fails_bind.mpr (.inl (fails_ofExcept.mpr hcheck))⟩

/-- A read of an instruction fails where no item lies ahead, with the fault that says what does. -/
theorem fails_readInstruction (hc : c.Inside) {base index : Nat} :
    Fails (readInstruction f base index) c fault ↔ Misread f c fault := by
  constructor
  · intro h
    by_cases hend : c.stop ≤ c.position
    · obtain rfl := (fails_readInstruction_of_end hend).mp h
      exact .nothing hend
    · have hlt := Nat.lt_of_not_le hend
      have hbyte := runs_u8.mpr ⟨hlt, rfl, rfl⟩
      have hface := Cursor.faces_cons.mpr ⟨hlt, rfl, Cursor.faces_nil (hc.next hlt)⟩
      cases hop : Opcode.ofCode? (c.data.getD c.position 0) with
      | none =>
        obtain rfl := (fails_readInstruction_of_unknown hbyte hop).mp h
        exact .unknown hface hop
      | some opcode =>
        rw [← code_of_ofCode? hop] at hbyte hface
        obtain h | ⟨value, c', hoperand, hcheck⟩ := (fails_readInstruction_of_opcode hbyte).mp h
        · exact .operand hface ((fails_operand (hc.next hlt)).mp h)
        · obtain ⟨octets, hspells, hfaces, -⟩ := (runs_operand (hc.next hlt)).mp hoperand
          have hbytes : c.Faces (Item.mk opcode octets (some value)).bytes :=
            Cursor.faces_cons.mpr ⟨hlt, code_of_ofCode? hop, hfaces⟩
          obtain ⟨hkind, hcount, rfl⟩ | ⟨pool, size, hpool, hsize, rfl⟩ := checkOperand_eq_error.mp hcheck
          · exact .beyondCount hspells hbytes hkind hcount
          · exact .beyondPool hspells hbytes hpool hsize
  · intro h
    -- An item whose operand is refused: its opcode and its operand are read.
    have hrefused {x : Item} {value : Nat} (hspells : x.opcode.operandKind.Spells x.octets (some value))
        (hfaces : c.Faces x.bytes)
        (hcheck : checkOperand f x.opcode ⟨x.opcode.operandKind, value⟩ = .error fault) :
        Fails (readInstruction f base index) c fault := by
      obtain ⟨hlt, hvalue, hrest⟩ := Cursor.faces_cons.mp hfaces
      exact (fails_readInstruction_of_opcode (runs_u8.mpr ⟨hlt, hvalue, rfl⟩)).mpr
        (.inr ⟨value, _, (runs_operand (hc.next hlt)).mpr ⟨_, hspells, hrest, rfl⟩, hcheck⟩)
    cases h with
    | nothing hend => exact (fails_readInstruction_of_end hend).mpr rfl
    | unknown hfaces hop =>
      obtain ⟨hlt, hvalue, -⟩ := Cursor.faces_cons.mp hfaces
      exact (fails_readInstruction_of_unknown (runs_u8.mpr ⟨hlt, hvalue, rfl⟩) hop).mpr rfl
    | operand hfaces hmisspelled =>
      obtain ⟨hlt, hvalue, -⟩ := Cursor.faces_cons.mp hfaces
      exact (fails_readInstruction_of_opcode (runs_u8.mpr ⟨hlt, hvalue, rfl⟩)).mpr
        (.inl ((fails_operand (hc.next hlt)).mpr hmisspelled))
    | beyondCount hspells hfaces hkind hcount =>
      exact hrefused hspells hfaces (checkOperand_eq_error.mpr (.inl ⟨hkind, hcount, rfl⟩))
    | beyondPool hspells hfaces hpool hsize =>
      exact hrefused hspells hfaces (checkOperand_eq_error.mpr (.inr ⟨_, _, hpool, hsize, rfl⟩))

/-- An instruction is read where an item lies ahead that does not take too many values. -/
theorem runs_step (hm : f.owner.DataClosed) (hc : c.Inside) {base index depth : Nat} {i : Instruction} :
    Runs (step f base index depth) c i c' ↔ ∃ x pops pushes, Item.Decoded x f c ∧
      f.arity? x = some (pops, pushes) ∧ pops ≤ depth ∧
      i = x.instruction index (c.position - base) depth (depth - pops + pushes) ∧
      c' = c.moved x.bytes.length := by
  simp only [step, runs_bind, runs_readInstruction_iff hc, runs_ofExcept]
  constructor
  · rintro ⟨_, _, ⟨x, hx, rfl, rfl⟩, ⟨pops, pushes⟩, _, ⟨heffect, rfl⟩, h⟩
    split at h
    · exact absurd h not_runs_throw
    · rename_i henough
      obtain ⟨rfl, rfl⟩ := runs_pure.mp h
      exact ⟨x, pops, pushes, hx, arity?_of_stackEffect heffect, Nat.le_of_not_lt henough, rfl, rfl⟩
  · rintro ⟨x, pops, pushes, hx, harity, henough, rfl, rfl⟩
    obtain ⟨_, _, harity', heffect⟩ := exists_stackEffect hm hx index (c.position - base) 0 0
    obtain ⟨rfl, rfl⟩ := Prod.mk.inj (Option.some.inj (harity.symm.trans harity'))
    refine ⟨_, _, ⟨x, hx, rfl, rfl⟩, (pops, pushes), _, ⟨heffect, rfl⟩, ?_⟩
    rw [if_neg (Nat.not_lt_of_le henough)]
    exact runs_pure.mpr ⟨rfl, rfl⟩

/-- A read of an instruction fails where no item lies ahead, and then where one takes too many values. -/
theorem fails_step (hm : f.owner.DataClosed) (hc : c.Inside) {base index depth : Nat} :
    Fails (step f base index depth) c fault ↔ Misread f c fault ∨ ∃ x pops pushes, Item.Decoded x f c ∧
      f.arity? x = some (pops, pushes) ∧ depth < pops ∧
      fault = .stackUnderflow f.name (x.instruction index (c.position - base) depth 0) pops := by
  simp only [step, fails_bind, fails_readInstruction hc, runs_readInstruction_iff hc, fails_ofExcept,
    runs_ofExcept]
  refine or_congr_right ?_
  constructor
  · rintro ⟨_, _, ⟨x, hx, rfl, rfl⟩, h⟩
    obtain ⟨pops, pushes, harity, heffect⟩ := exists_stackEffect hm hx index (c.position - base) 0 0
    obtain h | ⟨_, _, ⟨heffect', rfl⟩, h⟩ := h
    · rw [heffect] at h
      simp at h
    · obtain rfl := Except.ok.inj (heffect.symm.trans heffect')
      split at h
      · rename_i hshort
        exact ⟨x, pops, pushes, hx, harity, hshort, (fails_throw.mp h).symm⟩
      · exact absurd h not_fails_pure
  · rintro ⟨x, pops, pushes, hx, harity, hshort, rfl⟩
    obtain ⟨_, _, harity', heffect⟩ := exists_stackEffect hm hx index (c.position - base) 0 0
    obtain ⟨rfl, rfl⟩ := Prod.mk.inj (Option.some.inj (harity.symm.trans harity'))
    refine ⟨_, _, ⟨x, hx, rfl, rfl⟩, .inr ⟨(pops, pushes), _, ⟨heffect, rfl⟩, ?_⟩⟩
    rw [if_pos hshort]
    exact fails_throw.mpr rfl

end Body

end MoveBytecode
