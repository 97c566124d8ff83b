import MoveBytecode.Proofs.Format.Records
import MoveBytecode.Proofs.Loading.Decode

/-!
# What all readers have in common

The records of every table without code are read by a few primitive reads, refusals and one read after
another. A property of readers that these have and that their composition keeps (`Reader.Composes`) is
therefore one of all of them. That they refuse by the faults of a load (`Reader.composes_spares`) and that
they only move forward (`Reader.composes_advances`) are instances. As every record also has a first byte
(`Reader.Progresses`), the loop over the records of a table comes to its end by itself
(`Table.fills_readInto`).
-/

namespace MoveBytecode

/-! ## Refusals -/

/-- The classes by which a header is refused. -/
def FaultKind.isOfHeader : FaultKind → Bool
  | .unrecognizedFormat | .unsupportedVersion => true
  | _ => false

/-- The faults by which a load refuses what follows the header. -/
structure Fault.Refusal (fault : Fault) : Prop where
  loading : fault.kind.isLoading = true
  notOfHeader : fault.kind.isOfHeader = false

namespace Reader

/-! ## The walk over the readers -/

/-- A property of readers that the parts of readers have and that their composition keeps. A refusal
may name the position that was reached. -/
structure Composes (P : ∀ α : Type, Reader α → Prop) : Prop where
  pure : ∀ {α : Type} (a : α), P α (pure a)
  bind : ∀ {α β : Type} {r : Reader α} {f : α → Reader β}, P α r → (∀ a, P β (f a)) → P β (r >>= f)
  throw : ∀ {α : Type} {e : Fault}, e.Refusal → P α (throw e)
  throwAt : ∀ {α : Type} {e : Nat → Fault}, (∀ p, (e p).Refusal) →
    P α (position >>= fun p => MonadExcept.throw (e p))
  u8 : P UInt8 u8
  bytes : ∀ count : Int, P Bytes (bytes count)

namespace Composes

variable {P : ∀ α : Type, Reader α → Prop}

/-- Reading an unsigned number has the property. -/
theorem unsigned (hP : Composes P) (width : Nat) : P Nat (unsigned width) :=
  hP.bind (hP.bytes width) fun _ => hP.pure _

/-- Reading a number of 31 bits has the property. -/
theorem u31 (hP : Composes P) : P Nat u31 := by
  refine hP.bind (hP.unsigned 4) fun _ => ?_
  split
  · exact hP.throw ⟨rfl, rfl⟩
  · exact hP.pure _

/-- Reading groups of seven bits has the property. -/
theorem groups (hP : Composes P) (limit left : Nat) : P Nat (groups limit left) := by
  induction left with
  | zero => exact hP.throw ⟨rfl, rfl⟩
  | succ left ih =>
    refine hP.bind hP.u8 fun byte => ?_
    split
    · exact hP.pure _
    · exact hP.bind ih fun _ => hP.pure _

/-- Reading an index has the property. -/
theorem varu16 (hP : Composes P) : P Nat varu16 := by
  refine hP.bind (hP.groups 3 3) fun value => ?_
  split
  · exact hP.throw ⟨rfl, rfl⟩
  · exact hP.pure _

/-- Reading an operand has the property. -/
theorem operand (hP : Composes P) (kind : OperandKind) : P (Option Nat) (operand kind) := by
  cases kind with
  | none => exact hP.pure _
  | branch => exact hP.bind (hP.unsigned 2) fun _ => hP.pure _
  | immediate => exact hP.bind (hP.unsigned 8) fun _ => hP.pure _
  | localVar => exact hP.bind hP.u8 fun _ => hP.pure _
  | address | bytearray | string | functionHandle | fieldDef | structDef =>
    exact hP.bind hP.varu16 fun _ => hP.pure _

/-! ### Signatures -/

/-- Reading a token has the property. -/
theorem readWithin (hP : Composes P) (room : Nat) : P Token (Token.readWithin room) := by
  induction room with
  | zero => exact hP.throw ⟨rfl, rfl⟩
  | succ room ih =>
    refine hP.bind hP.u8 fun byte => ?_
    split_ifs
    · exact hP.pure _
    · exact hP.pure _
    · exact hP.pure _
    · exact hP.pure _
    · exact hP.bind ih fun _ => hP.pure _
    · exact hP.bind ih fun _ => hP.pure _
    · exact hP.bind hP.varu16 fun _ => hP.pure _
    · exact hP.pure _
    · exact hP.throw ⟨rfl, rfl⟩

/-- Reading a number of tokens has the property. -/
theorem readMany (hP : Composes P) (count : Nat) : P (List Token) (Token.readMany count) := by
  induction count with
  | zero => exact hP.pure _
  | succ count ih => exact hP.bind (hP.readWithin _) fun _ => hP.bind ih fun _ => hP.pure _

/-- Reading a list of tokens has the property. -/
theorem readList (hP : Composes P) : P (List Token) Token.readList :=
  hP.bind hP.u8 fun _ => hP.readMany _

/-- Expecting the kind of a signature has the property. -/
theorem expectKind (hP : Composes P) (kind : SignatureKind) : P Unit (Signature.expectKind kind) := by
  refine hP.bind hP.u8 fun byte => ?_
  split
  · exact hP.throw ⟨rfl, rfl⟩
  · exact hP.pure _

/-! ### Records -/

/-- Reading a length has the property. -/
theorem readLength (hP : Composes P) : P Int Table.readLength := by
  refine hP.bind (hP.bind (hP.groups 5 5) fun _ => hP.pure _) fun length => ?_
  split
  · exact hP.throwAt (e := fun p => .entryLength length p) fun _ => ⟨rfl, rfl⟩
  · exact hP.pure _

/-- Reading a text has the property. -/
theorem readString (hP : Composes P) : P String Table.readString := by
  refine hP.bind hP.readLength fun length => hP.bind (hP.bytes length) fun raw => ?_
  split
  · exact hP.pure _
  · exact hP.throwAt fun _ => ⟨rfl, rfl⟩

/-- The readers of the records without code. -/
theorem reader (hP : Composes P) (m : Module) {kind : TableKind} (hkind : kind.holdsCode = false) :
    P (Contents FunctionDef kind) (Table.reader m kind) := by
  -- Records of two or three numbers.
  have two {α : Type} (make : Nat → Nat → α) :
      P α (Reader.varu16 >>= fun a => Reader.varu16 >>= fun b => Pure.pure (make a b)) :=
    hP.bind hP.varu16 fun _ => hP.bind hP.varu16 fun _ => hP.pure _
  have three {α : Type} (make : Nat → Nat → Nat → α) :
      P α (Reader.varu16 >>= fun a => Reader.varu16 >>= fun b => Reader.varu16 >>= fun c =>
        Pure.pure (make a b c)) :=
    hP.bind hP.varu16 fun _ => hP.bind hP.varu16 fun _ => hP.bind hP.varu16 fun _ => hP.pure _
  cases kind with
  | moduleHandles => exact two ModuleHandle.mk
  | structHandles =>
    exact hP.bind hP.varu16 fun _ => hP.bind hP.varu16 fun _ => hP.bind hP.u8 fun _ => hP.pure _
  | functionHandles => exact three FunctionHandle.mk
  | addressPool => exact hP.bytes _
  | stringPool => exact hP.readString
  | bytearrayPool => exact hP.bind hP.readLength fun _ => hP.bytes _
  | structDefs => exact three StructDef.mk
  | fieldDefs => exact three FieldDef.mk
  | typeSignatures => exact hP.bind (hP.expectKind _) fun _ => hP.readWithin _
  | functionSignatures =>
    exact hP.bind (hP.expectKind _) fun _ => hP.bind hP.readList fun _ =>
      hP.bind hP.readList fun _ => hP.pure _
  | localSignatures => exact hP.bind (hP.expectKind _) fun _ => hP.readList
  | functionDefs | main => simp [TableKind.holdsCode] at hkind

end Composes

/-! ## Two properties of all readers -/

/-- Moving forward refuses only as a load refuses. -/
theorem spares_advance (count : Int) : Spares Fault.Refusal (advance count) := by
  refine spares_bind spares_get fun c => ?_
  split
  · exact spares_throw ⟨rfl, rfl⟩
  · exact spares_bind (spares_set _) fun _ => spares_pure _

/-- Refusing only as a load refuses is a property that composes. -/
theorem composes_spares : Composes fun _ r => Spares Fault.Refusal r where
  pure := spares_pure
  bind := spares_bind
  throw := spares_throw
  throwAt he := spares_bind (spares_bind spares_get fun _ => spares_pure _) fun p => spares_throw (he p)
  u8 := spares_bind (spares_advance 1) fun _ => spares_bind spares_get fun _ => spares_pure _
  bytes count := spares_bind (spares_advance count) fun _ => spares_bind spares_get fun _ => spares_pure _

/-- Moving forward within the data is a property that composes. -/
theorem composes_advances : Composes fun _ r => r.Advances where
  pure := advances_pure
  bind := Advances.bind
  throw _ := advances_throw _
  throwAt _ := fun c a c' h => by simp at h
  u8 := advances_u8
  bytes := advances_bytes

/-! ## Readers with a first byte -/

variable {α β : Type}

/-- A reader that moves forward, and not by nothing. -/
structure Progresses (r : Reader α) : Prop where
  advances : r.Advances
  lt : ∀ c a c', Runs r c a c' → c.position < c'.position

/-- A sequence moves forward by something if its first part does. -/
theorem Progresses.bind {r : Reader α} {f : α → Reader β} (hr : r.Progresses)
    (hf : ∀ a, (f a).Advances) : (r >>= f).Progresses := by
  refine ⟨hr.advances.bind hf, fun c b c' h => ?_⟩
  obtain ⟨a, d, ha, hb⟩ := runs_bind.mp h
  exact Nat.lt_of_lt_of_le (hr.lt c a d ha) (hf a d b c' hb).le

/-- Reading a byte moves forward by something. -/
theorem progresses_u8 : u8.Progresses := by
  refine ⟨advances_u8, fun c b c' h => ?_⟩
  obtain ⟨-, -, rfl⟩ := runs_u8.mp h
  exact Nat.lt_succ_self _

/-- Reading a positive number of bytes moves forward by something. -/
theorem progresses_bytes {count : Int} (hcount : 0 < count) : (bytes count).Progresses := by
  refine ⟨advances_bytes count, fun c b c' h => ?_⟩
  obtain ⟨-, -, -, rfl⟩ := runs_bytes.mp h
  simp only [Cursor.moved_position]
  omega

/-- Reading groups of seven bits moves forward by something. -/
theorem progresses_groups (limit left : Nat) : (groups limit left).Progresses := by
  cases left with
  | zero => exact ⟨advances_throw _, fun c a c' h => absurd h not_runs_throw⟩
  | succ left =>
    refine progresses_u8.bind fun byte => ?_
    split
    · exact advances_pure _
    · exact (advances_groups limit left).bind fun _ => advances_pure _

/-- Reading an index moves forward by something. -/
theorem progresses_varu16 : varu16.Progresses := by
  refine (progresses_groups 3 3).bind fun value => ?_
  split
  · exact advances_throw _
  · exact advances_pure _

end Reader

namespace Table

open Reader

/-- Reading a length moves forward by something. -/
theorem progresses_readLength : readLength.Progresses := by
  refine ((progresses_groups 5 5).bind fun _ => advances_pure _).bind fun length => ?_
  split
  · exact composes_advances.throwAt (e := fun p => .entryLength length p) fun _ => ⟨rfl, rfl⟩
  · exact advances_pure _

/-- Expecting the kind of a signature moves forward by something. -/
theorem progresses_expectKind (kind : SignatureKind) : (Signature.expectKind kind).Progresses := by
  refine progresses_u8.bind fun byte => ?_
  split
  · exact advances_throw _
  · exact advances_pure _

/-- Reading the header of a function moves forward by something. -/
theorem progresses_readFunctionHeader (m : Module) : (readFunctionHeader m).Progresses := by
  refine ⟨advances_readFunctionHeader m, fun c h c' hrun => ?_⟩
  obtain ⟨flags, d1, d2, d3, d4, h1, h2, -, h3, h4, h5, -, -⟩ := runs_readFunctionHeader.mp hrun
  have hrest := (advances_u8 _ _ _ h2).trans <| (advances_varu16 _ _ _ h3).trans <|
    (advances_varu16 _ _ _ h4).trans <| advances_unsigned 2 _ _ _ h5
  exact Nat.lt_of_lt_of_le (progresses_varu16.lt _ _ _ h1) hrest.le

/-! ## Functions -/

/-- A step of a body moves forward within the data. -/
theorem advances_step (f : Body.Frame) (base index depth : Nat) :
    (Body.step f base index depth).Advances := by
  intro c i c' h
  simp only [Body.step, runs_bind, runs_ofExcept] at h
  obtain ⟨j, d, hj, _, _, ⟨-, rfl⟩, h⟩ := h
  obtain ⟨byte, opcode, value, hbyte, -, hvalue, -, -⟩ := Body.runs_readInstruction.mp hj
  split at h
  · exact absurd h not_runs_throw
  · obtain ⟨-, rfl⟩ := runs_pure.mp h
    exact (advances_u8 _ _ _ hbyte).trans (advances_operand _ _ _ _ hvalue)

/-- A scan that comes to its end has moved forward within the data. -/
theorem reaches_scan {f : Body.Frame} {base count depth : Nat} {done : Array Instruction}
    {c : Cursor} (hs : (Body.scan f base count done depth c).1.fault = none) :
    c.Reaches (Body.scan f base count done depth c).2 := by
  induction count generalizing done depth c with
  | zero => exact .refl c
  | succ count ih =>
    unfold Body.scan at hs ⊢
    rcases hstep : (Body.step f base done.size depth).runAt c with ⟨fault | i, next⟩
    · simp [hstep] at hs
    · simp only [hstep] at hs ⊢
      exact (advances_step f base _ depth _ _ _ (runs_iff_runAt.mpr hstep)).trans (ih hs)

/-- Reading a body moves forward within the data. -/
theorem advances_read (f : Body.Frame) (count : Nat) : (Body.read f count).Advances := by
  intro c is c' h
  simp only [Body.read, runs_bind, runs_get, runs_set, runs_ofExcept] at h
  obtain ⟨_, _, ⟨rfl, rfl⟩, _, _, rfl, hfinish, rfl⟩ := h
  exact reaches_scan (Body.finish_eq_ok.mp hfinish).1

/-- Reading a function moves forward by something. -/
theorem progresses_readFunction (m : Module) : (readFunction m).Progresses := by
  refine (progresses_readFunctionHeader m).bind fun header => ?_
  refine Advances.bind (fun c p c' h => ?_) fun start => ?_
  · obtain ⟨-, rfl⟩ := runs_position.mp h
    exact .refl c
  refine Advances.bind (fun c frame c' h => ?_) fun frame =>
    (advances_read frame header.count).bind fun _ => advances_pure _
  obtain ⟨-, rfl⟩ := runs_ofExcept.mp h
  exact .refl c

/-- Every record has a first byte. -/
theorem progresses_reader (m : Module) (kind : TableKind) : (reader m kind).Progresses := by
  -- Every record starts with a number or a kind byte, so that it takes at least one byte.
  have number {α : Type} (f : Nat → Nat → Reader α) (hf : ∀ a b, (f a b).Advances) :
      (varu16 >>= fun a => varu16 >>= fun b => f a b).Progresses :=
    progresses_varu16.bind fun a => advances_varu16.bind fun b => hf a b
  have three {α : Type} (make : Nat → Nat → Nat → α) :
      (varu16 >>= fun a => varu16 >>= fun b => varu16 >>= fun c => pure (make a b c) :
        Reader α).Progresses :=
    number _ fun _ _ => advances_varu16.bind fun _ => advances_pure _
  cases kind with
  | moduleHandles => exact number _ fun _ _ => advances_pure _
  | structHandles => exact number _ fun _ _ => advances_u8.bind fun _ => advances_pure _
  | functionHandles => exact three FunctionHandle.mk
  | addressPool => exact progresses_bytes (by decide)
  | stringPool =>
    refine progresses_readLength.bind fun length => (advances_bytes length).bind fun raw => ?_
    split
    · exact advances_pure _
    · exact composes_advances.throwAt fun _ => ⟨rfl, rfl⟩
  | bytearrayPool => exact progresses_readLength.bind fun length => advances_bytes length
  | structDefs => exact three StructDef.mk
  | fieldDefs => exact three FieldDef.mk
  | typeSignatures =>
    exact (progresses_expectKind _).bind fun _ => composes_advances.readWithin _
  | functionSignatures =>
    exact (progresses_expectKind _).bind fun _ => composes_advances.readList.bind fun _ =>
      composes_advances.readList.bind fun _ => advances_pure _
  | localSignatures => exact (progresses_expectKind _).bind fun _ => composes_advances.readList
  | functionDefs | main => exact progresses_readFunction m

/-! ## The loop over the records of a table -/

variable {α : Type}

/-- Reading records into a pool until no byte is left ends with a result: without a bound on the number
of records. -/
inductive Fills (read : Reader α) : Cursor → Pool α → Except Fault (Pool α) → Prop
  | done {c : Cursor} {pool : Pool α} (hend : c.atEnd = true) : Fills read c pool (.ok pool)
  | fault {c c' : Cursor} {pool : Pool α} {fault : Fault} (hmore : c.atEnd = false)
      (hread : outcome read c = (.error fault, c')) : Fills read c pool (.error fault)
  | record {c c' : Cursor} {pool : Pool α} {record : α} {result : Except Fault (Pool α)}
      (hmore : c.atEnd = false) (hread : Runs read c record c')
      (hrest : Fills read c' (pool.add ⟨c.position, (c'.position - c.position : Nat)⟩ record) result) :
      Fills read c pool result

/-- Filling a pool reads one record and goes on with the rest, or ends at the end of the window. -/
theorem outcome_fill_succ (read : Reader α) (fuel : Nat) (pool : Pool α) (c : Cursor) :
    outcome (fill read (fuel + 1) pool) c =
      if c.atEnd then (.ok pool, c)
      else match outcome read c with
        | (.ok record, c') =>
          outcome (fill read fuel
            (pool.add ⟨c.position, (c'.position - c.position : Nat)⟩ record)) c'
        | (.error fault, c') => (.error fault, c') := by
  have hend : outcome Reader.atEnd c = (.ok c.atEnd, c) := rfl
  have hposition (d : Cursor) : outcome Reader.position d = (.ok d.position, d) := rfl
  rw [fill, outcome_bind, hend]
  cases c.atEnd with
  | true => rfl
  | false =>
    simp only [Bool.false_eq_true, if_false]
    rw [outcome_bind, hposition]
    simp only
    rw [outcome_bind]
    rcases outcome read c with ⟨fault | record, d⟩
    · rfl
    · simp only
      rw [outcome_bind, hposition]

/-- The loop ends, with what is read into the pool: every turn uses up a byte. -/
theorem fills_readInto {read : Reader α} (hread : read.Progresses) (c : Cursor) (pool : Pool α) :
    Fills read c pool (readInto c read pool) := by
  -- A record shortens what is left of the window, so that the bytes that are left bound the fuel.
  suffices general : ∀ fuel c pool, c.available ≤ fuel →
      Fills read c pool (outcome (fill read fuel pool) c).1 from
    general c.available c pool (Nat.le_refl _)
  intro fuel
  induction fuel with
  | zero =>
    intro c pool hfuel
    have hend : c.atEnd = true := by
      simp only [Cursor.available, Cursor.atEnd, decide_eq_true_eq] at hfuel ⊢
      omega
    exact .done hend
  | succ fuel ih =>
    intro c pool hfuel
    rw [outcome_fill_succ]
    cases hend : c.atEnd with
    | true => exact .done hend
    | false =>
      rcases hrun : outcome read c with ⟨fault | record, d⟩
      · exact .fault hend hrun
      · have hlt := hread.lt c record d hrun
        have hstop := (hread.advances c record d hrun).stop
        refine .record hend hrun (ih d _ ?_)
        simp only [Cursor.available, Cursor.atEnd, decide_eq_false_iff_not] at hfuel hend ⊢
        omega

end Table

end MoveBytecode
