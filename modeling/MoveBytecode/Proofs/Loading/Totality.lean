import MoveBytecode.Proofs.Loading.Mapping
import MoveBytecode.Proofs.Loading.Readers
import MoveBytecode.Proofs.Loading.Views

/-!
# Loads of whatever input

Every step of a load either goes on or refuses its input by one of the faults that loads have for it
(`Fault.Refusal`): the reads, the look-ups that they make on the way, and the checks. What comes after
them does not fail: the listing of the tables and the names of the routines only follow references that
have been checked, and the bytes of a segment are written where the segment was just made. So a load
ends with a module or with a fault of its own classes, and by a fault of the header exactly if there is no
header of a binary (`Module.load_classified`).
-/

namespace MoveBytecode

open Reader

/-! ## Bodies -/

/-- A sequence that throws at once refuses only as a load refuses if the fault does. -/
theorem raises_throw_bind {α β : Type} {fault : Fault} {f : α → Except Fault β} (h : fault.Refusal) :
    Raises Fault.Refusal (throw fault >>= f) :=
  raises_error h

/-- Looking up a pool refuses only as a load refuses. -/
theorem Pool.raises_get {α : Type} (p : Pool α) (index : Int) :
    Raises Fault.Refusal (p.get index) := by
  unfold Pool.get
  split
  · split
    · exact raises_ok _
    · exact raises_error ⟨rfl, rfl⟩
  · exact raises_error ⟨rfl, rfl⟩

/-- A sequence that looks up a pool first refuses only as a load refuses if the rest does. -/
theorem Pool.raises_get_bind {α β : Type} {p : Pool α} {index : Int} {f : Entry α → Except Fault β}
    (hf : ∀ e, Raises Fault.Refusal (f e)) : Raises Fault.Refusal (p.get index >>= f) :=
  (p.raises_get index).bind fun e _ => hf e

namespace Module

variable (m : Module)

/-- Looking up a string refuses only as a load refuses. -/
theorem raises_string (index : Int) : Raises Fault.Refusal (m.string index) :=
  Pool.raises_get_bind fun _ => raises_pure _

/-- Looking up a signature refuses only as a load refuses. -/
theorem raises_signatureOf (h : FunctionHandle) : Raises Fault.Refusal (m.signatureOf h) :=
  Pool.raises_get_bind fun _ => raises_pure _

/-- Looking up the name of a function refuses only as a load refuses. -/
theorem raises_functionName (h : FunctionHandle) : Raises Fault.Refusal (m.functionName h) := by
  refine (m.raises_string _).bind fun name _ => Pool.raises_get_bind fun owner => ?_
  refine (m.raises_string _).bind fun ownerName _ => ?_
  split
  · exact raises_pure _
  · exact raises_pure _

end Module

namespace Body

/-- Opening a body refuses only as a load refuses. -/
theorem raises_frame (m : Module) (handle locals : Nat) :
    Raises Fault.Refusal (frame m handle locals) := by
  refine Pool.raises_get_bind fun h => (m.raises_signatureOf _).bind fun signature _ => ?_
  refine Pool.raises_get_bind fun localTypes => Raises.bind ?_ fun _ _ => ?_
  · unfold checkLocals
    split
    · exact raises_error ⟨rfl, rfl⟩
    · exact raises_ok _
  · exact (m.raises_functionName _).bind fun name _ => raises_pure _

variable {f : Frame}

/-- The check of operands refuses only as a load refuses. -/
theorem raises_checkOperand (opcode : Opcode) (o : Operand) :
    Raises Fault.Refusal (checkOperand f opcode o) := by
  unfold checkOperand
  split
  · split
    · exact raises_error ⟨rfl, rfl⟩
    · exact raises_ok _
  · split
    · exact raises_ok _
    · split
      · exact raises_ok _
      · exact raises_error ⟨rfl, rfl⟩

/-- An instruction that was read has the operand of its opcode. -/
theorem answers_operandValue {i : Instruction} (h : Accepted f i)
    (hkind : i.opcode.operandKind ≠ .none) : Answers i.operandValue := by
  obtain ⟨o, ho⟩ := Option.isSome_iff_exists.mp (h.isSome.mpr hkind)
  unfold Instruction.operandValue
  rw [ho]
  exact answers_ok o.value

/-- The effect of an accepted instruction is refused only as a load refuses. -/
theorem raises_stackEffect {i : Instruction} (h : Accepted f i) :
    Raises Fault.Refusal (stackEffect f i) := by
  have hvalue (hkind : i.opcode.operandKind ≠ .none) : Raises Fault.Refusal i.operandValue :=
    (answers_operandValue h hkind).raises
  unfold stackEffect
  split
  case h_1 => exact raises_pure _
  case h_2 hop | h_3 hop =>
    exact (hvalue (by rw [hop]; decide)).bind fun _ _ =>
      Pool.raises_get_bind fun _ => raises_pure _
  case h_4 hop =>
    exact (hvalue (by rw [hop]; decide)).bind fun _ _ =>
      Pool.raises_get_bind fun _ => (f.owner.raises_signatureOf _).bind fun _ _ => raises_pure _
  case h_5 => exact raises_pure _

/-- An instruction that was read has an operand exactly if its opcode has one. -/
theorem accepted_of_readInstruction {base index : Nat} {c c' : Cursor} {i : Instruction}
    (h : Runs (readInstruction f base index) c i c') : Accepted f i := by
  obtain ⟨byte, opcode, value, -, -, hvalue, hcheck, rfl⟩ := runs_readInstruction.mp h
  refine ⟨by simpa using operand_isSome hvalue, fun o ho => ?_⟩
  obtain ⟨v, rfl, rfl⟩ := Option.map_eq_some_iff.mp ho
  exact ⟨rfl, operand_lt hvalue, hcheck v rfl⟩

/-- A result that is taken over refuses only as a load refuses if the result does. -/
theorem spares_ofExcept {α : Type} {r : Except Fault α} (h : Raises Fault.Refusal r) :
    Spares Fault.Refusal (Reader.ofExcept r) := by
  cases r with
  | ok a => exact spares_pure a
  | error e => exact spares_throw (h e rfl)

/-- Asking for the position refuses nothing. -/
theorem spares_position : Spares Fault.Refusal Reader.position :=
  spares_bind spares_get fun _ => spares_pure _

/-- Reading an instruction refuses only as a load refuses. -/
theorem spares_readInstruction (base index : Nat) :
    Spares Fault.Refusal (readInstruction f base index) := by
  refine spares_bind spares_position fun start => spares_bind composes_spares.u8 fun byte => ?_
  split
  · exact spares_throw ⟨rfl, rfl⟩
  · rename_i opcode _
    refine spares_bind (composes_spares.operand _) fun value => ?_
    have hrest : Spares Fault.Refusal (do
        let raw := (← get).data.window start ((← Reader.position) - start)
        return (⟨opcode, raw, index, start - base, value.map (Operand.mk opcode.operandKind), 0, 0,
          none⟩ : Instruction) : Reader Instruction) :=
      spares_bind spares_get fun _ => spares_bind spares_position fun _ => spares_pure _
    cases value with
    | none => exact hrest
    | some v => exact spares_bind (spares_ofExcept (raises_checkOperand _ _)) fun _ => hrest

/-- A step of a body refuses only as a load refuses. -/
theorem spares_step (base index depth : Nat) : Spares Fault.Refusal (step f base index depth) := by
  refine spares_bind_of_runs (spares_readInstruction base index) fun c i c' hi => ?_
  have heffect := raises_stackEffect (accepted_of_readInstruction hi)
  refine spares_bind (spares_ofExcept heffect) fun (pops, pushes) => ?_
  dsimp only
  split
  · exact spares_bind (spares_throw ⟨rfl, rfl⟩) fun _ => spares_pure _
  · exact spares_pure _

/-- What a scan reports is a refusal, and what it read are instructions with their operands. -/
theorem refusal_of_scan {base : Nat} {count : Nat} {done : Array Instruction} {depth : Nat}
    {c : Cursor} (hdone : ∀ i ∈ done, Accepted f i) :
    (∀ fault ∈ (scan f base count done depth c).1.fault, fault.Refusal) ∧
      ∀ i ∈ (scan f base count done depth c).1.instructions, Accepted f i := by
  induction count generalizing done depth c with
  | zero => exact ⟨by simp [scan], hdone⟩
  | succ count ih =>
    unfold scan
    rcases hstep : (step f base done.size depth).runAt c with ⟨fault | i, next⟩
    · refine ⟨fun e he => ?_, hdone⟩
      obtain rfl := Option.some.inj he
      exact spares_step base done.size depth c fault next hstep
    · refine ih fun j hj => ?_
      rcases Array.mem_push.mp hj with hj | rfl
      · exact hdone j hj
      · -- A step only adds the depths to what was read.
        simp only [step, ← Reader.runs_iff_runAt, runs_bind] at hstep
        obtain ⟨read, d, hread, _, _, -, h⟩ := hstep
        have haccepted := accepted_of_readInstruction hread
        split at h
        · exact absurd h not_runs_throw
        · obtain ⟨rfl, -⟩ := runs_pure.mp h
          exact ⟨haccepted.isSome, haccepted.operand⟩

/-- Resolving the branch of an accepted instruction refuses only as a load refuses. -/
theorem raises_resolveBranch (name : String) (body : Array Instruction) {i : Instruction}
    (h : Accepted f i) : Raises Fault.Refusal (resolveBranch name body i) := by
  unfold resolveBranch
  split
  · rename_i hbranch
    have hkind : i.opcode.operandKind = .branch := Opcode.isBranch_iff.mp hbranch
    refine (answers_operandValue h (by simp [hkind])).raises.bind fun target _ => ?_
    split
    · exact raises_pure _
    · exact raises_error ⟨rfl, rfl⟩
  · exact raises_pure _

/-- Reading a body refuses only as a load refuses. -/
theorem spares_read (count : Nat) : Spares Fault.Refusal (read f count) := by
  refine spares_bind spares_get fun c => ?_
  obtain ⟨hfault, haccepted⟩ :=
    @refusal_of_scan f c.position count #[] 0 c (by simp)
  rcases hscan : scan f c.position count #[] 0 c with ⟨s, next⟩
  rw [hscan] at hfault haccepted
  refine spares_bind (spares_set _) fun _ => spares_ofExcept ?_
  have hmap : Raises Fault.Refusal (s.instructions.toList.mapM (resolveBranch f.name s.instructions)) :=
    raises_mapM fun i hi => raises_resolveBranch _ _ (haccepted i (Array.mem_def.mpr hi))
  unfold Scan.finish
  dsimp only
  split
  · rename_i fault hs
    exact raises_throw_bind (hfault fault hs)
  · split
    · exact raises_throw_bind ⟨rfl, rfl⟩
    · exact hmap

end Body

namespace Table

/-- Reading the header of a function refuses only as a load refuses. -/
theorem spares_readFunctionHeader (m : Module) : Spares Fault.Refusal (readFunctionHeader m) := by
  have hvaru16 := composes_spares.varu16
  refine spares_bind hvaru16 fun handle => spares_bind composes_spares.u8 fun flags => ?_
  refine spares_bind hvaru16 fun maxStack => spares_bind hvaru16 fun locals => ?_
  refine spares_bind (composes_spares.unsigned 2) fun count => ?_
  have hlocals {α : Type} (x : Reader α) (hx : Spares Fault.Refusal x) :
      Spares Fault.Refusal (if !m.localSignatures.containsIndex locals then
        (throw (.localsUnknown locals) : Reader Unit) >>= fun _ => x else x) := by
    split
    · exact spares_bind (spares_throw ⟨rfl, rfl⟩) fun _ => hx
    · exact hx
  dsimp only
  split
  · exact spares_bind (spares_throw ⟨rfl, rfl⟩) fun _ => hlocals _ (spares_pure _)
  · exact hlocals _ (spares_pure _)

/-- Reading a function refuses only as a load refuses. -/
theorem spares_readFunction (m : Module) : Spares Fault.Refusal (readFunction m) := by
  refine spares_bind (spares_readFunctionHeader m) fun header => ?_
  refine spares_bind Body.spares_position fun start => ?_
  refine spares_bind (Body.spares_ofExcept (Body.raises_frame m _ _)) fun frame => ?_
  exact spares_bind (Body.spares_read header.count) fun is => spares_pure _

/-- Reading a record of any kind refuses only as a load refuses. -/
theorem spares_reader (m : Module) (kind : TableKind) : Spares Fault.Refusal (reader m kind) := by
  cases hkind : kind.holdsCode with
  | false => exact composes_spares.reader m hkind
  | true =>
    cases kind with
    | functionDefs | main => exact spares_readFunction m
    | _ => simp [TableKind.holdsCode] at hkind

/-- Filling a pool refuses only as a load refuses if its reader does. -/
theorem spares_fill {α : Type} {read : Reader α} (hread : Spares Fault.Refusal read) (fuel : Nat)
    (pool : Pool α) : Spares Fault.Refusal (fill read fuel pool) := by
  induction fuel generalizing pool with
  | zero => exact spares_pure _
  | succ fuel ih =>
    refine spares_bind (spares_bind spares_get fun _ => spares_pure _) fun ended => ?_
    split
    · exact spares_pure _
    · refine spares_bind Body.spares_position fun start => spares_bind hread fun record => ?_
      exact spares_bind Body.spares_position fun stop => ih _

/-- Reading a table refuses only as a load refuses if the reader of its records does. -/
theorem raises_readInto {α : Type} {read : Reader α} (hread : Spares Fault.Refusal read) (c : Cursor)
    (pool : Pool α) : Raises Fault.Refusal (readInto c read pool) :=
  (spares_fill hread c.available pool).raises c

/-- Making a cursor refuses only as a load refuses. -/
theorem raises_make (data : Bytes) (start : Int) (stop : Option Int) :
    Raises Fault.Refusal (Cursor.make data start stop) := by
  unfold Cursor.make
  dsimp only
  split
  · exact raises_error ⟨rfl, rfl⟩
  · exact raises_ok _

/-- Decoding a table refuses only as a load refuses. -/
theorem raises_decode (m : Module) (s : Section) : Raises Fault.Refusal (decode m s) := by
  refine (raises_make _ _ _).bind fun c _ => ?_
  -- Nearly all tables only fill a pool, with the reader of their kind.
  have fill (kind : TableKind) (pool : Pool (Contents FunctionDef kind))
      (into : Pool (Contents FunctionDef kind) → Module) :
      Raises Fault.Refusal (readInto c (reader m kind) pool >>= fun pool => pure (into pool)) :=
    (raises_readInto (spares_reader m kind) c pool).bind fun _ _ => raises_pure _
  cases s.kind with
  | moduleHandles => exact fill .moduleHandles m.moduleHandles _
  | structHandles => exact fill .structHandles m.structHandles _
  | functionHandles => exact fill .functionHandles m.functionHandles _
  | addressPool =>
    dsimp only
    split
    · exact raises_throw_bind ⟨rfl, rfl⟩
    · exact fill .addressPool m.addresses _
  | stringPool => exact fill .stringPool m.strings _
  | bytearrayPool => exact fill .bytearrayPool m.bytearrays _
  | structDefs => exact fill .structDefs m.structDefs _
  | fieldDefs => exact fill .fieldDefs m.fieldDefs _
  | typeSignatures => exact fill .typeSignatures m.typeSignatures _
  | functionSignatures => exact fill .functionSignatures m.functionSignatures _
  | localSignatures => exact fill .localSignatures m.localSignatures _
  | functionDefs => exact fill .functionDefs m.functionDefs _
  | main =>
    have hread : Spares Fault.Refusal (readMain m) :=
      spares_bind Body.spares_position fun start => spares_bind (spares_readFunction m) fun record =>
        spares_bind Body.spares_position fun stop => spares_pure _
    have hmain : Raises Fault.Refusal (((readMain m).runAt c).1 >>= fun f =>
        pure { m with main := some f }) := (hread.raises c).bind fun _ _ => raises_pure _
    dsimp only
    split
    · exact raises_throw_bind ⟨rfl, rfl⟩
    · exact hmain

end Table

/-- Reading the directory refuses only as a load refuses. -/
theorem Directory.spares_read : Spares Fault.Refusal Directory.read := by
  have hentry : Spares Fault.Refusal Directory.readSection := by
    refine spares_bind composes_spares.u8 fun byte => ?_
    split
    · exact spares_throw ⟨rfl, rfl⟩
    · refine spares_bind composes_spares.u31 fun offset => spares_bind composes_spares.u31 fun size => ?_
      refine spares_bind spares_get fun c => ?_
      dsimp only
      split
      · exact spares_bind (spares_throw ⟨rfl, rfl⟩) fun _ => spares_pure _
      · exact spares_pure _
  refine spares_bind composes_spares.u8 fun count => ?_
  induction count.toNat with
  | zero => exact spares_pure []
  | succ count ih =>
    exact spares_bind hentry fun entry => spares_bind ih fun entries => spares_pure _

namespace Module

/-- The check of references refuses only as a load refuses. -/
theorem raises_checkReferences (m : Module) : Raises Fault.Refusal m.checkReferences := by
  unfold checkReferences
  split
  · rename_i reference _
    refine raises_error ?_
    cases reference with
    | entry => exact ⟨rfl, rfl⟩
    | fields => exact ⟨rfl, rfl⟩
  · exact raises_ok _

/-- Resolving the kind of a module refuses only as a load refuses. -/
theorem raises_resolveKind (m : Module) : Raises Fault.Refusal m.resolveKind := by
  unfold resolveKind
  split
  · split
    · exact raises_error ⟨rfl, rfl⟩
    · exact raises_ok _
  · split
    · exact raises_ok _
    · exact raises_ok _

/-- Reading the tables refuses only as a load refuses. -/
theorem raises_readTables (m : Module) : Raises Fault.Refusal m.readTables := by
  refine (raises_foldlM Table.raises_decode _ _).bind fun n _ => ?_
  refine n.raises_checkReferences.bind fun _ _ => ?_
  exact (raises_foldlM Table.raises_decode _ _).bind fun o _ => o.raises_resolveKind

/-- Behind a header, what is refused is not the header. -/
theorem raises_decode {data : Bytes} {magic : Magic} (h : Header.check data = .ok magic) :
    Raises Fault.Refusal (decode data) := by
  have hdirectory : Raises Fault.Refusal (readDirectory data) := by
    unfold readDirectory
    rw [h]
    refine (Table.raises_make data Header.size none).bind fun c _ => ?_
    exact (Directory.spares_read.raises c).bind fun sections _ => raises_pure _
  exact hdirectory.bind fun m _ => m.raises_readTables

end Module

/-- The check of the header refuses as headers are refused. -/
theorem Header.kind_of_check {data : Bytes} {fault : Fault} (h : check data = .error fault) :
    fault.kind.isLoading = true ∧ fault.kind.isOfHeader = true := by
  unfold check at h
  split at h
  · obtain rfl := Except.error.inj h
    exact ⟨rfl, rfl⟩
  · split at h
    · obtain rfl := Except.error.inj h
      exact ⟨rfl, rfl⟩
    · dsimp only at h
      split at h
      · simp at h
      · obtain rfl := Except.error.inj h
        exact ⟨rfl, rfl⟩

/-! ## Memory -/

/-- A segment that goes from one address to another. -/
def Segment.Spans (s : Segment) (base stop : Int) : Prop := s.base = base ∧ s.stop = stop

/-- A segment that spans a range contains what is within the range. -/
theorem Segment.Spans.contains {s : Segment} {base stop address : Int} {bytes : Bytes}
    (h : s.Spans base stop) (hbase : base ≤ address) (hstop : address + bytes.size ≤ stop) :
    s.contains address bytes.size = true := by
  rw [Segment.contains, h.1, h.2, Bool.and_eq_true, decide_eq_true_eq, decide_eq_true_eq]
  exact ⟨hbase, hstop⟩

namespace Host

/-- Where a segment spans the addresses, bytes are written, to it or to one in front of it, and every
segment keeps its addresses. -/
theorem exists_writeFirst {segments : List Segment} {s : Segment} {address : Int} {bytes : Bytes}
    (hs : s ∈ segments) (h : s.contains address bytes.size = true) :
    ∃ written, writeFirst address bytes segments = some written ∧
      ∀ base stop, (∃ t ∈ segments, t.Spans base stop) → ∃ t ∈ written, t.Spans base stop := by
  induction segments with
  | nil => simp at hs
  | cons first rest ih =>
    unfold writeFirst
    cases hfirst : first.contains address bytes.size with
    | true =>
      refine ⟨_, rfl, fun base stop ⟨t, ht, hspans⟩ => ?_⟩
      rcases List.mem_cons.mp ht with rfl | ht
      · exact ⟨_, List.mem_cons_self, hspans⟩
      · exact ⟨t, List.mem_cons_of_mem _ ht, hspans⟩
    | false =>
      -- The first segment does not take the bytes, so that one behind it does.
      have hs : s ∈ rest := by
        rcases List.mem_cons.mp hs with rfl | hs
        · simp [h] at hfirst
        · exact hs
      obtain ⟨written, hwritten, hkeeps⟩ := ih hs
      refine ⟨first :: written, by simp [hwritten], fun base stop ⟨t, ht, hspans⟩ => ?_⟩
      rcases List.mem_cons.mp ht with rfl | ht
      · exact ⟨_, List.mem_cons_self, hspans⟩
      · obtain ⟨u, hu, hspans⟩ := hkeeps base stop ⟨t, ht, hspans⟩
        exact ⟨u, List.mem_cons_of_mem _ hu, hspans⟩

/-- What is within a range that a segment spans can be written, and a segment still spans the range. -/
theorem exists_write {h : Host} {base stop address : Int} {bytes : Bytes}
    (hspans : ∃ s ∈ h.segments, s.Spans base stop) (hbase : base ≤ address)
    (hstop : address + bytes.size ≤ stop) :
    ∃ h', h.write address bytes = .ok h' ∧ ∃ s ∈ h'.segments, s.Spans base stop := by
  obtain ⟨s, hs, hs'⟩ := hspans
  obtain ⟨written, hwritten, hkeeps⟩ := exists_writeFirst hs (hs'.contains hbase hstop)
  refine ⟨{ h with segments := written }, ?_, hkeeps base stop ⟨s, hs, hs'⟩⟩
  rw [write, hwritten]

end Host

namespace Module

/-- Contents within the addresses of a segment are written there. -/
theorem answers_publishSegment {name : String} {base stop : Int} {contents : List (Int × Bytes)}
    (hcontents : ∀ c ∈ contents, base ≤ c.1 ∧ c.1 + c.2.size ≤ stop) (h : Host) :
    Answers (publishSegment name base stop contents h) := by
  unfold publishSegment
  split
  · exact answers_ok h
  · -- Every write finds the new segment, if it does not find one in front of it.
    have hfold : ∀ h : Host, (∃ s ∈ h.segments, s.Spans base stop) →
        Answers (contents.foldlM (fun h content =>
          if content.2.isEmpty then .ok h else h.write content.1 content.2) h) := by
      induction contents with
      | nil => exact fun h _ => answers_pure h
      | cons c rest ih =>
        intro h hspans
        have hrest := ih fun c hc => hcontents c (List.mem_cons_of_mem _ hc)
        obtain ⟨hbase, hstop⟩ := hcontents c List.mem_cons_self
        rw [List.foldlM_cons]
        split
        · exact answers_bind_of_ok rfl (hrest h hspans)
        · obtain ⟨h', hwrite, hspans'⟩ := Host.exists_write hspans hbase hstop
          exact answers_bind_of_ok hwrite (hrest h' hspans')
    refine hfold _ ⟨_, List.mem_append_right _ (List.mem_singleton.mpr rfl), rfl, ?_⟩
    simp only [Segment.stop, Segment.make]
    omega

end Module

/-! ## Places -/

section

variable {α : Type} {size : α → Nat} {base : Int} {p : Pool α}

/-- A pool that is mapped ends as many addresses behind its base as its records have bytes. -/
theorem Pool.mapFrom_snd : (p.mapFrom size base).2 =
    base + ((p.toList.map fun e => size e.record).sum : Nat) := by
  simp [Pool.mapFrom, Entry.mapFrom_eq]

/-- A pool that is mapped does not end in front of its base. -/
theorem Pool.le_mapFrom_snd : base ≤ (p.mapFrom size base).2 := by
  rw [Pool.mapFrom_snd]
  omega

/-- The entries of a pool that is mapped are between the base and the end. -/
theorem Pool.mapping_of_mem_mapFrom {e : Entry α} (h : e ∈ (p.mapFrom size base).1.toList) :
    base ≤ e.mapping.start ∧ e.mapping.start + size e.record ≤ (p.mapFrom size base).2 := by
  rw [Pool.mapFrom_fst] at h
  obtain ⟨hsize, hstart, hstop⟩ := Entry.mapping_of_mem_placedFrom h
  rw [Extent.stop, hsize] at hstop
  rw [Pool.mapFrom_snd]
  exact ⟨hstart, hstop⟩

end

namespace CodeUnit

/-- A body has as many bytes as its size says. -/
theorem size_bytes (c : CodeUnit) : c.bytes.size = c.size := by
  have general : ∀ (l : List Instruction) (done : Bytes),
      (l.foldl (fun bytes i => bytes ++ i.raw) done).size = done.size + Instruction.totalSize l := by
    intro l
    induction l with
    | nil => exact fun done => rfl
    | cons i rest ih =>
      intro done
      rw [List.foldl_cons, ih, Array.size_append, Instruction.totalSize, Instruction.size, Nat.add_assoc]
  rw [bytes, general, size]
  simp

end CodeUnit

namespace Module

variable {config : Config} {m : Module}

/-- The constants of a module that is laid out are those of the module whose constants are mapped. -/
theorem dataEntries_layOut (config : Config) (m : Module) :
    (m.layOut config).1.dataEntries = (m.mapData config.dataBase).1.dataEntries := by
  simp only [layOut, mapImports, mapHandles, mapFunctions]
  split <;> rfl

/-- The constants of a module that is laid out are within the addresses of the constants. -/
theorem mapping_of_mem_dataEntries {e : Entry Datum} (h : e ∈ (m.layOut config).1.dataEntries) :
    config.dataBase ≤ e.mapping.start ∧
      e.mapping.start + e.record.bytes.size ≤ (m.layOut config).2.data := by
  rw [dataEntries_layOut] at h
  change _ ∧ _ ≤ (m.mapData config.dataBase).2
  -- The addresses come first, then the byte arrays, then the texts.
  rcases ha : m.addresses.mapFrom (fun v => (Datum.address v).bytes.size) config.dataBase with
    ⟨addresses, next⟩
  rcases hb : m.bytearrays.mapFrom (fun v => (Datum.bytearray v).bytes.size) next with
    ⟨bytearrays, next'⟩
  rcases hs : m.strings.mapFrom (fun v => (Datum.text v).bytes.size) next' with ⟨strings, stop⟩
  have hle := @Pool.le_mapFrom_snd _ (fun v => (Datum.address v).bytes.size) config.dataBase m.addresses
  have hle' := @Pool.le_mapFrom_snd _ (fun v => (Datum.bytearray v).bytes.size) next m.bytearrays
  have hle'' := @Pool.le_mapFrom_snd _ (fun v => (Datum.text v).bytes.size) next' m.strings
  have hin {e} := @Pool.mapping_of_mem_mapFrom _ (fun v => (Datum.address v).bytes.size)
    config.dataBase m.addresses e
  have hin' {e} := @Pool.mapping_of_mem_mapFrom _ (fun v => (Datum.bytearray v).bytes.size) next
    m.bytearrays e
  have hin'' {e} := @Pool.mapping_of_mem_mapFrom _ (fun v => (Datum.text v).bytes.size) next' m.strings e
  simp only [ha, hb, hs] at hle hle' hle'' hin hin' hin''
  simp only [mapData, ha, hb, hs, dataEntries, List.mem_append, List.mem_map] at h ⊢
  rcases h with ⟨e, he, rfl⟩ | ⟨e, he, rfl⟩ | ⟨e, he, rfl⟩
  · have := hin he
    simp only [Entry.map]
    omega
  · have := hin' he
    simp only [Entry.map]
    omega
  · have := hin'' he
    simp only [Entry.map]
    omega

/-- The functions end as many addresses behind their base as their bodies have bytes. -/
theorem mapFunctions_snd (m : Module) (base : Int) : (m.mapFunctions base).2 =
    base + ((m.internalFunctions.map fun f => f.record.code.size).sum : Nat) := by
  cases hmain : m.main with
  | some main => simp [mapFunctions, internalFunctions, hmain]
  | none =>
    simp only [mapFunctions, internalFunctions, hmain]
    exact Pool.mapFrom_snd

/-- The bodies of a module that is laid out are within the addresses of the code. -/
theorem mapping_of_mem_internalFunctions {f : Entry FunctionDef}
    (h : f ∈ (m.layOut config).1.internalFunctions) :
    config.codeBase ≤ f.mapping.start ∧
      f.mapping.start + f.record.code.bytes.size ≤ (m.layOut config).2.code := by
  rw [internalFunctions_layOut] at h
  obtain ⟨hsize, hstart, hstop⟩ := Entry.mapping_of_mem_placedFrom h
  rw [Extent.stop, hsize] at hstop
  rw [CodeUnit.size_bytes]
  have hcode : (m.layOut config).2.code =
      config.codeBase + ((m.internalFunctions.map fun f => f.record.code.size).sum : Nat) :=
    mapFunctions_snd (m.mapData config.dataBase).1 config.codeBase
  rw [hcode]
  exact ⟨hstart, hstop⟩

/-! ## Publication -/

/-- A fold whose steps all succeed succeeds. -/
theorem answers_foldlM {α : Type} {step : Host → α → Except Fault Host} {l : List α}
    (hstep : ∀ h, ∀ a ∈ l, Answers (step h a)) (h : Host) : Answers (l.foldlM step h) := by
  induction l generalizing h with
  | nil => exact answers_pure h
  | cons a rest ih =>
    rw [List.foldlM_cons]
    exact (hstep h a List.mem_cons_self).bind fun h' _ =>
      ih (fun h a ha => hstep h a (List.mem_cons_of_mem _ ha)) h'

/-- The layout of a module with closed references is published to any host. -/
theorem answers_publish (hm : (m.layOut config).1.Closed) (h : Host) :
    Answers ((m.layOut config).1.publish config (m.layOut config).2 h) := by
  have hdata (h : Host) : Answers
      ((m.layOut config).1.publishData config.dataBase (m.layOut config).2.data h) := by
    refine answers_publishSegment (fun c hc => ?_) _
    obtain ⟨e, he, rfl⟩ := List.mem_map.mp hc
    exact mapping_of_mem_dataEntries he
  have hcode (h : Host) : Answers
      ((m.layOut config).1.publishCode config.codeBase (m.layOut config).2.code h) := by
    refine (answers_foldlM (fun h f hf => ?_) h).bind fun h _ => answers_publishSegment (fun c hc => ?_) h
    · exact (hm.nameOf (record_mem_functions hf)).bind fun name _ => answers_pure _
    · obtain ⟨f, hf, rfl⟩ := List.mem_map.mp hc
      exact mapping_of_mem_internalFunctions hf
  refine (hdata _).bind fun h _ => (hcode h).bind fun h _ => ?_
  refine (answers_foldlM (fun h e he => ?_) h).bind fun h _ => answers_publishSegment (by simp) h
  have hrecord : e.record ∈ (m.layOut config).1.functionHandles.records :=
    List.mem_map_of_mem (List.mem_filter.mp he).1
  exact (hm.functionName hrecord).bind fun name _ => answers_pure _

/-! ## Loads -/

/-- How a load ends: with a result, or with a fault of the classes of loads, which is one of the header
exactly if the input does not begin with the header of a binary. -/
structure Classified {α : Type} (data : Bytes) (x : Except Fault α) : Prop where
  ends : (∃ a, x = .ok a) ∨ ∃ fault, x = .error fault ∧ fault.kind.isLoading = true
  header : (∃ fault, x = .error fault ∧ fault.kind.isOfHeader = true) ↔ Header.identify data = false

/-- What follows the decoding of a load may rely on what decoding leaves. -/
theorem classified_of_answers {α : Type} {data : Bytes} {rest : Module → Except Fault α}
    (hrest : ∀ m, decode data = .ok m → Answers (rest m)) : Classified data (decode data >>= rest) := by
  cases hcheck : Header.check data with
  | error fault =>
    have hidentify : Header.identify data = false := by rw [Header.identify, hcheck]
    obtain ⟨hloading, hheader⟩ := Header.kind_of_check hcheck
    have hload : decode data >>= rest = .error fault := by
      unfold decode readDirectory
      rw [hcheck]
      rfl
    exact ⟨.inr ⟨fault, hload, hloading⟩, fun _ => hidentify, fun _ => ⟨fault, hload, hheader⟩⟩
  | ok magic =>
    have hidentify : Header.identify data = true := by rw [Header.identify, hcheck]
    have hrefusal : Raises Fault.Refusal (decode data >>= rest) :=
      (raises_decode hcheck).bind fun m hm => (hrest m hm).raises
    refine ⟨?_, fun ⟨fault, hfault, hheader⟩ => ?_, fun h => ?_⟩
    · cases hload : decode data >>= rest with
      | ok a => exact .inl ⟨a, rfl⟩
      | error fault => exact .inr ⟨fault, rfl, (hrefusal fault hload).loading⟩
    · simp [(hrefusal fault hfault).notOfHeader] at hheader
    · simp [hidentify] at h

/-- A module that was decoded can be listed. -/
theorem answers_dump {data : Bytes} (hm : decode data = .ok m) (config : Config) :
    Answers (m.dump config) := by
  unfold dump
  split
  · exact (decoded_of_decode hm).1.closed.showTables.bind fun _ _ => answers_pure _
  · exact answers_pure _

/-- Loading into a host ends with a module or with a fault of loading, which is one of the header iff the
bytes are not those of a binary. -/
theorem classified_loadInto (config : Config) (data : Bytes) (h : Host) :
    Classified data (loadInto config data h) := by
  refine classified_of_answers fun m hm => (answers_dump hm config).bind fun _ _ => ?_
  have hclosed := ((decoded_of_decode hm).1.layOut config).closed
  exact (answers_publish hclosed h).bind fun h' _ => answers_pure _

/-- Whatever the input and the configuration, a load ends, with a module or with a fault of the classes of
loads, also where the layout is published to a host; the header is refused exactly if it is not that
of a binary. The loop over the records of a table ends for every kind of records and from every
cursor. -/
theorem load_classified (config : Config) (data : Bytes) :
    Classified data (load config data) ∧ (∀ h : Host, Classified data (loadInto config data h)) ∧
      ∀ (m : Module) (kind : TableKind) (c : Cursor) (pool : Pool (Contents FunctionDef kind)),
        Table.Fills (Table.reader m kind) c pool (Table.readInto c (Table.reader m kind) pool) := by
  refine ⟨?_, classified_loadInto config data,
    fun m kind => Table.fills_readInto (Table.progresses_reader m kind)⟩
  exact classified_of_answers fun m hm => (answers_dump hm config).bind fun _ _ => answers_pure _

end Module

end MoveBytecode
