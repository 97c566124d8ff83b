import MoveBytecode.Proofs.Loading.Matching

/-!
# Reading no more than is used up

A reader that ends with a value looks at no byte behind those that it moves over, and not at the bound of
its window either: a window that ends behind these bytes is as good as any other (`Reader.Confines`).
The parts of readers have this property and their composition keeps it, so that it is one of the readers
of all records, functions with their bodies included (`Table.confines_reader`).

The readers of functions look at a module as well, of which only the records matter
(`Table.runs_reader_of_sameRecords`).
-/

namespace MoveBytecode

open Reader

variable {α β : Type}

/-! ## Confined readers -/

namespace Cursor

/-- A cursor at the same place of the same data, whatever its window. -/
structure Beside (c d : Cursor) : Prop where
  data : d.data = c.data
  position : d.position = c.position

/-- Cursors beside each other stay so when both move by the same number of bytes. -/
theorem Beside.moved {c d : Cursor} (h : c.Beside d) (count : Nat) : (c.moved count).Beside (d.moved count) :=
  ⟨h.data, congrArg (· + count) h.position⟩

end Cursor

namespace Reader

/-- Where a reader ends with a value, it ends with this value in every window that holds the bytes that it
has moved over. -/
def Confines (r : Reader α) : Prop :=
  ∀ c a c', Runs r c a c' → ∃ count, c' = c.moved count ∧
    ∀ d : Cursor, c.Beside d → d.position + count ≤ d.stop → Runs r d a (d.moved count)

/-- Returning a value looks at no byte. -/
theorem confines_pure (a : α) : (pure a : Reader α).Confines := by
  intro c b c' hrun
  obtain ⟨rfl, rfl⟩ := runs_pure.mp hrun
  exact ⟨0, rfl, fun d _ _ => runs_pure.mpr ⟨rfl, rfl⟩⟩

/-- Throwing a fault ends with no value. -/
theorem confines_throw (fault : Fault) : (throw fault : Reader α).Confines :=
  fun _ _ _ hrun => absurd hrun not_runs_throw

/-- A sequence looks at no byte but those that its parts move over. -/
theorem Confines.bind {r : Reader α} {f : α → Reader β} (hr : r.Confines) (hf : ∀ a, (f a).Confines) :
    (r >>= f).Confines := by
  intro c b c' hrun
  obtain ⟨a, _, ha, hb⟩ := runs_bind.mp hrun
  obtain ⟨m, rfl, hr⟩ := hr c a _ ha
  obtain ⟨n, rfl, hf⟩ := hf a _ b c' hb
  refine ⟨m + n, Cursor.moved_moved _ _ _, fun d hd hroom => runs_bind.mpr ⟨a, d.moved m, ?_, ?_⟩⟩
  · exact hr d hd (by omega)
  · rw [← Cursor.moved_moved]
    refine hf _ (hd.moved m) ?_
    simp only [Cursor.moved_position, Cursor.moved_stop]
    omega

/-- Asking for the position looks at no byte. -/
theorem confines_position : position.Confines := by
  intro c p c' hrun
  obtain ⟨rfl, rfl⟩ := runs_position.mp hrun
  exact ⟨0, rfl, fun d hd _ => runs_position.mpr ⟨hd.position, rfl⟩⟩

/-- Taking over a result looks at no byte. -/
theorem confines_ofExcept (x : Except Fault α) : (ofExcept x).Confines := by
  intro c a c' hrun
  obtain ⟨ha, rfl⟩ := runs_ofExcept.mp hrun
  exact ⟨0, rfl, fun d _ _ => runs_ofExcept.mpr ⟨ha, rfl⟩⟩

/-- Reading a byte looks at this byte only. -/
theorem confines_u8 : u8.Confines := by
  intro c byte c' hrun
  obtain ⟨-, hbyte, rfl⟩ := runs_u8.mp hrun
  refine ⟨1, rfl, fun d hd hroom => runs_u8.mpr ⟨hroom, ?_, rfl⟩⟩
  rw [hd.data, hd.position, hbyte]

/-- Reading bytes looks at these bytes only. -/
theorem confines_bytes (count : Int) : (bytes count).Confines := by
  intro c value c' hrun
  obtain ⟨hcount, -, hvalue, rfl⟩ := runs_bytes.mp hrun
  refine ⟨count.toNat, rfl, fun d hd hroom => runs_bytes.mpr ⟨hcount, by omega, ?_, rfl⟩⟩
  rw [hd.data, hd.position, hvalue]

/-- Looking at no byte but those that are moved over is a property that composes. -/
theorem composes_confines : Composes fun _ r => r.Confines where
  pure := confines_pure
  bind := Confines.bind
  throw _ := confines_throw _
  throwAt _ := confines_position.bind fun _ => confines_throw _
  u8 := confines_u8
  bytes := confines_bytes

end Reader

/-! ## Bodies -/

namespace Body

variable {f : Frame}

/-- Reading an instruction looks at its bytes only. -/
theorem confines_readInstruction (base index : Nat) : (readInstruction f base index).Confines := by
  intro c i c' hrun
  obtain ⟨byte, opcode, value, hbyte, hop, hvalue, hcheck, rfl⟩ := runs_readInstruction.mp hrun
  obtain ⟨-, hhead, -⟩ := runs_u8.mp hbyte
  obtain ⟨count, rfl, hoperand⟩ := composes_confines.operand _ _ _ _ hvalue
  refine ⟨1 + count, Cursor.moved_moved _ _ _, fun d hd hroom => runs_readInstruction.mpr
    ⟨byte, opcode, value, runs_u8.mpr ⟨by omega, ?_, rfl⟩, hop, ?_, hcheck, ?_⟩⟩
  · rw [hd.data, hd.position, hhead]
  · rw [← Cursor.moved_moved]
    refine hoperand _ (hd.moved 1) ?_
    simp only [Cursor.moved_position, Cursor.moved_stop]
    omega
  · simp only [Cursor.moved_data, Cursor.moved_position, hd.data, hd.position, Nat.add_assoc]

/-- A step of a body looks at the bytes of its instruction only. -/
theorem confines_step (base index depth : Nat) : (step f base index depth).Confines := by
  refine (confines_readInstruction base index).bind fun i => (confines_ofExcept _).bind fun effect => ?_
  dsimp only
  split
  · exact confines_throw _
  · exact confines_pure _

/-- A scan without a fault goes over the same instructions in every window that holds them. -/
theorem scan_confined {base count depth : Nat} {done : Array Instruction} {c c' : Cursor} {s : Scan}
    (hscan : scan f base count done depth c = (s, c')) (hs : s.fault = none) :
    ∃ n, c' = c.moved n ∧ ∀ d : Cursor, c.Beside d → d.position + n ≤ d.stop →
      scan f base count done depth d = (s, d.moved n) := by
  induction count generalizing done depth c with
  | zero =>
    simp only [scan, Prod.mk.injEq] at hscan
    obtain ⟨rfl, rfl⟩ := hscan
    exact ⟨0, rfl, fun d _ _ => rfl⟩
  | succ count ih =>
    rw [scan] at hscan
    rcases hstep : (step f base done.size depth).runAt c with ⟨fault | i, next⟩
    · simp only [hstep, Prod.mk.injEq] at hscan
      obtain ⟨rfl, -⟩ := hscan
      simp at hs
    · simp only [hstep] at hscan
      obtain ⟨m, rfl, hstep'⟩ := confines_step _ _ _ _ _ _ (runs_iff_runAt.mpr hstep)
      obtain ⟨n, rfl, hscan'⟩ := ih hscan
      refine ⟨m + n, Cursor.moved_moved _ _ _, fun d hd hroom => ?_⟩
      have hrest := hscan' _ (hd.moved m) (by
        simp only [Cursor.moved_position, Cursor.moved_stop]
        omega)
      rw [scan, runs_iff_runAt.mp (hstep' d hd (by omega)), ← Cursor.moved_moved]
      exact hrest

/-- Reading a body looks at its bytes only. -/
theorem confines_read (count : Nat) : (read f count).Confines := by
  intro c is c' hrun
  simp only [read, runs_bind, runs_get, runs_set, runs_ofExcept] at hrun ⊢
  obtain ⟨_, _, ⟨rfl, rfl⟩, _, _, rfl, hfinish, rfl⟩ := hrun
  rcases hscan : scan f c.position count #[] 0 c with ⟨s, c'⟩
  rw [hscan] at hfinish
  obtain ⟨n, rfl, hconfined⟩ := scan_confined hscan (finish_eq_ok.mp hfinish).1
  refine ⟨n, rfl, fun d hd hroom => ⟨_, _, ⟨rfl, rfl⟩, ⟨⟩, _, rfl, ?_⟩⟩
  rw [hd.position, hconfined d hd hroom]
  exact ⟨hfinish, rfl⟩

/-! ### Another module with the same records -/

variable {n : Module}

/-- A step of a body comes to the same in a module with the same records. -/
theorem step_withOwner (h : f.owner.SameRecords n) (base index depth : Nat) :
    step { f with owner := n } base index depth = step f base index depth := by
  unfold step readInstruction
  simp only [Frame.checkOperand_withOwner h, Frame.stackEffect_withOwner h]

/-- Scanning a body comes to the same in a module with the same records. -/
theorem scan_withOwner (h : f.owner.SameRecords n) (base count depth : Nat) (done : Array Instruction)
    (c : Cursor) : scan { f with owner := n } base count done depth c = scan f base count done depth c := by
  induction count generalizing done depth c with
  | zero => rfl
  | succ count ih => simp only [scan, step_withOwner h, ih]

/-- Reading a body comes to the same in a module with the same records. -/
theorem read_withOwner (h : f.owner.SameRecords n) (count : Nat) :
    read { f with owner := n } count = read f count := by
  simp only [read, scan_withOwner h]
  rfl

end Body

/-! ## Records -/

namespace Table

/-- Reading a function looks at its bytes only. -/
theorem confines_readFunction (m : Module) : (readFunction m).Confines := by
  have hheader : (readFunctionHeader m).Confines := by
    refine composes_confines.varu16.bind fun handle => confines_u8.bind fun flags => ?_
    refine composes_confines.varu16.bind fun maxStack => composes_confines.varu16.bind fun locals => ?_
    refine (composes_confines.unsigned 2).bind fun count => ?_
    dsimp only
    split
    · exact confines_throw _
    · split
      · exact confines_throw _
      · exact confines_pure _
  refine hheader.bind fun header => confines_position.bind fun start => ?_
  exact (confines_ofExcept _).bind fun frame => (Body.confines_read _).bind fun is => confines_pure _

/-- No record is read by what follows it. -/
theorem confines_reader (m : Module) (kind : TableKind) : (reader m kind).Confines := by
  cases hkind : kind.holdsCode with
  | false => exact composes_confines.reader m hkind
  | true =>
    cases kind with
    | functionDefs | main => exact confines_readFunction m
    | moduleHandles | structHandles | functionHandles | addressPool | stringPool | bytearrayPool
    | structDefs | fieldDefs | typeSignatures | functionSignatures | localSignatures =>
      simp [TableKind.holdsCode] at hkind

variable {m n : Module} {c c' : Cursor}

/-- A function is the same in a module with the same records. -/
theorem runs_readFunction_of_sameRecords (h : m.SameRecords n) {g : FunctionDef}
    (hrun : Runs (readFunction m) c g c') : Runs (readFunction n) c g c' := by
  simp only [readFunction, runs_bind, runs_position, runs_ofExcept, runs_readFunctionHeader,
    Pool.containsIndex, h.functionHandles.size_eq, h.localSignatures.size_eq] at hrun ⊢
  obtain ⟨header, d, hheader, _, _, ⟨rfl, rfl⟩, frame, _, ⟨hframe, rfl⟩, is, e, his, hg⟩ := hrun
  obtain ⟨rfl, hframe'⟩ := Body.frame_withOwner h hframe
  rw [← Body.read_withOwner h] at his
  exact ⟨header, d, hheader, _, _, ⟨rfl, rfl⟩, _, _, ⟨hframe', rfl⟩, is, e, his, hg⟩

/-- Records are the same in a module with the same records; only those of functions look at the module. -/
theorem runs_reader_of_sameRecords {kind : TableKind} (h : kind.holdsCode = true → m.SameRecords n)
    {record : Contents FunctionDef kind} (hrun : Runs (reader m kind) c record c') :
    Runs (reader n kind) c record c' := by
  cases kind with
  | functionDefs | main => exact runs_readFunction_of_sameRecords (h rfl) hrun
  | moduleHandles | structHandles | functionHandles | addressPool | stringPool | bytearrayPool
  | structDefs | fieldDefs | typeSignatures | functionSignatures | localSignatures => exact hrun

end Table

end MoveBytecode
