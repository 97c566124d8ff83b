import MoveBytecode.Proofs.Loading.Items

/-!
# Which bodies are read

A body can be read if items stand one behind the other, none of which takes more values than there are
(`Body.Course`), with no value left and with branches into the body (`Body.WellFormed`). Any other body has
a first defect (`Body.FirstDefect`). Neither is said in terms of the readers. In a module with resolved
references the well-formed bodies are those that are read, and a read of any other fails with the fault of
its first defect (`Module.read_decides`).
-/

namespace MoveBytecode

open Instruction (totalSize)
open Reader (runs_ofExcept)

namespace Body

/-! ## Bodies and their defects -/

/-- Instructions that are decoded one behind the other from a cursor on, none of which takes more values
than there are, and the depth of the stack behind them. -/
inductive Course (f : Frame) (c : Cursor) : List Instruction → Nat → Prop
  | start : Course f c [] 0
  | next {is : List Instruction} {depth pops pushes : Nat} {x : Item} (before : Course f c is depth)
    (decoded : x.Decoded f (c.moved (totalSize is))) (arity : f.arity? x = some (pops, pushes))
    (enough : pops ≤ depth) :
    Course f c (is ++ [x.instruction is.length (totalSize is) depth (depth - pops + pushes)])
      (depth - pops + pushes)

/-- Branches to the first `count` instructions. -/
def BranchWithin (count : Nat) (i : Instruction) : Prop :=
  i.opcode.isBranch = true → ∀ o ∈ i.operand, o.value < count

/-- A body of `count` instructions from a cursor on that leaves no value behind. -/
structure WellFormed (f : Frame) (c : Cursor) (count : Nat) (is : List Instruction) : Prop where
  course : Course f c is 0
  length : is.length = count
  branches : ∀ i ∈ is, BranchWithin count i

/-- The first defect of a body of `count` instructions from a cursor on: behind a course, something that is
no item, or an item that takes too many values; behind all instructions, values that are left; and of a
body that leaves none, the first branch out of it. -/
inductive FirstDefect (f : Frame) (c : Cursor) (count : Nat) : Fault → Prop
  | misread {is : List Instruction} {depth : Nat} {fault : Fault} (course : Course f c is depth)
    (more : is.length < count) (h : Misread f (c.moved (totalSize is)) fault) :
    FirstDefect f c count fault
  | underflow {is : List Instruction} {depth pops pushes : Nat} {x : Item} (course : Course f c is depth)
    (more : is.length < count) (decoded : x.Decoded f (c.moved (totalSize is)))
    (arity : f.arity? x = some (pops, pushes)) (h : depth < pops) :
    FirstDefect f c count (.stackUnderflow f.name (x.instruction is.length (totalSize is) depth 0) pops)
  | unbalanced {is : List Instruction} {depth : Nat} (course : Course f c is depth)
    (length : is.length = count) (h : depth ≠ 0) :
    FirstDefect f c count (.stackUnbalanced f.name depth)
  | branch {before after : List Instruction} {i : Instruction} {target : Nat}
    (course : Course f c (before ++ i :: after) 0) (length : (before ++ i :: after).length = count)
    (within : ∀ j ∈ before, BranchWithin count j) (branch : i.opcode.isBranch = true)
    (operand : i.operand = some ⟨.branch, target⟩) (h : count ≤ target) :
    FirstDefect f c count (.branchBeyondBody f.name i.index target count)

variable {f : Frame} {c c' : Cursor} {fault : Fault}

/-! ## Courses -/

/-- One more item makes the instructions longer by its bytes. -/
theorem totalSize_concat_instruction (is : List Instruction) (x : Item) (index offset before after : Nat) :
    totalSize (is ++ [x.instruction index offset before after]) = totalSize is + x.bytes.length := by
  rw [Instruction.totalSize_append]
  rfl

/-- The cursor behind a course is within its window. -/
theorem Course.inside {is : List Instruction} {depth : Nat} (h : Course f c is depth) (hc : c.Inside) :
    (c.moved (totalSize is)).Inside := by
  cases h with
  | start => exact hc
  | next _ hdecoded _ _ =>
    rw [totalSize_concat_instruction, ← Cursor.moved_moved]
    exact hdecoded.faces.inside_moved

/-- The scan follows a course. -/
theorem scan_of_course (hm : f.owner.DataClosed) (hc : c.Inside) {is : List Instruction} {depth : Nat}
    (h : Course f c is depth) (count : Nat) :
    scan f c.position (is.length + count) #[] 0 c =
      scan f c.position count is.toArray depth (c.moved (totalSize is)) := by
  induction h generalizing count with
  | start => simp [totalSize]
  | @next is depth pops pushes x hbefore hdecoded harity henough ih =>
    have hstep : Runs (step f c.position is.length depth) (c.moved (totalSize is)) _ _ :=
      (runs_step hm (hbefore.inside hc)).mpr ⟨x, pops, pushes, hdecoded, harity, henough, rfl, rfl⟩
    simp only [Cursor.moved_position, Nat.add_sub_cancel_left] at hstep
    rw [List.length_append, List.length_singleton, Nat.add_assoc, ih, Nat.add_comm 1 count, scan,
      List.size_toArray, Reader.runs_iff_runAt.mp hstep, totalSize_concat_instruction, ← Cursor.moved_moved]
    simp only [List.push_toArray]
    rfl

/-- A course goes on for as many instructions as are asked for, or it gets stuck before. -/
theorem exists_course_or_stuck (hm : f.owner.DataClosed) (hc : c.Inside) (count : Nat) :
    (∃ is depth, Course f c is depth ∧ is.length = count) ∨
      ∃ is depth fault, Course f c is depth ∧ is.length < count ∧
        Fails (step f c.position is.length depth) (c.moved (totalSize is)) fault := by
  induction count with
  | zero => exact .inl ⟨[], 0, .start, rfl⟩
  | succ count ih =>
    obtain ⟨is, depth, hcourse, rfl⟩ | ⟨is, depth, fault, hcourse, hlength, hfails⟩ := ih
    · rcases runs_or_fails (step f c.position is.length depth) (c.moved (totalSize is)) with
        ⟨i, c', hruns⟩ | ⟨fault, hfails⟩
      · obtain ⟨x, pops, pushes, hdecoded, harity, henough, -, -⟩ :=
          (runs_step hm (hcourse.inside hc)).mp hruns
        exact .inl ⟨_, _, hcourse.next hdecoded harity henough, by simp⟩
      · exact .inr ⟨is, depth, fault, hcourse, Nat.lt_succ_self _, hfails⟩
    · exact .inr ⟨is, depth, fault, hcourse, Nat.lt_succ_of_lt hlength, hfails⟩

/-- Of the instructions of a course exactly the branches have a branch operand; none has a distance. -/
theorem Course.operand {is : List Instruction} {depth : Nat} (h : Course f c is depth) :
    ∀ i ∈ is, i.branchDelta = none ∧
      (i.opcode.isBranch = true → ∃ target, i.operand = some ⟨.branch, target⟩) := by
  induction h with
  | start => simp
  | @next is depth pops pushes x _ hdecoded _ _ ih =>
    intro i hi
    obtain hi | hi := List.mem_append.mp hi
    · exact ih i hi
    · obtain rfl := List.mem_singleton.mp hi
      refine ⟨rfl, fun hbranch => ?_⟩
      have hkind : x.opcode.operandKind = .branch := Opcode.isBranch_iff.mp hbranch
      obtain ⟨target, htarget⟩ := exists_value_of_spells hdecoded.spelled (by rw [hkind]; decide)
      refine ⟨target, ?_⟩
      simp only [Item.instruction, htarget, Option.map_some, hkind]

/-! ## Branches -/

/-- A branch that leads out of the body is named. -/
theorem resolveBranch_eq_error {name : String} {body : Array Instruction} {i : Instruction}
    (hoperand : i.opcode.isBranch = true → ∃ target, i.operand = some ⟨.branch, target⟩) :
    resolveBranch name body i = .error fault ↔ i.opcode.isBranch = true ∧
      ∃ target, i.operand = some ⟨.branch, target⟩ ∧ body.size ≤ target ∧
        fault = .branchBeyondBody name i.index target body.size := by
  unfold resolveBranch
  cases hbranch : i.opcode.isBranch with
  | false => simp [pure, Except.pure]
  | true =>
    obtain ⟨target, htarget⟩ := hoperand hbranch
    by_cases hsize : body.size ≤ target
    · simp [Instruction.operandValue, htarget, hsize, bind, Except.bind, throw, throwThe,
        MonadExceptOf.throw, eq_comm]
    · have hsome := Array.getElem?_eq_getElem (Nat.lt_of_not_le hsize)
      simp [Instruction.operandValue, htarget, hsome, hsize, bind, Except.bind, pure, Except.pure]

/-- The branches of a body are resolved exactly if they lead into it. -/
theorem answers_resolveBranch {name : String} {body : Array Instruction} {i : Instruction}
    (hdelta : i.branchDelta = none)
    (hoperand : i.opcode.isBranch = true → ∃ target, i.operand = some ⟨.branch, target⟩) :
    Answers (resolveBranch name body i) ↔ BranchWithin body.size i := by
  constructor
  · rintro ⟨j, hj⟩ hbranch o ho
    by_contra hbeyond
    obtain ⟨target, htarget⟩ := hoperand hbranch
    obtain rfl := Option.some.inj (htarget.symm.trans ho)
    have herror : resolveBranch name body i = .error (.branchBeyondBody name i.index target body.size) :=
      (resolveBranch_eq_error hoperand).mpr ⟨hbranch, target, htarget, Nat.le_of_not_lt hbeyond, rfl⟩
    simp [hj] at herror
  · intro hwithin
    refine ⟨_, resolveBranch_of_target hdelta fun hbranch => ?_⟩
    obtain ⟨target, htarget⟩ := hoperand hbranch
    exact ⟨_, htarget, hwithin hbranch _ htarget⟩

/-- The faults of finishing a scan, in the order in which they are looked for. -/
theorem finish_eq_error {s : Scan} :
    s.finish f = .error fault ↔ s.fault = some fault ∨ s.fault = none ∧
      (s.depth ≠ 0 ∧ fault = .stackUnbalanced f.name s.depth ∨
        s.depth = 0 ∧ s.instructions.toList.mapM (resolveBranch f.name s.instructions) = .error fault) := by
  simp only [Scan.finish]
  cases hfault : s.fault with
  | some fault' => simp [bind, Except.bind, throw, throwThe, MonadExceptOf.throw]
  | none =>
    by_cases hdepth : s.depth = 0
    · simp [hdepth]
    · simp [hdepth, bind, Except.bind, throw, throwThe, MonadExceptOf.throw, eq_comm]

/-! ## Whole bodies -/

/-- A body is read iff its scan can be finished. -/
theorem runs_read_iff_finish {count : Nat} {js : List Instruction} :
    Runs (read f count) c js c' ↔ (scan f c.position count #[] 0 c).1.finish f = .ok js ∧
      (scan f c.position count #[] 0 c).2 = c' := by
  simp only [read, runs_bind, runs_get, runs_set, runs_ofExcept]
  constructor
  · rintro ⟨_, _, ⟨rfl, rfl⟩, _, _, rfl, hfinish, rfl⟩
    exact ⟨hfinish, rfl⟩
  · rintro ⟨hfinish, rfl⟩
    exact ⟨_, _, ⟨rfl, rfl⟩, ⟨⟩, _, rfl, hfinish, rfl⟩

/-- Reading a body fails iff its scan cannot be finished. -/
theorem fails_read_iff_finish {count : Nat} :
    Fails (read f count) c fault ↔ (scan f c.position count #[] 0 c).1.finish f = .error fault := by
  simp only [read, fails_bind, runs_get, runs_set, not_fails_get, not_fails_set, false_or, fails_ofExcept]
  constructor
  · rintro ⟨_, _, ⟨rfl, rfl⟩, _, _, rfl, hfinish⟩
    exact hfinish
  · exact fun hfinish => ⟨_, _, ⟨rfl, rfl⟩, ⟨⟩, _, rfl, hfinish⟩

/-- The scan of as many instructions as a course has leaves them. -/
theorem scan_of_complete (hm : f.owner.DataClosed) (hc : c.Inside) {is : List Instruction} {depth : Nat}
    (h : Course f c is depth) :
    scan f c.position is.length #[] 0 c = (⟨is.toArray, depth, none⟩, c.moved (totalSize is)) :=
  scan_of_course hm hc h 0

/-- The scan of more instructions than there are ends with the fault of the next one. -/
theorem fault_of_stuck (hm : f.owner.DataClosed) (hc : c.Inside) {is : List Instruction}
    {depth count : Nat} (h : Course f c is depth) (hlength : is.length < count)
    (hfails : Fails (step f c.position is.length depth) (c.moved (totalSize is)) fault) :
    (scan f c.position count #[] 0 c).1.fault = some fault := by
  obtain ⟨more, rfl⟩ := Nat.exists_eq_add_of_lt hlength
  rw [Nat.add_assoc, scan_of_course hm hc h, scan, List.size_toArray]
  rcases hstep : (step f c.position is.length depth).runAt (c.moved (totalSize is)) with ⟨fault' | i, next⟩
  · have : fault' = fault := by
      have hfails : ((step f c.position is.length depth).runAt _).1 = .error fault := hfails
      rw [hstep] at hfails
      exact Except.error.inj hfails
    rw [this]
  · have hruns := Reader.runs_iff_runAt.mpr hstep
    exact absurd hfails hruns.not_fails

/-- The branches of a course are resolved if they lead into it, and nothing else is filled in. -/
theorem mapM_resolveBranch_iff {is js : List Instruction} {depth : Nat} (h : Course f c is depth)
    (name : String) :
    is.mapM (resolveBranch name is.toArray) = .ok js ↔ (∀ i ∈ is, BranchWithin is.length i) ∧
      js = is.map fun i => i.withDelta (deltaIn is.toArray i) := by
  have hnone : ∀ i ∈ is, i.branchDelta = none := fun i hi => (h.operand i hi).1
  constructor
  · intro hmap
    obtain ⟨hjs, hresolved⟩ := mapM_resolveBranch hnone hmap
    refine ⟨fun i hi hbranch o ho => ?_, hjs⟩
    have hsome := hresolved i hi hbranch
    simp only [deltaIn, hbranch, if_true, Option.isSome_map, Option.mem_def.mp ho, Option.bind_some] at hsome
    simpa using hsome
  · rintro ⟨hwithin, rfl⟩
    obtain ⟨js, hjs⟩ : Answers (is.mapM (resolveBranch name is.toArray)) := answers_mapM fun i hi =>
      (answers_resolveBranch (hnone i hi) (h.operand i hi).2).mpr (hwithin i hi)
    rw [hjs, (mapM_resolveBranch hnone hjs).1]

/-- The first branch of a course that leads out of it is named. -/
theorem mapM_resolveBranch_eq_error {is : List Instruction} {depth : Nat} (h : Course f c is depth)
    (name : String) :
    is.mapM (resolveBranch name is.toArray) = .error fault ↔ ∃ before i after target,
      is = before ++ i :: after ∧ (∀ j ∈ before, BranchWithin is.length j) ∧ i.opcode.isBranch = true ∧
        i.operand = some ⟨.branch, target⟩ ∧ is.length ≤ target ∧
        fault = .branchBeyondBody name i.index target is.length := by
  have hwithin : ∀ i ∈ is, Answers (resolveBranch name is.toArray i) ↔ BranchWithin is.length i :=
    fun i hi => answers_resolveBranch (h.operand i hi).1 (h.operand i hi).2
  rw [mapM_eq_error]
  constructor
  · rintro ⟨before, i, after, hsplit, hbefore, hi⟩
    obtain ⟨hbranch, target, htarget, hbeyond, rfl⟩ :=
      (resolveBranch_eq_error (h.operand i (by simp [hsplit])).2).mp hi
    exact ⟨before, i, after, target, hsplit,
      fun j hj => (hwithin j (by simp [hsplit, hj])).mp (hbefore j hj), hbranch, htarget, hbeyond, rfl⟩
  · rintro ⟨before, i, after, target, hsplit, hbefore, hbranch, htarget, hbeyond, rfl⟩
    exact ⟨before, i, after, hsplit, fun j hj => (hwithin j (by simp [hsplit, hj])).mpr (hbefore j hj),
      (resolveBranch_eq_error (h.operand i (by simp [hsplit])).2).mpr
        ⟨hbranch, target, htarget, hbeyond, rfl⟩⟩

/-- The bodies that are read are the well-formed ones, and the cursor is behind them then. -/
theorem runs_read_iff (hm : f.owner.DataClosed) (hc : c.Inside) {count : Nat} {js : List Instruction} :
    Runs (read f count) c js c' ↔ ∃ is, WellFormed f c count is ∧
      js = is.map (fun i => i.withDelta (deltaIn is.toArray i)) ∧ c' = c.moved (totalSize is) := by
  rw [runs_read_iff_finish]
  constructor
  · rintro ⟨hfinish, rfl⟩
    obtain ⟨hnofault, hzero, hmap⟩ := finish_eq_ok.mp hfinish
    -- A scan without a fault has not been stuck, so it has followed a course to its end.
    obtain ⟨is, depth, hcourse, rfl⟩ | ⟨is, depth, fault, hcourse, hlength, hfails⟩ :=
      exists_course_or_stuck hm hc count
    · rw [scan_of_complete hm hc hcourse] at hzero hmap ⊢
      obtain rfl : depth = 0 := hzero
      obtain ⟨hwithin, rfl⟩ := (mapM_resolveBranch_iff hcourse f.name).mp hmap
      exact ⟨is, ⟨hcourse, rfl, hwithin⟩, rfl, rfl⟩
    · rw [fault_of_stuck hm hc hcourse hlength hfails] at hnofault
      simp at hnofault
  · rintro ⟨is, ⟨hcourse, rfl, hwithin⟩, hjs, rfl⟩
    rw [scan_of_complete hm hc hcourse]
    exact ⟨finish_eq_ok.mpr ⟨rfl, rfl, (mapM_resolveBranch_iff hcourse f.name).mpr ⟨hwithin, hjs⟩⟩, rfl⟩

/-- What stops the scan behind a course is something that is no item, or one that takes too many
values. -/
theorem Course.fails_step {is : List Instruction} {depth : Nat} (h : Course f c is depth)
    (hm : f.owner.DataClosed) (hc : c.Inside) :
    Fails (step f c.position is.length depth) (c.moved (totalSize is)) fault ↔
      Misread f (c.moved (totalSize is)) fault ∨ ∃ x pops pushes,
        Item.Decoded x f (c.moved (totalSize is)) ∧ f.arity? x = some (pops, pushes) ∧ depth < pops ∧
          fault = .stackUnderflow f.name (x.instruction is.length (totalSize is) depth 0) pops := by
  rw [Body.fails_step hm (h.inside hc), Cursor.moved_position, Nat.add_sub_cancel_left]

/-- A read of a body fails with the fault of its first defect. -/
theorem fails_read_iff (hm : f.owner.DataClosed) (hc : c.Inside) {count : Nat} :
    Fails (read f count) c fault ↔ FirstDefect f c count fault := by
  rw [fails_read_iff_finish]
  constructor
  · intro hfinish
    -- The body as a whole is looked at only behind a course of all instructions.
    obtain ⟨is, depth, hcourse, rfl⟩ | ⟨is, depth, fault', hcourse, hlength, hfails⟩ :=
      exists_course_or_stuck hm hc count
    · rw [scan_of_complete hm hc hcourse] at hfinish
      obtain h | ⟨-, ⟨hdepth, rfl⟩ | ⟨rfl, hmap⟩⟩ := finish_eq_error.mp hfinish
      · simp at h
      · exact .unbalanced hcourse rfl hdepth
      · obtain ⟨before, i, after, target, rfl, hwithin, hbranch, htarget, hbeyond, rfl⟩ :=
          (mapM_resolveBranch_eq_error hcourse f.name).mp hmap
        exact .branch hcourse rfl hwithin hbranch htarget hbeyond
    · have hfault := fault_of_stuck hm hc hcourse hlength hfails
      obtain h | ⟨h, -⟩ := finish_eq_error.mp hfinish
      · obtain rfl := Option.some.inj (hfault.symm.trans h)
        obtain hmisread | ⟨x, pops, pushes, hdecoded, harity, hshort, rfl⟩ :=
          (hcourse.fails_step hm hc).mp hfails
        · exact .misread hcourse hlength hmisread
        · exact .underflow hcourse hlength hdecoded harity hshort
      · rw [hfault] at h
        simp at h
  · intro h
    cases h with
    | misread hcourse hmore hmisread =>
      have hfails := (hcourse.fails_step hm hc).mpr (.inl hmisread)
      exact finish_eq_error.mpr (.inl (fault_of_stuck hm hc hcourse hmore hfails))
    | underflow hcourse hmore hdecoded harity hshort =>
      have hfails := (hcourse.fails_step hm hc).mpr (.inr ⟨_, _, _, hdecoded, harity, hshort, rfl⟩)
      exact finish_eq_error.mpr (.inl (fault_of_stuck hm hc hcourse hmore hfails))
    | unbalanced hcourse hlength hdepth =>
      subst hlength
      rw [scan_of_complete hm hc hcourse]
      exact finish_eq_error.mpr (.inr ⟨rfl, .inl ⟨hdepth, rfl⟩⟩)
    | branch hcourse hlength hwithin hbranch htarget hbeyond =>
      subst hlength
      rw [scan_of_complete hm hc hcourse]
      have hmap := (mapM_resolveBranch_eq_error hcourse f.name).mpr
        ⟨_, _, _, _, rfl, hwithin, hbranch, htarget, hbeyond, rfl⟩
      exact finish_eq_error.mpr (.inr ⟨rfl, .inr ⟨rfl, hmap⟩⟩)

/-! ## The classes of defects -/

/-- A defect is one of decoding, or it takes too many values, or all instructions are in order and it is
one of the body as a whole. -/
theorem FirstDefect.kind {count : Nat} (h : FirstDefect f c count fault) :
    fault.kind ∈ [FaultKind.endOfInput, .varintOverflow, .unknownOpcode, .unresolvedReference,
        .stackUnderflow] ∨
      fault.kind ∈ [FaultKind.unbalancedStack, .indexOutOfRange] ∧
        ∃ is depth, Course f c is depth ∧ is.length = count := by
  cases h with
  | misread _ _ hmisread =>
    have hkind := hmisread.kind
    simp only [List.mem_cons, List.not_mem_nil, or_false] at hkind ⊢
    tauto
  | underflow => exact .inl (by simp [Fault.kind])
  | unbalanced hcourse hlength _ => exact .inr ⟨by simp [Fault.kind], _, _, hcourse, hlength⟩
  | branch hcourse hlength => exact .inr ⟨by simp [Fault.kind], _, _, hcourse, hlength⟩

end Body

namespace Module

/-- The frame of a function whose handle and locals are there. -/
theorem DataClosed.exists_frame {m : Module} (hm : m.DataClosed) {handle locals : Nat}
    (hhandle : handle < m.functionHandles.size) {types : List Token}
    (hlocals : m.localSignatures.records[locals]? = some types) (hcount : types.length ≤ Body.maxLocals) :
    ∃ f : Body.Frame, Body.frame m handle locals = .ok f ∧ f.owner = m ∧
      m.signatureAt? handle = some f.signature ∧ f.localCount = types.length := by
  obtain ⟨e, s, he, hmem, hs, hsignature⟩ := hm.exists_signatureAt? hhandle
  obtain ⟨name, hname⟩ := hm.functionName hmem
  obtain ⟨l, hl, rfl⟩ := Pool.get_of_records rfl hlocals
  exact ⟨_, Body.frame_eq_ok.mpr ⟨e, s, l, name, he, hs, hl, hcount, hname, rfl⟩, rfl, hsignature, rfl⟩

/-- In a module with resolved references, the bodies that are read for a function whose handle and locals
are there are the well-formed ones, and the cursor is then right behind their last instruction. Of any
other body the first defect is reported: instructions are decoded in order, an instruction is decoded
before its values are counted, and what is left of the stack and the branches are looked at behind all
instructions. -/
theorem read_decides {m : Module} (hm : m.checkReferences = .ok ()) {handle locals : Nat}
    (hhandle : handle < m.functionHandles.size) {types : List Token}
    (hlocals : m.localSignatures.records[locals]? = some types) (hcount : types.length ≤ Body.maxLocals) :
    ∃ f : Body.Frame, Body.frame m handle locals = .ok f ∧ f.owner = m ∧
      m.signatureAt? handle = some f.signature ∧ f.localCount = types.length ∧
      ∀ (c : Cursor) (count : Nat), c.Inside →
        (∀ js c', Runs (Body.read f count) c js c' ↔ ∃ is, Body.WellFormed f c count is ∧
          js = is.map (fun i => i.withDelta (Body.deltaIn is.toArray i)) ∧ c' = c.moved (totalSize is)) ∧
        (∀ fault, Fails (Body.read f count) c fault ↔ Body.FirstDefect f c count fault) ∧
        ∀ fault, Fails (Body.read f count) c fault →
          fault.kind ∈ [FaultKind.endOfInput, .varintOverflow, .unknownOpcode, .unresolvedReference,
            .stackUnderflow] ∨
          fault.kind ∈ [FaultKind.unbalancedStack, .indexOutOfRange] ∧
            ∃ is depth, Body.Course f c is depth ∧ is.length = count := by
  have hclosed := dataClosed_of_checkReferences hm
  obtain ⟨f, hframe, rfl, hsignature, hlocalCount⟩ := hclosed.exists_frame hhandle hlocals hcount
  refine ⟨f, hframe, rfl, hsignature, hlocalCount, fun c count hc => ⟨fun js c' => ?_, fun fault => ?_, ?_⟩⟩
  · exact Body.runs_read_iff hclosed hc
  · exact Body.fails_read_iff hclosed hc
  · exact fun fault hfails => ((Body.fails_read_iff hclosed hc).mp hfails).kind

/-- The thirteen instructions of the sample are a well-formed body. Twelve of them leave a value, and
behind the thirteenth there is nothing. -/
theorem arithmeticSample_read : ∃ m f c, load .standard arithmeticSample = .ok m ∧
    m.checkReferences = .ok () ∧ Body.frame m 0 0 = .ok f ∧ c.Inside ∧ c.data = arithmeticSample ∧
    (∃ is, Body.WellFormed f c 13 is) ∧
    Body.FirstDefect f c 12 (.stackUnbalanced f.name 1) ∧
    Body.FirstDefect f c 14 (.shortRead 1 arithmeticSample.size arithmeticSample.size) := by
  let cursor (start : Nat) : Cursor := ⟨arithmeticSample, start, start, arithmeticSample.size⟩
  -- One evaluation loads the sample and reads its body with each of the three counts.
  have check : (load .standard arithmeticSample).toOption.any (fun m =>
      decide (∃ e ∈ m.internalFunctions, m.checkReferences.toOption.isSome = true ∧
        0 < m.functionHandles.size ∧ m.localSignatures.records[0]? = some [.integer] ∧
        e.record.code.start ≤ arithmeticSample.size ∧
        (Body.frame m 0 0).toOption.any (fun f =>
          ((Body.read f 13).runAt (cursor e.record.code.start)).1.toOption.isSome &&
          decide (((Body.read f 12).runAt (cursor e.record.code.start)).1 =
            .error (.stackUnbalanced f.name 1)) &&
          decide (((Body.read f 14).runAt (cursor e.record.code.start)).1 =
            .error (.shortRead 1 arithmeticSample.size arithmeticSample.size))) = true)) = true := by
    decide +kernel
  obtain ⟨m, hload, hcheck⟩ := exists_of_any_toOption check
  obtain ⟨e, -, hsome, hhandle, hlocals, hstart, hframe⟩ := of_decide_eq_true hcheck
  obtain ⟨⟨⟩, href⟩ := Option.isSome_iff_exists.mp hsome
  replace href := toOption_eq_some.mp href
  obtain ⟨f, hf, hreads⟩ := exists_of_any_toOption hframe
  simp only [Bool.and_eq_true, decide_eq_true_eq] at hreads
  obtain ⟨⟨hok, htwelve⟩, hfourteen⟩ := hreads
  have hinside : (cursor e.record.code.start).Inside := ⟨hstart, Nat.le_refl _⟩
  obtain ⟨f', hf', -, -, -, hdecides⟩ := read_decides href hhandle hlocals (by decide)
  obtain rfl := Except.ok.inj (hf.symm.trans hf')
  refine ⟨m, f, cursor e.record.code.start, hload, href, hf, hinside, rfl, ?_, ?_, ?_⟩
  · obtain ⟨js, hjs⟩ := Option.isSome_iff_exists.mp hok
    have hruns : Runs (Body.read f 13) (cursor e.record.code.start) js _ :=
      Prod.ext (toOption_eq_some.mp hjs) rfl
    obtain ⟨is, hwell, -⟩ := ((hdecides _ 13 hinside).1 js _).mp hruns
    exact ⟨is, hwell⟩
  · exact ((hdecides _ 12 hinside).2.1 _).mp htwelve
  · exact ((hdecides _ 14 hinside).2.1 _).mp hfourteen

end Module

end MoveBytecode
