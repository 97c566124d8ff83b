import MoveBytecode.Flow.Graph
import MoveBytecode.Proofs.Loading.CodeUnits

/-!
# Stack depths along control flow

A read records the depth of the operand stack along the listing and checks it nowhere else: the depth
at the target of a taken branch is the one that the instruction in front of it left, wherever control
comes from. How far the two are apart is what the instructions between the branch and its target put and
take (`Module.DepthFlow.jump`), and on a path through a function these distances add up
(`Module.DepthFlow.path`), so that the recorded depth is right on the paths on which they cancel.
-/

namespace MoveBytecode

open Body (Sound Scanned)
open Instruction (depthBehind totalSize)

/-! ## Edges and paths -/

/-- Control may go on from one instruction of a function to another: the flow of the first has the
address of the second among its targets. -/
def FlowsTo (f : Entry FunctionDef) (i j : Instruction) : Prop :=
  i ∈ f.record.code.instructions ∧ j ∈ f.record.code.instructions ∧
    f.mapping.start + j.offset ∈ (i.flow (f.mapping.start + i.offset)).targets

/-- Whether control flows from one instruction to another can be decided. -/
instance (f : Entry FunctionDef) (i j : Instruction) : Decidable (FlowsTo f i j) :=
  inferInstanceAs (Decidable (_ ∧ _ ∧ _))

/-- Control goes through `done`, from the first instruction of a function on, and arrives at an
instruction. The drift is by how much the depths behind the instructions on the way exceed those
recorded where control went on. -/
inductive Path (f : Entry FunctionDef) : List Instruction → Int → Instruction → Prop
  | start {i : Instruction} (h : f.record.code.instructions[0]? = some i) : Path f [] 0 i
  | step {done : List Instruction} {drift : Int} {i j : Instruction} (h : Path f done drift i)
      (hflow : FlowsTo f i j) :
      Path f (done ++ [i]) (drift + (i.depthAfter - j.depthBefore)) j

/-- The instructions that are passed on the way from number `i` to number `j`: those in between on a
way down the listing, and those that are gone through again, the branch included, on a way back. -/
def CodeUnit.passed (c : CodeUnit) (i j : Nat) : List Instruction :=
  if i < j then (c.instructions.take j).drop (i + 1) else (c.instructions.take (i + 1)).drop j

namespace Module

/-- How many more values instructions put onto the stack than they take. -/
def netEffect (m : Module) (own : FunctionSignature) : List Instruction → Int
  | [] => 0
  | i :: rest =>
    ((m.arity? own i).map fun arity => (arity.2 : Int) - arity.1).getD 0 + m.netEffect own rest

/-- The net effect of one instruction is the difference of what it puts and takes. -/
theorem netEffect_singleton {m : Module} {own : FunctionSignature} {i : Instruction}
    {pops pushes : Nat} (h : m.arity? own i = some (pops, pushes)) :
    m.netEffect own [i] = pushes - pops := by
  simp [netEffect, h]

/-- The net effects of two lists of instructions add up. -/
theorem netEffect_append (m : Module) (own : FunctionSignature) (l l' : List Instruction) :
    m.netEffect own (l ++ l') = m.netEffect own l + m.netEffect own l' := by
  induction l with
  | nil => rw [List.nil_append, netEffect, Int.zero_add]
  | cons i rest ih => rw [List.cons_append, netEffect, netEffect, ih, Int.add_assoc]

/-- How the recorded depths of a function with the signature `own` go along with control. -/
structure DepthFlow (m : Module) (own : FunctionSignature) (f : Entry FunctionDef) : Prop where
  /-- Control goes on with the next instruction or where the operand of a branch says. -/
  flow : ∀ i ∈ f.record.code.instructions, ∀ j ∈ f.record.code.instructions,
    FlowsTo f i j ↔ i.opcode ≠ .ret ∧ i.opcode ≠ .branch ∧ j.index = i.index + 1 ∨
      i.operand = some ⟨.branch, j.index⟩
  /-- The depths agree where control goes on with the next instruction. -/
  next : ∀ i j, FlowsTo f i j → j.index = i.index + 1 → i.depthAfter = j.depthBefore
  /-- They agree where control jumps exactly if what is passed puts as many values as it takes. -/
  jump : ∀ i j, FlowsTo f i j →
    (i.depthAfter = j.depthBefore ↔
      m.netEffect own (f.record.code.passed i.index j.index) = 0)
  /-- On a path, the depth is the recorded one and the drift. -/
  path : ∀ done drift j, Path f done drift j → m.netEffect own done = j.depthBefore + drift
  /-- Where the drift is not below zero, an instruction finds the values that it takes. -/
  enough : ∀ done drift j, Path f done drift j → 0 ≤ drift →
    ∃ pops pushes, m.arity? own j = some (pops, pushes) ∧ pops ≤ m.netEffect own done

end Module

/-! ## Where control goes on -/

/-- The targets of a flow are the address behind the instruction and the one it jumps to. -/
theorem Instruction.mem_targets_iff {i : Instruction} {address target : Int} :
    target ∈ (i.flow address).targets ↔
      i.opcode ≠ .ret ∧ i.opcode ≠ .branch ∧ target = address + i.size ∨
        i.opcode.isBranch = true ∧ target = address + i.jump := by
  unfold flow
  cases i.opcode <;> simp [Opcode.isBranch]

namespace Body

variable {f : Frame} {data : Bytes} {base : Nat} {is : List Instruction}

/-- Instructions that start at the same place are the same. -/
theorem Scanned.offset_eq_iff (h : Scanned f data base is) {m n : Nat} {i j : Instruction}
    (hi : is[m]? = some i) (hj : is[n]? = some j) : i.offset = j.offset ↔ m = n := by
  constructor
  · intro hoffset
    rcases Nat.lt_trichotomy m n with hmn | hmn | hmn
    · exact absurd hoffset (Nat.ne_of_lt (h.offset_lt hi hj hmn))
    · exact hmn
    · exact absurd hoffset.symm (Nat.ne_of_lt (h.offset_lt hj hi hmn))
  · rintro rfl
    rw [Option.some.inj (hi.symm.trans hj)]

/-- The instruction that starts behind another one is the next one. -/
theorem Scanned.offset_eq_behind_iff (h : Scanned f data base is) {m n : Nat} {i j : Instruction}
    (hi : is[m]? = some i) (hj : is[n]? = some j) : j.offset = i.offset + i.size ↔ n = m + 1 := by
  have hbehind := (h.offset_eq hi).2
  constructor
  · intro hoffset
    -- Were the instruction not further down, it would start in front of the end of the other.
    have hmn : m < n := by
      by_contra hnm
      have hle : totalSize (is.take n) ≤ totalSize (is.take m) :=
        totalSize_take_le (Nat.le_of_not_lt hnm)
      rw [← (h.offset_eq hi).1, ← (h.offset_eq hj).1] at hle
      have hsize := (h.listed_take hi).nonempty
      omega
    obtain ⟨k, hk⟩ : ∃ k, is[m + 1]? = some k := by
      have := (List.getElem?_eq_some_iff.mp hj).1
      exact ⟨_, List.getElem?_eq_getElem (by omega)⟩
    exact (h.offset_eq_iff hj hk).mp (by rw [hoffset, hbehind, (h.offset_eq hk).1])
  · rintro rfl
    rw [hbehind, (h.offset_eq hj).1]

/-! ## What the listing adds up to -/

/-- The instructions in front of a position have left the depth there. -/
theorem Scanned.netEffect_take (h : Scanned f data base is) {n : Nat} (hn : n ≤ is.length) :
    f.owner.netEffect f.signature (is.take n) = depthBehind (is.take n) := by
  induction n with
  | zero => rfl
  | succ n ih =>
    have hi : is[n]? = some is[n] := List.getElem?_eq_getElem hn
    obtain ⟨pops, pushes, harity, -, hdelta⟩ := h.effect (List.getElem_mem hn)
    have hbefore := (h.listed_take hi).depthBefore
    rw [Instruction.depthBehind_take_succ hi, List.take_add_one, hi, Option.toList_some,
      Module.netEffect_append, Module.netEffect_singleton harity, ih (Nat.le_of_lt hn), ← hbefore]
    omega

/-- Instructions between two positions change the depth from the one to the other. -/
theorem Scanned.netEffect_between (h : Scanned f data base is) {m n : Nat} (hmn : m ≤ n)
    (hn : n ≤ is.length) : f.owner.netEffect f.signature ((is.take n).drop m) =
      depthBehind (is.take n) - depthBehind (is.take m) := by
  have hsplit : is.take m ++ (is.take n).drop m = is.take n := by
    have hfront : (is.take n).take m = is.take m := by rw [List.take_take, Nat.min_eq_left hmn]
    rw [← hfront, List.take_append_drop]
  have hwhole := h.netEffect_take hn
  rw [← hsplit, Module.netEffect_append, h.netEffect_take (Nat.le_trans hmn hn), hsplit] at hwhole
  omega

/-- What is passed on the way between two instructions is the distance of their depths. -/
theorem Scanned.netEffect_passed {c : CodeUnit} (h : Scanned f data base c.instructions)
    {i j : Instruction} (hi : i ∈ c.instructions) (hj : j ∈ c.instructions) :
    f.owner.netEffect f.signature (c.passed i.index j.index) =
      if i.index < j.index then (j.depthBefore : Int) - i.depthAfter
      else (i.depthAfter : Int) - j.depthBefore := by
  obtain ⟨m, hi⟩ := List.mem_iff_getElem?.mp hi
  obtain ⟨n, hj⟩ := List.mem_iff_getElem?.mp hj
  have hm : m + 1 ≤ c.instructions.length := (List.getElem?_eq_some_iff.mp hi).1
  have hn : n < c.instructions.length := (List.getElem?_eq_some_iff.mp hj).1
  have hbefore := (h.listed_take hj).depthBefore
  rw [h.index_eq hi, h.index_eq hj, CodeUnit.passed]
  split
  · rename_i hmn
    rw [h.netEffect_between hmn (Nat.le_of_lt hn), Instruction.depthBehind_take_succ hi, hbefore]
  · rename_i hmn
    rw [h.netEffect_between (Nat.le_succ_of_le (Nat.le_of_not_lt hmn)) hm,
      Instruction.depthBehind_take_succ hi, hbefore]

end Body

/-! ## Functions -/

section

variable {f : Entry FunctionDef} {frame : Body.Frame} {data : Bytes} {base : Nat}

/-- Control goes on with the next instruction or where the operand of a branch says. -/
theorem flowsTo_iff (h : Sound frame data base f.record.code.instructions) {i j : Instruction}
    (hi : i ∈ f.record.code.instructions) (hj : j ∈ f.record.code.instructions) :
    FlowsTo f i j ↔ i.opcode ≠ .ret ∧ i.opcode ≠ .branch ∧ j.index = i.index + 1 ∨
      i.operand = some ⟨.branch, j.index⟩ := by
  have hscan := h.scanned
  have hoperand := (h.accepted hi).operand
  have hbranch := h.branch i hi
  obtain ⟨m, hi'⟩ := List.mem_iff_getElem?.mp hi
  obtain ⟨n, hj'⟩ := List.mem_iff_getElem?.mp hj
  have hnext : f.mapping.start + j.offset = f.mapping.start + i.offset + i.size ↔
      j.index = i.index + 1 := by
    rw [hscan.index_eq hi', hscan.index_eq hj', ← hscan.offset_eq_behind_iff hi' hj']
    omega
  have hjump : i.opcode.isBranch = true ∧
      f.mapping.start + j.offset = f.mapping.start + i.offset + i.jump ↔
        i.operand = some ⟨.branch, j.index⟩ := by
    constructor
    · rintro ⟨hop, haddress⟩
      obtain ⟨target, d, ho, hd, hdelta⟩ := hbranch hop
      rw [Instruction.jump, hdelta, Option.getD_some] at haddress
      have htarget : target = n := (hscan.offset_eq_iff hd hj').mp (by omega)
      rw [ho, htarget, hscan.index_eq hj']
    · intro ho
      have hop : i.opcode.isBranch = true := Opcode.isBranch_iff.mpr (hoperand _ ho).1.symm
      obtain ⟨target, d, ho', hd, hdelta⟩ := hbranch hop
      -- The operand is the number of the one instruction that the branch names.
      obtain rfl : j.index = target := by simpa using ho.symm.trans ho'
      rw [hscan.index_eq hj'] at hd
      obtain rfl := Option.some.inj (hj'.symm.trans hd)
      refine ⟨hop, ?_⟩
      rw [Instruction.jump, hdelta, Option.getD_some]
      omega
  rw [FlowsTo, Instruction.mem_targets_iff, hnext, hjump]
  exact ⟨fun h => h.2.2, fun h => ⟨hi, hj, h⟩⟩

/-- On a path, the depth is the recorded one and the drift: an instruction changes both by its
effect, and going on changes the recorded depth by what is added to the drift. -/
theorem Path.netEffect (h : Sound frame data base f.record.code.instructions)
    {done : List Instruction} {drift : Int} {j : Instruction} (hpath : Path f done drift j) :
    j ∈ f.record.code.instructions ∧
      frame.owner.netEffect frame.signature done = j.depthBefore + drift := by
  induction hpath with
  | start hfirst =>
    refine ⟨List.mem_of_getElem? hfirst, ?_⟩
    rw [h.scanned.depthBefore_zero hfirst]
    rfl
  | @step done drift i j _ hflow ih =>
    obtain ⟨hi, hdone⟩ := ih
    obtain ⟨pops, pushes, harity, -, hdelta⟩ := h.scanned.effect hi
    refine ⟨hflow.2.1, ?_⟩
    rw [Module.netEffect_append, Module.netEffect_singleton harity, hdone]
    omega

/-- A body that was read soundly has depths that go along with control. -/
theorem depthFlow_of_sound (h : Sound frame data base f.record.code.instructions) :
    frame.owner.DepthFlow frame.signature f where
  flow i hi j hj := flowsTo_iff h hi hj
  next i j hflow hnext := by
    obtain ⟨n, hi⟩ := List.mem_iff_getElem?.mp hflow.1
    obtain ⟨k, hj⟩ := List.mem_iff_getElem?.mp hflow.2.1
    rw [h.scanned.index_eq hi, h.scanned.index_eq hj] at hnext
    exact (h.scanned.depthBefore_succ hi (hnext ▸ hj)).symm
  jump i j hflow := by
    rw [h.scanned.netEffect_passed hflow.1 hflow.2.1]
    split <;> omega
  path done drift j hpath := (hpath.netEffect h).2
  enough done drift j hpath hdrift := by
    obtain ⟨hj, hdone⟩ := hpath.netEffect h
    obtain ⟨pops, pushes, harity, hpops, -⟩ := h.scanned.effect hj
    exact ⟨pops, pushes, harity, by omega⟩

end

namespace Module

/-- In every function of a loaded module, control goes on with the next instruction at the recorded
depth; a jump meets the recorded depth exactly if what it passes puts as many values as it takes; and
the depth of the operand stack on a path from the first instruction on is the recorded depth and the
drift of the path, so that it is the recorded depth where the drift is zero and no instruction lacks
values there. -/
theorem loaded_depthFlow {config : Config} {data : Bytes} {m : Module} (h : Loads config data m)
    {f : Entry FunctionDef} (hf : f ∈ m.internalFunctions) :
    ∃ own, m.signatureAt? f.record.handle = some own ∧ m.DepthFlow own f := by
  obtain ⟨frame, rfl, hown, hsound⟩ :=
    (h.decoded.1.entries f (mem_functionEntries hf)).body.exists_frame
  exact ⟨frame.signature, hown, depthFlow_of_sound hsound⟩

/-- A script that jumps over a push and over the pop that goes with it: `BRANCH 2`, `LD_TRUE`, `LD_TRUE`,
`POP`, `BRANCH 6`, `POP`, `RET`. -/
def overPushSample : Bytes :=
  Format.assemble .libra [
    ⟨.moduleHandles, [0, 0]⟩, ⟨.functionHandles, [0, 1, 0]⟩, ⟨.addressPool, List.replicate 32 0⟩,
    ⟨.stringPool, [6, 0x3C, 0x53, 0x45, 0x4C, 0x46, 0x3E, 1, 0x66]⟩,
    ⟨.functionSignatures, [2, 0, 0]⟩, ⟨.localSignatures, [3, 0]⟩,
    ⟨.main, [0, 0, 2, 0, 7, 0] ++
      [0x05, 2, 0] ++ [0x09] ++ [0x09] ++ [0x01] ++ [0x05, 6, 0] ++ [0x01] ++ [0x02]⟩]

/-- The first branch arrives at its target with nothing on the stack, where one value is recorded. -/
theorem overPushSample_depthFlow : ∃ m f own i j, load .standard overPushSample = .ok m ∧
    f ∈ m.internalFunctions ∧ Path f [i] (-1) j ∧ i.depthAfter = 0 ∧ j.depthBefore = 1 ∧
    m.signatureAt? f.record.handle = some own ∧ m.DepthFlow own f := by
  have check : (load .standard overPushSample).toOption.any (fun m =>
      decide (∃ f ∈ m.internalFunctions, ∃ i ∈ f.record.code.instructions,
        ∃ j ∈ f.record.code.instructions, f.record.code.instructions[0]? = some i ∧
          FlowsTo f i j ∧ i.depthAfter = 0 ∧ j.depthBefore = 1)) = true := by
    decide +kernel
  obtain ⟨m, hload, hcheck⟩ := exists_of_any_toOption check
  obtain ⟨f, hf, i, -, j, -, hfirst, hflow, hi, hj⟩ := of_decide_eq_true hcheck
  obtain ⟨own, hown, hdepths⟩ := loaded_depthFlow (.inl hload) hf
  have hpath := (Path.start hfirst).step hflow
  rw [hi, hj] at hpath
  exact ⟨m, f, own, i, j, hload, hf, hpath, hi, hj, hown, hdepths⟩

/-- The recorded depths need not agree where control goes on. -/
theorem not_forall_depthAfter_eq : ¬ ∀ (config : Config) (data : Bytes) (m : Module)
    (f : Entry FunctionDef) (i j : Instruction), Loads config data m → f ∈ m.internalFunctions →
      FlowsTo f i j → i.depthAfter = j.depthBefore := by
  intro hall
  have check : (load .standard overPushSample).toOption.any (fun m =>
      decide (∃ f ∈ m.internalFunctions, ∃ i ∈ f.record.code.instructions,
        ∃ j ∈ f.record.code.instructions, FlowsTo f i j ∧ i.depthAfter ≠ j.depthBefore)) = true := by
    decide +kernel
  obtain ⟨m, hload, hcheck⟩ := exists_of_any_toOption check
  obtain ⟨f, hf, i, -, j, -, hflow, hne⟩ := of_decide_eq_true hcheck
  exact hne (hall .standard overPushSample m f i j (.inl hload) hf hflow)

end Module

end MoveBytecode
