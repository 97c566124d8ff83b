import Mathlib.Data.List.Induction
import MoveBytecode.Proofs.Format.Assembly
import MoveBytecode.Proofs.Loading.Decode

/-!
# The code of a loaded function

A body was read instruction by instruction (`Body.Sound`), each behind the ones in front of it. Here
the same is said about positions in the listing, and about the records that arities come from, for
every function of a loaded module (`Module.CodeInvariants`).
-/

namespace MoveBytecode

open Body (Sound Scanned)
open Instruction (totalSize depthBehind)

namespace Instruction

/-- The size of instructions is the sum of their sizes. -/
theorem totalSize_eq_sum (l : List Instruction) : totalSize l = (l.map size).sum := by
  induction l with
  | nil => rfl
  | cons i rest ih => rw [totalSize, ih, List.map_cons, List.sum_cons]

/-- The stack depth behind an instruction and the ones in front of it. -/
theorem depthBehind_take_succ {l : List Instruction} {n : Nat} {i : Instruction}
    (h : l[n]? = some i) : depthBehind (l.take (n + 1)) = i.depthAfter := by
  rw [List.take_add_one, h]
  exact depthBehind_concat _ i

end Instruction

namespace Module

/-- The signature of the function handle number `handle`. -/
def signatureAt? (m : Module) (handle : Nat) : Option FunctionSignature :=
  m.functionHandles.records[handle]?.bind fun h => m.functionSignatures.records[h.signature]?

/-- The number of fields of the struct definition number `definition`. -/
def fieldCountAt? (m : Module) (definition : Nat) : Option Nat :=
  m.structDefs.records[definition]?.map (·.fieldCount)

/-- How many values an instruction takes from the stack and how many it puts there, in a function
with the signature `own`. -/
def arity? (m : Module) (own : FunctionSignature) (i : Instruction) : Option (Nat × Nat) :=
  match i.opcode, i.operand with
  | .ret, _ => some (own.returns.length, 0)
  | .pack, some o => (m.fieldCountAt? o.value).map fun count => (count, 1)
  | .unpack, some o => (m.fieldCountAt? o.value).map fun count => (1, count)
  | .call, some o =>
    (m.signatureAt? o.value).map fun callee => (callee.params.length, callee.returns.length)
  | opcode, _ => opcode.pops.count?.bind fun pops => opcode.pushes.count?.map fun pushes =>
    (pops, pushes)

/-- What holds of the code of a function in a module that was read from `data`. -/
structure CodeInvariants (m : Module) (data : Bytes) (f : Entry FunctionDef) : Prop where
  /-- Instructions are numbered from zero on. -/
  index : ∀ (n : Nat) i, f.record.code.instructions[n]? = some i → i.index = n
  /-- An instruction starts where the sizes of the earlier ones add up to. -/
  offset : ∀ (n : Nat) i, f.record.code.instructions[n]? = some i →
    i.offset = ((f.record.code.instructions.take n).map Instruction.size).sum
  /-- The instructions are the bytes between the start and the end of the body. -/
  bytes : f.record.code.bytes = data.extract f.record.code.start f.record.code.stop
  /-- The body ends with the record, within the data. -/
  stop : f.file.stop = f.record.code.stop
  inside : f.record.code.stop ≤ data.size
  /-- The stack is empty at the start, is handed from instruction to instruction, and is empty at
  the end. -/
  depth_first : ∀ i, f.record.code.instructions[0]? = some i → i.depthBefore = 0
  depth_next : ∀ (n : Nat) i j, f.record.code.instructions[n]? = some i →
    f.record.code.instructions[n + 1]? = some j → j.depthBefore = i.depthAfter
  depth_last : ∀ i, f.record.code.instructions.getLast? = some i → i.depthAfter = 0
  /-- The depth changes by the arity of the instruction, which takes no more values than there
  are. -/
  effect : ∃ own, m.signatureAt? f.record.handle = some own ∧
    ∀ i ∈ f.record.code.instructions, ∃ pops pushes, m.arity? own i = some (pops, pushes) ∧
      pops ≤ i.depthBefore ∧ (i.depthAfter : Int) - i.depthBefore = pushes - pops
  /-- Exactly the branches have a distance. -/
  delta_isSome : ∀ i ∈ f.record.code.instructions,
    i.branchDelta.isSome = true ↔ i.opcode ∈ [.branch, .brTrue, .brFalse]
  /-- The distance of a branch leads to the instruction that its operand numbers. -/
  delta : ∀ i ∈ f.record.code.instructions, ∀ distance, i.branchDelta = some distance →
    ∃ target j, i.operand = some ⟨.branch, target⟩ ∧
      f.record.code.instructions[target]? = some j ∧ (i.offset : Int) + distance = j.offset

/-! ## Arities -/

/-- The signature that is looked up for a handle is the one at the place of the handle. -/
theorem signatureAt?_of_signatureOf {m : Module} {handle : Int} {e : Entry FunctionHandle}
    {s : FunctionSignature} (he : m.functionHandles.get handle = .ok e)
    (hs : m.signatureOf e.record = .ok s) : m.signatureAt? handle.toNat = some s := by
  obtain ⟨found, hfound, h⟩ := bind_eq_ok.mp hs
  obtain rfl := pure_eq_ok.mp h
  rw [signatureAt?, (Pool.record_of_get he).2, Option.bind_some]
  exact (Pool.record_of_get hfound).2

/-- The number of fields that is looked up for a definition is the one at the place of the definition. -/
theorem fieldCountAt?_of_get {m : Module} {definition : Nat} {e : Entry StructDef}
    (he : m.structDefs.get definition = .ok e) :
    m.fieldCountAt? definition = some e.record.fieldCount := by
  have hrecord : m.structDefs.records[definition]? = some e.record := (Pool.record_of_get he).2
  rw [fieldCountAt?, hrecord]
  rfl

end Module

/-- The operand that an instruction has is a number. -/
theorem Instruction.operandValue_eq_ok {i : Instruction} {value : Nat} :
    i.operandValue = .ok value ↔ ∃ kind, i.operand = some ⟨kind, value⟩ := by
  unfold operandValue
  cases i.operand with
  | none => simp
  | some o =>
    obtain ⟨kind, n⟩ := o
    simp

namespace Body

/-- The effect that a read computes is the arity of the instruction. -/
theorem arity?_of_stackEffect {f : Frame} {i : Instruction} {pops pushes : Nat}
    (h : stackEffect f i = .ok (pops, pushes)) :
    f.owner.arity? f.signature i = some (pops, pushes) := by
  cases hop : i.opcode with
  | ret =>
    simp only [stackEffect, hop] at h
    simp only [Module.arity?, hop, pure_eq_ok.mp h]
  | pack | unpack =>
    simp only [stackEffect, hop] at h
    obtain ⟨value, hvalue, h⟩ := bind_eq_ok.mp h
    obtain ⟨e, he, h⟩ := bind_eq_ok.mp h
    obtain ⟨kind, hoperand⟩ := Instruction.operandValue_eq_ok.mp hvalue
    simp only [Module.arity?, hop, hoperand, Module.fieldCountAt?_of_get he, Option.map_some,
      pure_eq_ok.mp h]
  | call =>
    simp only [stackEffect, hop] at h
    obtain ⟨value, hvalue, h⟩ := bind_eq_ok.mp h
    obtain ⟨e, he, h⟩ := bind_eq_ok.mp h
    obtain ⟨s, hs, h⟩ := bind_eq_ok.mp h
    obtain ⟨kind, hoperand⟩ := Instruction.operandValue_eq_ok.mp hvalue
    have hcallee : f.owner.signatureAt? value = some s := Module.signatureAt?_of_signatureOf he hs
    simp only [Module.arity?, hop, hoperand, hcallee, Option.map_some, pure_eq_ok.mp h]
  -- All other opcodes pop and push what does not depend on the module.
  | _ =>
    simp only [stackEffect, hop] at h
    simp only [Module.arity?, hop]
    obtain ⟨rfl, rfl⟩ := Prod.mk.inj (pure_eq_ok.mp h)
    rfl

/-! ## Bytes -/

/-- The raw bytes of the instructions in front of a position are the bytes up to there. -/
theorem Scanned.foldl_raw {f : Frame} {data : Bytes} {base : Nat} {is : List Instruction}
    (h : Scanned f data base is) :
    is.foldl (fun bytes i => bytes ++ i.raw) #[] = data.extract base (base + totalSize is) := by
  induction is using List.reverseRecOn with
  | nil => exact (Array.extract_eq_empty_iff.mpr (Nat.min_le_left _ _)).symm
  | append_singleton before i ih =>
    have hbefore : Scanned f data base before := by
      intro first j after hsplit
      refine h first j (after ++ [i]) ?_
      rw [hsplit, List.append_assoc, List.cons_append]
    have hi := h before i [] rfl
    -- The bytes of the instruction follow those of the instructions in front of it.
    rw [List.foldl_append, ih hbefore, List.foldl_cons, List.foldl_nil, hi.raw, Bytes.window,
      hi.offset, Instruction.totalSize_append, Array.extract_append_extract]
    simp only [totalSize]
    congr 1 <;> omega

/-! ## Bodies by position -/

/-- Instructions are numbered in order. -/
theorem Scanned.index_eq {f : Frame} {data : Bytes} {base : Nat} {is : List Instruction}
    (h : Scanned f data base is) {n : Nat} {i : Instruction} (hi : is[n]? = some i) :
    i.index = n := by
  have hn : n < is.length := (List.getElem?_eq_some_iff.mp hi).1
  rw [(h.listed_take hi).index, List.length_take]
  omega

/-- The stack is empty in front of the first instruction. -/
theorem Scanned.depthBefore_zero {f : Frame} {data : Bytes} {base : Nat} {is : List Instruction}
    (h : Scanned f data base is) {i : Instruction} (hi : is[0]? = some i) : i.depthBefore = 0 :=
  (h.listed_take hi).depthBefore

/-- The depth is handed on along the listing. -/
theorem Scanned.depthBefore_succ {f : Frame} {data : Bytes} {base : Nat} {is : List Instruction}
    (h : Scanned f data base is) {n : Nat} {i j : Instruction} (hi : is[n]? = some i)
    (hj : is[n + 1]? = some j) : j.depthBefore = i.depthAfter := by
  rw [(h.listed_take hj).depthBefore, Instruction.depthBehind_take_succ hi]

/-- The depth changes by the arity, and there are enough values. -/
theorem Scanned.effect {f : Frame} {data : Bytes} {base : Nat} {is : List Instruction}
    (h : Scanned f data base is) {i : Instruction} (hi : i ∈ is) :
    ∃ pops pushes, f.owner.arity? f.signature i = some (pops, pushes) ∧ pops ≤ i.depthBefore ∧
      (i.depthAfter : Int) - i.depthBefore = pushes - pops := by
  obtain ⟨before, after, hsplit⟩ := List.append_of_mem hi
  obtain ⟨pops, pushes, heffect, hpops, hafter⟩ := (h before i after hsplit).effect
  exact ⟨pops, pushes, arity?_of_stackEffect heffect, hpops, by omega⟩

/-- The instructions with a distance are the branches. -/
theorem Sound.isSome_branchDelta {f : Frame} {data : Bytes} {base : Nat} {is : List Instruction}
    (h : Sound f data base is) {i : Instruction} (hi : i ∈ is) :
    i.branchDelta.isSome = true ↔ i.opcode ∈ [.branch, .brTrue, .brFalse] := by
  have hbranch : i.opcode.isBranch = true ↔ i.opcode ∈ [.branch, .brTrue, .brFalse] := by
    cases i.opcode <;> decide
  rw [← hbranch]
  cases hop : i.opcode.isBranch with
  | true =>
    obtain ⟨_, _, -, -, hdelta⟩ := h.branch i hi hop
    simp [hdelta]
  | false => simp [h.noBranch i hi hop]

/-- The distance of an instruction leads to the one that its operand numbers. -/
theorem Sound.offset_add_branchDelta {f : Frame} {data : Bytes} {base : Nat}
    {is : List Instruction} (h : Sound f data base is) {i : Instruction} (hi : i ∈ is)
    {distance : Int} (hdistance : i.branchDelta = some distance) :
    ∃ target j, i.operand = some ⟨.branch, target⟩ ∧ is[target]? = some j ∧
      (i.offset : Int) + distance = j.offset := by
  cases hop : i.opcode.isBranch with
  | false => simp [h.noBranch i hi hop] at hdistance
  | true =>
    obtain ⟨target, j, hoperand, hj, hdelta⟩ := h.branch i hi hop
    obtain rfl := Option.some.inj (hdelta.symm.trans hdistance)
    exact ⟨target, j, hoperand, hj, by omega⟩

end Body

/-! ## Functions -/

namespace Module

/-- The frame of a function that a read has left, with the signature of its handle. -/
theorem HoldsBody.exists_frame {m : Module} {f : FunctionDef} (h : m.HoldsBody f) :
    ∃ frame : Body.Frame, frame.owner = m ∧ m.signatureAt? f.handle = some frame.signature ∧
      Sound frame m.data f.code.start f.code.instructions := by
  obtain ⟨frame, hframe, hsound⟩ := h
  obtain ⟨handle, own, _, _, hhandle, hown, -, -, -, rfl⟩ := Body.frame_eq_ok.mp hframe
  exact ⟨_, rfl, signatureAt?_of_signatureOf hhandle hown, hsound⟩

/-- A function that a read has left satisfies the invariants. -/
theorem HoldsEntry.codeInvariants {m : Module} {f : Entry FunctionDef} (h : m.HoldsEntry f) :
    m.CodeInvariants m.data f := by
  obtain ⟨frame, hframe, hown, hsound⟩ := h.body.exists_frame
  have hscan := hsound.scanned
  refine ⟨fun n i hi => hscan.index_eq hi, fun n i hi => ?_, hscan.foldl_raw, h.stop, h.inside,
    fun i hi => hscan.depthBefore_zero hi, fun n i j hi hj => hscan.depthBefore_succ hi hj,
    fun i hi => ?_, ⟨frame.signature, hown, fun i hi => hframe ▸ hscan.effect hi⟩,
    fun i hi => hsound.isSome_branchDelta hi,
    fun i hi distance hdistance => hsound.offset_add_branchDelta hi hdistance⟩
  · rw [(hscan.offset_eq hi).1, Instruction.totalSize_eq_sum]
  · have hbalanced := hsound.balanced
    simpa [depthBehind, hi] using hbalanced

/-- Every function with a body in a loaded module satisfies the invariants of its code: numbers,
offsets and bytes of its instructions, the depths of the operand stack along the listing, and the
distances of its branches. -/
theorem loaded_codeInvariants {config : Config} {data : Bytes} {m : Module}
    (h : Loads config data m) {f : Entry FunctionDef} (hf : f ∈ m.internalFunctions) :
    m.CodeInvariants data f := by
  obtain ⟨hdecoded, rfl⟩ := h.decoded
  exact (hdecoded.entries f (mem_functionEntries hf)).codeInvariants

/-- A library with a struct of two fields and a function that branches, packs, unpacks, calls a
function elsewhere and returns a value: `COPY_LOC 0`, `LD_CONST 0`, `GT`, `BR_FALSE 11`, `COPY_LOC 0`,
`COPY_LOC 0`, `PACK 0`, `UNPACK 0`, `ADD`, `CALL 1`, `RET`, `COPY_LOC 0`, `RET`. -/
def arithmeticSample : Bytes :=
  Format.assemble .libra [
    ⟨.moduleHandles, [0, 0]⟩, ⟨.structHandles, [0, 3, 0]⟩, ⟨.functionHandles, [0, 1, 0, 0, 2, 0]⟩,
    ⟨.addressPool, List.replicate 32 0⟩,
    ⟨.stringPool, [1, 0x4D, 1, 0x66, 1, 0x67, 1, 0x54, 1, 0x78, 1, 0x79]⟩,
    ⟨.structDefs, [0, 2, 0]⟩, ⟨.fieldDefs, [0, 4, 0, 0, 5, 0]⟩,
    ⟨.typeSignatures, [1, 2]⟩, ⟨.functionSignatures, [2, 1, 2, 1, 2]⟩, ⟨.localSignatures, [3, 1, 2]⟩,
    ⟨.functionDefs,
      [0, 0, 2, 0, 13, 0] ++
        [0x0B, 0] ++ [0x06, 0, 0, 0, 0, 0, 0, 0, 0] ++ [0x24] ++ [0x04, 11, 0] ++
        [0x0B, 0] ++ [0x0B, 0] ++ [0x12, 0] ++ [0x13, 0] ++ [0x16] ++ [0x11, 1] ++ [0x02] ++
        [0x0B, 0] ++ [0x02]⟩]

/-- The function of this library has a branch in its body, and its depths and distances are as they
should be. -/
theorem arithmeticSample_codeInvariants : ∃ m f, load .standard arithmeticSample = .ok m ∧
    m.internalFunctions = [f] ∧
    f.record.code.instructions.map (fun i => (i.depthBefore, i.branchDelta)) =
      [(0, none), (1, none), (2, none), (1, some 15), (0, none), (1, none), (2, none), (1, none),
        (2, none), (1, none), (1, none), (0, none), (1, none)] ∧
    m.CodeInvariants arithmeticSample f := by
  have check : (load .standard arithmeticSample).toOption.any (fun m =>
      decide (∃ f ∈ m.internalFunctions, m.internalFunctions = [f] ∧
        f.record.code.instructions.map (fun i => (i.depthBefore, i.branchDelta)) =
          [(0, none), (1, none), (2, none), (1, some 15), (0, none), (1, none), (2, none), (1, none),
            (2, none), (1, none), (1, none), (0, none), (1, none)])) = true := by
    decide +kernel
  obtain ⟨m, hload, hcheck⟩ := exists_of_any_toOption check
  obtain ⟨f, hmem, hf, hdepths⟩ := of_decide_eq_true hcheck
  exact ⟨m, f, hload, hf, hdepths, loaded_codeInvariants (.inl hload) hmem⟩

end Module

end MoveBytecode
