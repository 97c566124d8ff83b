import MoveBytecode.Proofs.Reading.Advance

/-!
# What a body holds once it is read

`Body.read` either fails or leaves a body in which every instruction stands where its offset says,
has an operand that was accepted, and takes no more values than there are: `Body.Sound`. The
invariant of the scan is the same statement about the instructions read so far (`Body.Scanned`),
with one step lemma; the distances of branches are filled in afterwards and change nothing else.
-/

namespace MoveBytecode

open Instruction (totalSize)

namespace OperandKind

/-- The bound of the operands of a kind: they have one, two or eight bytes, and an index is read as
a number below 2^16. -/
def limit : OperandKind → Nat
  | .none => 0
  | .immediate => 2 ^ 64
  | .localVar => 2 ^ 8
  | _ => 2 ^ 16

end OperandKind

/-- The branches are the opcodes whose operand is a branch operand. -/
theorem Opcode.isBranch_iff {opcode : Opcode} :
    opcode.isBranch = true ↔ opcode.operandKind = .branch := by
  cases opcode <;> decide

namespace Instruction

/-- The instruction with another branch distance. -/
def withDelta (i : Instruction) (delta : Option Int) : Instruction := { i with branchDelta := delta }

/-- The branch distance of an instruction does not change its size. -/
@[simp] theorem size_withDelta (i : Instruction) (delta : Option Int) :
    (i.withDelta delta).size = i.size := rfl

/-- The stack depth behind a list of instructions. -/
def depthBehind (l : List Instruction) : Nat := (l.getLast?.map (·.depthAfter)).getD 0

/-- The depth behind a list of instructions is that behind its last one. -/
@[simp] theorem depthBehind_concat (l : List Instruction) (i : Instruction) :
    depthBehind (l ++ [i]) = i.depthAfter := by
  simp [depthBehind]

/-- Branch distances do not change the sizes of instructions together. -/
theorem totalSize_map_withDelta (delta : Instruction → Option Int) (l : List Instruction) :
    totalSize (l.map fun i => i.withDelta (delta i)) = totalSize l := by
  induction l with
  | nil => rfl
  | cons i rest ih => simp only [List.map_cons, totalSize, size_withDelta, ih]

/-- Branch distances do not change the depth behind instructions. -/
theorem depthBehind_map_withDelta (delta : Instruction → Option Int) (l : List Instruction) :
    depthBehind (l.map fun i => i.withDelta (delta i)) = depthBehind l := by
  unfold depthBehind
  rw [List.getLast?_map]
  cases l.getLast? <;> rfl

end Instruction

open Instruction (depthBehind)

namespace Body

/-- An operand that a read leaves: there is one exactly if the opcode has one, it is of the opcode's
kind, within the bound of its field, and it was accepted. -/
structure Accepted (f : Frame) (i : Instruction) : Prop where
  isSome : i.operand.isSome = true ↔ i.opcode.operandKind ≠ .none
  operand : ∀ o ∈ i.operand, o.kind = i.opcode.operandKind ∧ o.value < o.kind.limit ∧
    checkOperand f i.opcode o = .ok ()

/-- An instruction as a read leaves it behind those in `before`, in a body that starts at `base`. -/
structure Listed (f : Frame) (data : Bytes) (base : Nat) (before : List Instruction)
    (i : Instruction) : Prop where
  index : i.index = before.length
  offset : i.offset = totalSize before
  nonempty : 0 < i.size
  raw : i.raw = data.window (base + i.offset) i.size
  accepted : Accepted f i
  depthBefore : i.depthBefore = depthBehind before
  effect : ∃ pops pushes, stackEffect f i = .ok (pops, pushes) ∧ pops ≤ i.depthBefore ∧
    i.depthAfter = i.depthBefore - pops + pushes

/-- Every instruction of a list is as a read leaves it behind those in front of it. -/
def Scanned (f : Frame) (data : Bytes) (base : Nat) (is : List Instruction) : Prop :=
  ∀ before i after, is = before ++ i :: after → Listed f data base before i

/-- A body as a read leaves it: its instructions in order, no value left at the end, and every branch
with the distance to the instruction that it names. -/
structure Sound (f : Frame) (data : Bytes) (base : Nat) (is : List Instruction) : Prop where
  scanned : Scanned f data base is
  balanced : depthBehind is = 0
  branch : ∀ i ∈ is, i.opcode.isBranch = true →
    ∃ target destination, i.operand = some ⟨.branch, target⟩ ∧ is[target]? = some destination ∧
      i.branchDelta = some ((destination.offset : Int) - i.offset)
  noBranch : ∀ i ∈ is, i.opcode.isBranch = false → i.branchDelta = none

/-- The instructions of a sound body are accepted. -/
theorem Sound.accepted {f : Frame} {data : Bytes} {base : Nat} {is : List Instruction}
    (h : Sound f data base is) {i : Instruction} (hi : i ∈ is) : Accepted f i := by
  obtain ⟨before, after, hsplit⟩ := List.append_of_mem hi
  exact (h.scanned before i after hsplit).accepted

/-- A body starts at its first instruction. -/
theorem Sound.offset_head {f : Frame} {data : Bytes} {base : Nat} {is : List Instruction}
    (h : Sound f data base is) : ∀ i, is.head? = some i → i.offset = 0 := by
  intro i hi
  obtain ⟨rest, rfl⟩ := List.head?_eq_some_iff.mp hi
  exact (h.scanned [] i rest rfl).offset

/-- An instruction is listed behind those at the positions before it. -/
theorem Scanned.listed_take {f : Frame} {data : Bytes} {base : Nat} {is : List Instruction}
    (h : Scanned f data base is) {n : Nat} {i : Instruction} (hi : is[n]? = some i) :
    Listed f data base (is.take n) i := by
  obtain ⟨hn, rfl⟩ := List.getElem?_eq_some_iff.mp hi
  refine h _ _ (is.drop (n + 1)) ?_
  rw [← List.drop_eq_getElem_cons hn, List.take_append_drop]

/-- An instruction stands behind the bytes of those in front of it. -/
theorem Scanned.offset_eq {f : Frame} {data : Bytes} {base : Nat} {is : List Instruction}
    (h : Scanned f data base is) {n : Nat} {i : Instruction} (hi : is[n]? = some i) :
    i.offset = totalSize (is.take n) ∧ i.offset + i.size = totalSize (is.take (n + 1)) := by
  have hoffset := (h.listed_take hi).offset
  refine ⟨hoffset, ?_⟩
  rw [List.take_add_one, hi, Instruction.totalSize_append, hoffset]
  simp [totalSize]

/-- More instructions have no fewer bytes. -/
theorem totalSize_take_le {is : List Instruction} {m n : Nat} (h : m ≤ n) :
    totalSize (is.take m) ≤ totalSize (is.take n) := by
  have hsplit : is.take m ++ (is.take n).drop m = is.take n := by
    rw [← Nat.min_eq_left h, ← List.take_take, Nat.min_eq_left h]
    exact List.take_append_drop m (is.take n)
  rw [← hsplit, Instruction.totalSize_append]
  exact Nat.le_add_right _ _

/-- Later instructions start behind earlier ones. -/
theorem Scanned.offset_lt {f : Frame} {data : Bytes} {base : Nat} {is : List Instruction}
    (h : Scanned f data base is) {m n : Nat} {i j : Instruction} (hi : is[m]? = some i)
    (hj : is[n]? = some j) (hmn : m < n) : i.offset < j.offset := by
  have hsize : 0 < i.size := by
    obtain ⟨before, after, hsplit⟩ := List.append_of_mem (List.mem_of_getElem? hi)
    exact (h before i after hsplit).nonempty
  have hbehind := (h.offset_eq hi).2
  have hstart := (h.offset_eq hj).1
  have hle : totalSize (is.take (m + 1)) ≤ totalSize (is.take n) := totalSize_take_le hmn
  omega

/-! ## One instruction -/

/-- No instructions are scanned from no bytes. -/
theorem scanned_nil (f : Frame) (data : Bytes) (base : Nat) : Scanned f data base [] := by
  intro before i after h
  simp at h

/-- A read that takes one more instruction keeps those in front of it as they are. -/
theorem Scanned.concat {f : Frame} {data : Bytes} {base : Nat} {is : List Instruction}
    {i : Instruction} (h : Scanned f data base is) (hi : Listed f data base is i) :
    Scanned f data base (is ++ [i]) := by
  intro before j after hj
  rcases List.eq_nil_or_concat' after with rfl | ⟨after, k, rfl⟩
  · obtain ⟨rfl, hij⟩ := List.append_inj' hj rfl
    obtain rfl := List.singleton_inj.mp hij
    exact hi
  · rw [← List.cons_append, ← List.append_assoc] at hj
    exact h before j after (List.append_inj' hj rfl).1

/-- The number of an operand of a kind is within the bound of its field. -/
theorem operand_lt {kind : OperandKind} {value : Nat} {c c' : Cursor}
    (h : Runs (Reader.operand kind) c (some value) c') : value < kind.limit := by
  -- Three groups of seven bits could hold more than 16 bits, which is refused.
  have index : ∀ n c', Runs Reader.varu16 c n c' → n < 2 ^ 16 := by
    intro n c' h
    obtain ⟨m, d, -, h⟩ := runs_bind.mp h
    split at h
    · exact absurd h not_runs_throw
    · obtain ⟨rfl, -⟩ := runs_pure.mp h
      omega
  cases kind with
  | none => simp [Reader.operand] at h
  | branch =>
    obtain ⟨n, d, hn, h⟩ := runs_bind.mp h
    obtain ⟨hv, -⟩ := runs_pure.mp h
    obtain rfl := Option.some.inj hv
    exact Reader.unsigned_lt hn
  | immediate =>
    obtain ⟨n, d, hn, h⟩ := runs_bind.mp h
    obtain ⟨hv, -⟩ := runs_pure.mp h
    obtain rfl := Option.some.inj hv
    exact Reader.unsigned_lt hn
  | localVar =>
    obtain ⟨n, d, -, h⟩ := runs_bind.mp h
    obtain ⟨hv, -⟩ := runs_pure.mp h
    obtain rfl := Option.some.inj hv
    exact n.toNat_lt
  | address | bytearray | string | functionHandle | fieldDef | structDef =>
    obtain ⟨n, d, hn, h⟩ := runs_bind.mp h
    obtain ⟨hv, -⟩ := runs_pure.mp h
    obtain rfl := Option.some.inj hv
    exact index n d hn

/-- An operand is read exactly for the kinds that have one. -/
theorem operand_isSome {kind : OperandKind} {value : Option Nat} {c c' : Cursor}
    (h : Runs (Reader.operand kind) c value c') : value.isSome = true ↔ kind ≠ .none := by
  cases kind with
  | none => simp_all [Reader.operand]
  | branch | immediate | localVar | address | bytearray | string | functionHandle | fieldDef
    | structDef =>
    obtain ⟨n, d, -, h⟩ := runs_bind.mp h
    obtain ⟨rfl, -⟩ := runs_pure.mp h
    simp

/-- An instruction is read as its opcode, the operand of the opcode's kind, and the bytes of both. -/
theorem runs_readInstruction {f : Frame} {base index : Nat} {c c' : Cursor} {i : Instruction} :
    Runs (readInstruction f base index) c i c' ↔
      ∃ byte opcode value, Runs Reader.u8 c byte (c.moved 1) ∧ Opcode.ofCode? byte = some opcode ∧
        Runs (Reader.operand opcode.operandKind) (c.moved 1) value c' ∧
        (∀ v ∈ value, checkOperand f opcode ⟨opcode.operandKind, v⟩ = .ok ()) ∧
        i = ⟨opcode, c'.data.window c.position (c'.position - c.position), index,
          c.position - base, value.map (Operand.mk opcode.operandKind), 0, 0, none⟩ := by
  simp only [readInstruction, runs_bind, Reader.runs_position]
  constructor
  · rintro ⟨_, _, ⟨rfl, rfl⟩, byte, d, hbyte, h⟩
    obtain ⟨-, -, rfl⟩ := Reader.runs_u8.mp hbyte
    split at h
    · exact absurd h not_runs_throw
    · rename_i opcode hop
      obtain ⟨value, e, hvalue, h⟩ := runs_bind.mp h
      refine ⟨byte, opcode, value, hbyte, hop, ?_⟩
      -- An operand is checked where there is one; the reads of the cursor around it change nothing.
      cases value with
      | none =>
        simp only [Option.map_none, runs_bind, runs_get, Reader.runs_position, runs_pure] at h
        obtain ⟨_, _, ⟨rfl, rfl⟩, _, _, ⟨rfl, rfl⟩, rfl, rfl⟩ := h
        exact ⟨hvalue, by simp, rfl⟩
      | some v =>
        simp only [Option.map_some, runs_bind, runs_get, Reader.runs_position, runs_pure,
          Reader.runs_ofExcept] at h
        obtain ⟨_, _, ⟨hcheck, rfl⟩, _, _, ⟨rfl, rfl⟩, _, _, ⟨rfl, rfl⟩, rfl, rfl⟩ := h
        exact ⟨hvalue, by simpa using hcheck, rfl⟩
  · rintro ⟨byte, opcode, value, hbyte, hop, hvalue, hcheck, rfl⟩
    refine ⟨_, _, ⟨rfl, rfl⟩, byte, _, hbyte, ?_⟩
    simp only [hop]
    refine runs_bind.mpr ⟨value, c', hvalue, ?_⟩
    cases value with
    | none =>
      simp only [Option.map_none, runs_bind, runs_get, Reader.runs_position, runs_pure]
      exact ⟨_, _, ⟨rfl, rfl⟩, _, _, ⟨rfl, rfl⟩, rfl, rfl⟩
    | some v =>
      simp only [Option.map_some, runs_bind, runs_get, Reader.runs_position, runs_pure,
        Reader.runs_ofExcept]
      exact ⟨(), _, ⟨hcheck v rfl, rfl⟩, _, _, ⟨rfl, rfl⟩, _, _, ⟨rfl, rfl⟩, rfl, rfl⟩

/-- A window that ends within the data has as many bytes as it is asked for. -/
theorem size_window {data : Bytes} {start count : Nat} (h : start + count ≤ data.size) :
    (data.window start count).size = count := by
  simp only [Bytes.window, Array.size_extract]
  omega

/-- What a read of the instruction behind those in `before` leaves. -/
theorem listed_of_step {f : Frame} {base : Nat} {before : List Instruction} {c c' : Cursor}
    {i : Instruction} (hc : c.Inside) (hp : c.position = base + totalSize before)
    (h : Runs (step f base before.length (depthBehind before)) c i c') :
    Listed f c.data base before i ∧ c' = c.moved i.size ∧ c.position + i.size ≤ c.stop ∧
      i.branchDelta = none := by
  simp only [step, runs_bind, Reader.runs_ofExcept] at h
  obtain ⟨j, d, hj, ⟨pops, pushes⟩, _, ⟨heffect, rfl⟩, h⟩ := h
  obtain ⟨byte, opcode, value, hbyte, hop, hvalue, hcheck, rfl⟩ := runs_readInstruction.mp hj
  obtain ⟨hstop, -, -⟩ := Reader.runs_u8.mp hbyte
  -- The operand has `n` bytes, so that the instruction has `1 + n`, all of them in the window.
  obtain ⟨n, rfl, hn⟩ := Reader.advances_operand _ _ _ _ hvalue
  simp only [Cursor.moved_moved, Cursor.moved_position, Cursor.moved_stop, Cursor.moved_data] at *
  split at h
  · exact absurd h not_runs_throw
  · rename_i hpops
    obtain ⟨rfl, rfl⟩ := runs_pure.mp h
    have hsize : (c.data.window c.position (c.position + (1 + n) - c.position)).size = 1 + n := by
      rw [Nat.add_sub_cancel_left]
      exact size_window (by have := hc.1; have := hc.2; omega)
    refine ⟨⟨rfl, ?_, ?_, ?_, ⟨?_, ?_⟩, rfl, ?_⟩, ?_, ?_, rfl⟩
    · simp only
      omega
    · simp only [Instruction.size, hsize]
      omega
    · simp only [Instruction.size, hsize]
      congr 1 <;> omega
    · simpa using operand_isSome hvalue
    · intro o ho
      obtain ⟨v, rfl, rfl⟩ := Option.map_eq_some_iff.mp ho
      exact ⟨rfl, operand_lt hvalue, hcheck v rfl⟩
    · exact ⟨pops, pushes, heffect, by simpa using hpops, rfl⟩
    · simp only [Instruction.size, hsize]
    · simp only [Instruction.size, hsize]
      omega

/-! ## The scan -/

/-- A scan that ends without a fault has read `count` further instructions, each where the ones in
front of it end. -/
theorem scanned_of_scan {f : Frame} {base : Nat} {count : Nat} {done : Array Instruction}
    {depth : Nat} {c c' : Cursor} {s : Scan} (hc : c.Inside)
    (hp : c.position = base + totalSize done.toList) (hdepth : depth = depthBehind done.toList)
    (hdone : Scanned f c.data base done.toList) (hdelta : ∀ i ∈ done.toList, i.branchDelta = none)
    (h : scan f base count done depth c = (s, c')) (hs : s.fault = none) :
    Scanned f c.data base s.instructions.toList ∧
      (∀ i ∈ s.instructions.toList, i.branchDelta = none) ∧
      s.instructions.size = done.size + count ∧ s.depth = depthBehind s.instructions.toList ∧
      c.Reaches c' ∧ c'.position = base + totalSize s.instructions.toList := by
  induction count generalizing done depth c with
  | zero =>
    simp only [scan, Prod.mk.injEq] at h
    obtain ⟨rfl, rfl⟩ := h
    exact ⟨hdone, hdelta, rfl, hdepth, .refl _, hp⟩
  | succ count ih =>
    rw [scan] at h
    rcases hstep : (step f base done.size depth).runAt c with ⟨fault | i, next⟩
    · simp only [hstep, Prod.mk.injEq] at h
      obtain ⟨rfl, -⟩ := h
      simp at hs
    · simp only [hstep] at h
      subst hdepth
      -- One more instruction is listed, and the scan goes on behind it with the same invariant.
      obtain ⟨hi, rfl, hstop, hnone⟩ := listed_of_step hc hp (Reader.runs_iff_runAt.mpr hstep)
      have hreach : c.Reaches (c.moved i.size) := Cursor.reaches_moved hstop
      have hposition : (c.moved i.size).position = base + totalSize (done.push i).toList := by
        simp only [Cursor.moved_position, Array.toList_push, Instruction.totalSize_append, totalSize]
        omega
      have hscanned : Scanned f c.data base (done.push i).toList := by
        rw [Array.toList_push]
        exact hdone.concat hi
      have hdeltas : ∀ j ∈ (done.push i).toList, j.branchDelta = none := by
        simpa [or_imp, forall_and, hnone] using hdelta
      obtain ⟨hscan, hnones, hsize, hlast, hreach', hend⟩ :=
        ih (hreach.inside hc) hposition (by simp) hscanned hdeltas h
      refine ⟨hscan, hnones, ?_, hlast, hreach.trans hreach', hend⟩
      rw [hsize, Array.size_push]
      omega

/-! ## Whole bodies -/

/-- The distance that a branch of a body is given, if it names an instruction of it. -/
def deltaIn (body : Array Instruction) (i : Instruction) : Option Int :=
  if i.opcode.isBranch then
    (i.operand.bind fun o => body[o.value]?).map fun d => (d.offset : Int) - i.offset
  else none

/-- Filling in its distance is all that resolving a branch does. -/
theorem resolveBranch_eq_ok {name : String} {body : Array Instruction} {i j : Instruction}
    (hi : i.branchDelta = none) (h : resolveBranch name body i = .ok j) :
    j = i.withDelta (deltaIn body i) ∧ (i.opcode.isBranch = true → (deltaIn body i).isSome) := by
  unfold resolveBranch at h
  split at h
  · rename_i hbranch
    obtain ⟨target, htarget, h⟩ := bind_eq_ok.mp h
    unfold Instruction.operandValue at htarget
    split at htarget
    · rename_i o ho
      obtain rfl := Except.ok.inj htarget
      split at h
      · rename_i d hd
        obtain rfl := pure_eq_ok.mp h
        -- The operand numbers an instruction, while the delta is a difference of offsets.
        have : deltaIn body i = some ((d.offset : Int) - i.offset) := by
          simp [deltaIn, hbranch, ho, hd]
        rw [this]
        exact ⟨rfl, fun _ => rfl⟩
      · exact absurd h throw_ne_ok
    · simp at htarget
  · rename_i hbranch
    obtain rfl := pure_eq_ok.mp h
    refine ⟨?_, fun hb => absurd hb hbranch⟩
    simp only [Instruction.withDelta, deltaIn, hbranch]
    rw [← hi]
    rfl

/-- A branch to an instruction of the body is resolved. -/
theorem resolveBranch_of_target {name : String} {body : Array Instruction} {i : Instruction}
    (hi : i.branchDelta = none)
    (h : i.opcode.isBranch = true → ∃ o, i.operand = some o ∧ o.value < body.size) :
    resolveBranch name body i = .ok (i.withDelta (deltaIn body i)) := by
  unfold resolveBranch deltaIn
  split
  · rename_i hbranch
    obtain ⟨o, ho, hlt⟩ := h hbranch
    have hvalue : i.operandValue = .ok o.value := by simp [Instruction.operandValue, ho]
    have htarget : body[o.value]? = some body[o.value] := Array.getElem?_eq_getElem hlt
    refine bind_eq_ok.mpr ⟨o.value, hvalue, ?_⟩
    have hdelta : (i.operand.bind fun o => body[o.value]?).map (fun d => (d.offset : Int) - i.offset) =
        some ((body[o.value].offset : Int) - i.offset) := by
      simp [ho, htarget]
    rw [htarget, hdelta]
    rfl
  · rw [← hi]
    rfl

/-- A listed instruction stays so with branch distances. -/
theorem Listed.withDelta {f : Frame} {data : Bytes} {base : Nat} {before : List Instruction}
    {i : Instruction} (h : Listed f data base before i) (delta : Instruction → Option Int) :
    Listed f data base (before.map fun j => j.withDelta (delta j)) (i.withDelta (delta i)) where
  index := by rw [List.length_map]; exact h.index
  offset := by rw [Instruction.totalSize_map_withDelta]; exact h.offset
  nonempty := h.nonempty
  raw := h.raw
  accepted := ⟨h.accepted.isSome, h.accepted.operand⟩
  depthBefore := by rw [Instruction.depthBehind_map_withDelta]; exact h.depthBefore
  effect := h.effect

/-- Scanned instructions stay so with branch distances. -/
theorem Scanned.map_withDelta {f : Frame} {data : Bytes} {base : Nat} {is : List Instruction}
    (h : Scanned f data base is) (delta : Instruction → Option Int) :
    Scanned f data base (is.map fun i => i.withDelta (delta i)) := by
  intro before j after hj
  obtain ⟨before, rest, rfl, rfl, hrest⟩ := List.map_eq_append_iff.mp hj
  obtain ⟨i, after, rfl, rfl, rfl⟩ := List.map_eq_cons_iff.mp hrest
  exact (h before i after rfl).withDelta delta

/-- Resolving the branches of a body fills in the distances. -/
theorem mapM_resolveBranch {name : String} {body : Array Instruction} {is js : List Instruction}
    (hnone : ∀ i ∈ is, i.branchDelta = none)
    (h : is.mapM (resolveBranch name body) = .ok js) :
    js = is.map (fun i => i.withDelta (deltaIn body i)) ∧
      ∀ i ∈ is, i.opcode.isBranch = true → (deltaIn body i).isSome := by
  rw [mapM_eq_ok] at h
  induction h with
  | nil => simp
  | cons hij _ ih =>
    obtain ⟨rfl, hi⟩ := resolveBranch_eq_ok (hnone _ List.mem_cons_self) hij
    obtain ⟨rfl, hrest⟩ := ih fun i hi => hnone i (List.mem_cons_of_mem _ hi)
    exact ⟨rfl, List.forall_mem_cons.mpr ⟨hi, hrest⟩⟩

/-- A scan is finished if it read the whole body, no value is left and every branch is resolved. -/
theorem finish_eq_ok {f : Frame} {s : Scan} {is : List Instruction} :
    s.finish f = .ok is ↔ s.fault = none ∧ s.depth = 0 ∧
      s.instructions.toList.mapM (resolveBranch f.name s.instructions) = .ok is := by
  simp only [Scan.finish]
  cases hfault : s.fault with
  | some fault => simp [bind_eq_ok]
  | none =>
    by_cases hdepth : s.depth = 0
    · simp [hdepth]
    · simp [hdepth, bind_eq_ok]

/-- The body that a complete scan is finished to. -/
theorem sound_of_mapM {f : Frame} {data : Bytes} {base : Nat} {body : Array Instruction}
    {is : List Instruction} (hscan : Scanned f data base body.toList)
    (hnone : ∀ i ∈ body.toList, i.branchDelta = none) (hdepth : depthBehind body.toList = 0)
    (h : body.toList.mapM (resolveBranch f.name body) = .ok is) :
    Sound f data base is ∧ is.length = body.size ∧ totalSize is = totalSize body.toList := by
  obtain ⟨rfl, hresolved⟩ := mapM_resolveBranch hnone h
  refine ⟨⟨hscan.map_withDelta _, ?_, ?_, ?_⟩, by simp, Instruction.totalSize_map_withDelta _ _⟩
  · rw [Instruction.depthBehind_map_withDelta, hdepth]
  · intro j hj hbranch
    obtain ⟨i, hi, rfl⟩ := List.mem_map.mp hj
    obtain ⟨before, after, hsplit⟩ := List.append_of_mem hi
    have hlisted := hscan before i after hsplit
    -- The branch was resolved, so it names an instruction; that one has its distance as well now.
    obtain ⟨delta, hdelta⟩ := Option.isSome_iff_exists.mp (hresolved i hi hbranch)
    simp only [deltaIn, show i.opcode.isBranch = true from hbranch, if_true,
      Option.map_eq_some_iff, Option.bind_eq_some_iff] at hdelta
    obtain ⟨d, ⟨o, ho, hd⟩, rfl⟩ := hdelta
    have hkind : o.kind = .branch :=
      (hlisted.accepted.operand o ho).1.trans (Opcode.isBranch_iff.mp hbranch)
    refine ⟨o.value, d.withDelta (deltaIn body d), ?_, ?_, ?_⟩
    · rw [← hkind]
      exact ho
    · rw [List.getElem?_map, Array.getElem?_toList, hd]
      rfl
    · simp [Instruction.withDelta, deltaIn, show i.opcode.isBranch = true from hbranch, ho, hd]
  · intro j hj hbranch
    obtain ⟨i, hi, rfl⟩ := List.mem_map.mp hj
    simp [Instruction.withDelta, deltaIn, show i.opcode.isBranch = false from hbranch]

/-- A body that is read is sound, has the given number of instructions, and the cursor behind it is
behind their bytes. -/
theorem runs_read {f : Frame} {count : Nat} {c c' : Cursor} {is : List Instruction}
    (hc : c.Inside) (h : Runs (read f count) c is c') :
    Sound f c.data c.position is ∧ is.length = count ∧ c' = c.moved (totalSize is) ∧
      c.Reaches c' := by
  simp only [read, runs_bind, runs_get, runs_set, Reader.runs_ofExcept] at h
  obtain ⟨_, _, ⟨rfl, rfl⟩, _, _, rfl, hfinish, rfl⟩ := h
  rcases hs : scan f c.position count #[] 0 c with ⟨s, c'⟩
  rw [hs] at hfinish
  obtain ⟨hfault, hzero, hmap⟩ := finish_eq_ok.mp hfinish
  have hp : c.position = c.position + totalSize (#[] : Array Instruction).toList := rfl
  obtain ⟨hscan, hnone, hsize, hdepth, hreach, hposition⟩ :=
    scanned_of_scan hc hp rfl (scanned_nil f c.data c.position) (by simp) hs hfault
  obtain ⟨hsound, hlength, htotal⟩ := sound_of_mapM hscan hnone (hdepth ▸ hzero) hmap
  refine ⟨hsound, ?_, ?_, hreach⟩
  · rw [hlength, hsize]
    simp
  · -- The cursor has been moved somewhere, and its position says where.
    obtain ⟨n, hn, -⟩ := hreach
    rw [hn, Cursor.moved_position, ← htotal] at hposition
    rw [← Nat.add_left_cancel hposition]
    exact hn

end Body

end MoveBytecode
