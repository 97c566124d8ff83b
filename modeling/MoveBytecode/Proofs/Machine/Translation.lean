import Mathlib.Algebra.Group.Int.Defs
import MoveBytecode.Proofs.Lift.Rows
import MoveBytecode.Proofs.Machine.Form

/-!
# Translations

What a routine has to do with the function that it was lifted from, as far as running it is concerned:
the rows of the lift with the variables on the symbolic stack, the addresses of the steps, which are
those of the listing, and the constants, which survive being cut to their widths.
-/

namespace MoveBytecode

open Lift
open Instruction (totalSize)

/-- The variables of the values on the stack before row `n`; behind the last row there are none. -/
def Lift.varsAt (rows : List Lowering) (n : Nat) : List Var :=
  (rows[n]?.map (·.before.stack.vars)).getD []

/-- Branches are taken with an empty stack, and lead to where the listing has none either. -/
def FlatBranches (body : List Instruction) : Prop :=
  ∀ i ∈ body, i.opcode.isBranch = true → i.depthAfter = 0 ∧
    ∀ o ∈ i.operand, ∀ d ∈ body[o.value]?, d.depthBefore = 0

/-- Whether all branches of a body are flat can be decided. -/
instance (body : List Instruction) : Decidable (FlatBranches body) :=
  inferInstanceAs (Decidable (∀ i ∈ body, i.opcode.isBranch = true → i.depthAfter = 0 ∧
    ∀ o ∈ i.operand, ∀ d ∈ body[o.value]?, d.depthBefore = 0))

/-- A routine and the body that it was lifted from, which is mapped at `base`. -/
structure Translation (l : Lifted) (frame : Frame) (b : Body.Frame) (data : Bytes) (start : Nat)
    (base : Int) (body : List Instruction) (rows : List Lowering) : Prop where
  rows : Rows frame (Placed.run base body) [] rows l.steps.toList []
  agrees : Agrees frame b
  sound : Body.Sound b data start body
  locals : ∀ (index : Nat) (v : Var), frame.locals[index]? = some v → v.name = .localVar index
  localCount : frame.locals.size = b.localCount
  base_nonneg : 0 ≤ base
  stop_lt : base + totalSize body < 2 ^ 64
  addresses : ∀ bytes ∈ frame.owner.addresses.records, bytes.size = 32

/-! ## Constants -/

/-- A number that fits into its width is not changed by being cut to it. -/
theorem cutTo_of_lt {bits : Nat} {n : Int} (h0 : 0 ≤ n) (h : n < 2 ^ bits) : Ir.cutTo bits n = n := by
  rw [Ir.cutTo, Nat.one_shiftLeft]
  exact Int.emod_eq_of_lt h0 (by exact_mod_cast h)

/-- Some bytes hold a number below the power of 256 of their count. -/
theorem bigEndian_lt (octets : List UInt8) :
    Bytes.bigEndian octets < 256 ^ octets.length := by
  have general : ∀ higher : Nat,
      octets.foldl (fun higher octet => 256 * higher + octet.toNat) higher <
        (higher + 1) * 256 ^ octets.length := by
    induction octets with
    | nil => simp
    | cons octet rest ih =>
      intro higher
      rw [List.foldl_cons, List.length_cons, Nat.pow_succ']
      have hoctet := octet.toNat_lt
      calc _ < (256 * higher + octet.toNat + 1) * 256 ^ rest.length := ih _
        _ ≤ (256 * (higher + 1)) * 256 ^ rest.length := Nat.mul_le_mul_right _ (by omega)
        _ = (higher + 1) * (256 * 256 ^ rest.length) := by rw [Nat.mul_comm 256, Nat.mul_assoc]
  simpa [Bytes.bigEndian] using general 0

/-- What an instruction loads fits into the width of its constant, unless it is where a text or a byte
array is mapped. -/
theorem literal_bounds {b : Body.Frame} {m : Module} {i : Instruction} {n : Int}
    (haddresses : ∀ bytes ∈ m.addresses.records, bytes.size = 32) (hi : Body.Accepted b i)
    (hrole : i.opcode.role = .literal) (hmapped : Mapped i.opcode → n = 0)
    (h : m.literal i = .ok n) : 0 ≤ n ∧ n < 2 ^ literalBits i.opcode := by
  -- An operand that was read is within the bound of its field.
  have hoperand : ∀ value, i.operandValue = .ok value → value < i.opcode.operandKind.limit := by
    intro value hvalue
    unfold Instruction.operandValue at hvalue
    split at hvalue
    · rename_i o ho
      obtain ⟨hkind, hlimit, -⟩ := hi.operand o ho
      obtain rfl := Except.ok.inj hvalue
      exact hkind ▸ hlimit
    · simp at hvalue
  -- One case for each way of naming a constant: two truth values, addresses, texts, byte arrays and
  -- numbers.
  unfold Module.literal at h
  split at h
  · obtain rfl := pure_eq_ok.mp h
    exact ⟨by decide, by simp [literalBits, *]⟩
  · obtain rfl := pure_eq_ok.mp h
    exact ⟨by decide, by simp [literalBits, *]⟩
  · rename_i hop
    obtain ⟨index, hindex, h⟩ := bind_eq_ok.mp h
    obtain ⟨e, he, h⟩ := bind_eq_ok.mp h
    obtain rfl := pure_eq_ok.mp h
    have hsize := haddresses _ (List.mem_of_getElem? (Pool.record_of_get he).2)
    have hlt := bigEndian_lt e.record.toList
    rw [Array.length_toList, hsize] at hlt
    refine ⟨Int.natCast_nonneg _, ?_⟩
    rw [literalBits, if_pos hop]
    exact_mod_cast hlt
  · rename_i hop
    obtain rfl := hmapped (.inl hop)
    exact ⟨by decide, by simp [literalBits, hop]⟩
  · rename_i hop
    obtain rfl := hmapped (.inr hop)
    exact ⟨by decide, by simp [literalBits, hop]⟩
  · rename_i htrue hfalse haddr hstr hbytearray
    obtain ⟨value, hvalue, h⟩ := bind_eq_ok.mp h
    obtain rfl := pure_eq_ok.mp h
    have hop : i.opcode = .ldConst := by
      revert hrole htrue hfalse haddr hstr hbytearray
      cases i.opcode <;> simp [Opcode.role]
    have hlt := hoperand value hvalue
    rw [hop] at hlt
    refine ⟨Int.natCast_nonneg _, ?_⟩
    rw [literalBits, if_neg (by simp [hop])]
    exact_mod_cast hlt

/-! ## Rows -/

/-- Each row goes on with the variables that the one before has left. -/
theorem Lift.Linked.varsAt {vs ws : List Var} {rows : List Lowering} (h : Linked vs rows ws) :
    (rows[0]?.map (·.before.stack.vars)).getD ws = vs ∧
      ∀ n low, rows[n]? = some low →
        (rows[n + 1]?.map (·.before.stack.vars)).getD ws = low.after.stack.vars := by
  induction rows generalizing vs with
  | nil =>
    obtain rfl : vs = ws := h
    exact ⟨rfl, by simp⟩
  | cons low rest ih =>
    obtain ⟨rfl, h⟩ := h
    obtain ⟨hfirst, hnext⟩ := ih h
    refine ⟨rfl, fun n low' hlow => ?_⟩
    cases n with
    | zero =>
      obtain rfl := Option.some.inj hlow
      exact hfirst
    | succ n => exact hnext n low' hlow

/-- The statements of instruction `n`, with the variables that it takes and puts. -/
structure RowAt (l : Lifted) (frame : Frame) (b : Body.Frame) (base : Int) (rows : List Lowering)
    (n : Nat) (i : Instruction) (step : Step) (rest ins outs : List Var) : Prop where
  found : l.steps.toList[n]? = some step
  address : step.address = base + i.offset
  before : varsAt rows n = rest ++ ins
  after : varsAt rows (n + 1) = rest ++ outs
  table : Lowered frame i (base + i.offset) ins outs step.statements
  effect : Body.stackEffect b i = .ok (ins.length, outs.length)
  depthBefore : (rest ++ ins).length = i.depthBefore
  depthAfter : (rest ++ outs).length = i.depthAfter
  nameBefore : ∀ v ∈ rest ++ ins, ∃ k, v.name = .stackVar k
  nameAfter : ∀ v ∈ rest ++ outs, ∃ k, v.name = .stackVar k
  distinct : ((rest ++ outs).map (·.name)).Nodup

/-- Where a branch leads that is lowered with these variables on the stack: to its target, or, if the
topmost value does not have the truth that takes it, to the next address. -/
inductive Leads (i : Instruction) (vs : List Var) (target next : Int) : Expr → Prop
  | jump (h : i.opcode.role = .jump) : Leads i vs target next (.imm target 64)
  | branch {rest : List Var} {v : Var} {truth : Bool} (h : i.opcode.role = .branch truth)
    (hv : vs = rest ++ [v]) : Leads i vs target next
      (.cond (if truth then .var v else .operation .logicalNot [.var v] 1) (.imm target 64)
        (.imm next 64) 64)

namespace Translation

variable {l : Lifted} {frame : Frame} {b : Body.Frame} {data : Bytes} {start : Nat} {base : Int}
  {body : List Instruction} {rows : List Lowering} {n : Nat} {i : Instruction}

/-- Every instruction of the body has its lowering, at its address. -/
theorem placed_at (h : Translation l frame b data start base body rows) (hi : body[n]? = some i) :
    ∃ low, rows[n]? = some low ∧ low.placed = ⟨base + i.offset, i⟩ := by
  have hrun : (Placed.run base body)[n]? = some ⟨base + i.offset, i⟩ := by
    rw [Placed.run, List.getElem?_map, hi, Option.map_some]
    cases hbody : body with
    | nil => simp [hbody] at hi
    | cons first rest =>
      have := h.sound.offset_head first (by rw [hbody]; rfl)
      simp [this]
  rw [← h.rows.placed, List.getElem?_map] at hrun
  obtain ⟨low, hlow, hplaced⟩ := Option.map_eq_some_iff.mp hrun
  exact ⟨low, hlow, hplaced⟩

/-- The routine has one step for each instruction. -/
theorem length_steps (h : Translation l frame b data start base body rows) :
    l.steps.size = body.length := by
  have hrows : rows.length = body.length := by
    rw [← List.length_map (·.placed), h.rows.placed, Placed.run, List.length_map]
  rw [← hrows, h.rows.yields.length_eq, Array.length_toList]

/-- The stack is empty in front of the first instruction. -/
theorem varsAt_zero (h : Translation l frame b data start base body rows) : varsAt rows 0 = [] :=
  h.rows.linked.varsAt.1

/-- The stack of the lift is as high as the listing says. -/
theorem length_varsAt (h : Translation l frame b data start base body rows)
    (hi : body[n]? = some i) : (varsAt rows n).length = i.depthBefore := by
  obtain ⟨low, hlow, hplaced⟩ := h.placed_at hi
  have hscan : Body.Scanned b data start ([] ++ rows.map (·.placed.instruction) ++ []) := by
    simpa [h.rows.map_instruction] using h.sound.scanned
  obtain ⟨-, hheights⟩ := length_of_linked h.agrees hscan h.rows.yields h.rows.linked rfl
  rw [varsAt, hlow]
  simpa [hplaced] using hheights low (List.mem_of_getElem? hlow)

/-- Every instruction of the body has a row. -/
theorem exists_row (h : Translation l frame b data start base body rows) (hi : body[n]? = some i) :
    ∃ step rest ins outs, RowAt l frame b base rows n i step rest ins outs := by
  obtain ⟨low, hlow, hplaced⟩ := h.placed_at hi
  obtain ⟨hrows, hget⟩ := List.forall₂_iff_get.mp h.rows.yields
  obtain ⟨hn, rfl⟩ := List.getElem?_eq_some_iff.mp hlow
  have hyields := hget n hn (hrows ▸ hn)
  simp only [List.get_eq_getElem] at hyields
  obtain ⟨rest, ins, outs, hins, houts, htable, hbalanced⟩ := hyields.table
  have hbefore : varsAt rows n = rows[n].before.stack.vars := by
    rw [varsAt, hlow]
    rfl
  have hafter : varsAt rows (n + 1) = rows[n].after.stack.vars :=
    h.rows.linked.varsAt.2 n _ hlow
  rw [hplaced] at htable hbalanced
  -- What the lowering takes and puts is what the listing counts, so the depths are those of the listing.
  have heffect := hbalanced b h.agrees
  have hdepthBefore : (rest ++ ins).length = i.depthBefore := by
    rw [← hins, ← hbefore, h.length_varsAt hi]
  have hdepthAfter : (rest ++ outs).length = i.depthAfter := by
    obtain ⟨before, after, hsplit⟩ := List.append_of_mem (List.mem_of_getElem? hi)
    obtain ⟨pops, pushes, heffect', -, hdepth⟩ := (h.sound.scanned before i after hsplit).effect
    obtain ⟨hpops, hpushes⟩ := Prod.mk.inj (Except.ok.inj (heffect.symm.trans heffect'))
    rw [hdepth, ← hdepthBefore, ← hpops, ← hpushes, List.length_append, List.length_append]
    omega
  refine ⟨l.steps.toList[n], rest, ins, outs, ⟨List.getElem?_eq_getElem _, ?_, ?_, ?_, htable,
    heffect, hdepthBefore, hdepthAfter, ?_, ?_, ?_⟩⟩
  · rw [hyields.address, hplaced]
  · rw [hbefore, hins]
  · rw [hafter, houts]
  · rw [← hins]
    exact fun v hv => hyields.before.name_of_mem_vars hv
  · rw [← houts]
    exact fun v hv => hyields.after.name_of_mem_vars hv
  · rw [← houts]
    exact hyields.after.nodup_names

/-! ## Addresses -/

/-- The steps of the routine are at the addresses of the instructions. -/
theorem addresses_eq (h : Translation l frame b data start base body rows) :
    l.steps.toList.map (·.address) = body.map fun i => base + i.offset := by
  apply List.ext_getElem?
  intro k
  rw [List.getElem?_map, List.getElem?_map]
  rcases Nat.lt_or_ge k body.length with hk | hk
  · obtain ⟨step, _, _, _, hrow⟩ := h.exists_row (List.getElem?_eq_getElem hk)
    rw [hrow.found, List.getElem?_eq_getElem hk, Option.map_some, Option.map_some, hrow.address]
  · have hsteps : l.steps.toList.length ≤ k := by
      rw [Array.length_toList, h.length_steps]
      exact hk
    rw [List.getElem?_eq_none hk, List.getElem?_eq_none hsteps]
    rfl

/-- The addresses of the steps ascend. -/
theorem pairwise_addresses (h : Translation l frame b data start base body rows) :
    (l.steps.toList.map (·.address)).Pairwise (· < ·) := by
  rw [h.addresses_eq, List.pairwise_map, List.pairwise_iff_getElem]
  intro j k hj hk hjk
  have hlt := h.sound.scanned.offset_lt (List.getElem?_eq_getElem hj) (List.getElem?_eq_getElem hk)
    hjk
  omega

/-- No two steps have the same address. -/
theorem nodup_addresses (h : Translation l frame b data start base body rows) :
    (l.steps.toList.map (·.address)).Nodup :=
  h.pairwise_addresses.imp Int.ne_of_lt

/-- The addresses of a body are not below zero and fit into 64 bits. -/
theorem address_bounds (h : Translation l frame b data start base body rows)
    (hi : body[n]? = some i) :
    0 ≤ base + i.offset ∧ base + i.offset + i.size < 2 ^ 64 := by
  have hbehind := (h.sound.scanned.offset_eq hi).2
  have hle : totalSize (body.take (n + 1)) ≤ totalSize (body.take body.length) :=
    Body.totalSize_take_le (List.getElem?_eq_some_iff.mp hi).1
  rw [List.take_length] at hle
  have := h.base_nonneg
  have := h.stop_lt
  constructor
  · omega
  · omega

/-- A branch to the address of an instruction leads to its statements. -/
theorem start_target (h : Translation l frame b data start base body rows)
    (hi : body[n]? = some i) : Form.start l (base + i.offset) = l.position n := by
  obtain ⟨step, _, _, _, hrow⟩ := h.exists_row hi
  rw [← hrow.address]
  exact Form.start_step hrow.found h.nodup_addresses

/-- A branch behind an instruction leads to the statements of the next one, or behind all. -/
theorem start_behind (h : Translation l frame b data start base body rows)
    (hi : body[n]? = some i) : Form.start l (base + i.offset + i.size) = l.position (n + 1) := by
  have hbehind := (h.sound.scanned.offset_eq hi).2
  rcases Nat.lt_or_ge (n + 1) body.length with hn | hn
  · have hnext := (h.sound.scanned.offset_eq (List.getElem?_eq_getElem hn)).1
    rw [← h.start_target (List.getElem?_eq_getElem hn), hnext, ← hbehind]
    congr 1
    omega
  · -- Behind the last instruction there is no address, and a branch there leads behind all statements.
    rw [Form.start_of_notMem, Lifted.position_of_le (by rw [h.length_steps]; exact hn)]
    rw [h.addresses_eq]
    intro hmem
    obtain ⟨d, hd, haddress⟩ := List.mem_map.mp hmem
    obtain ⟨k, hk⟩ := List.mem_iff_getElem?.mp hd
    have hkn := (List.getElem?_eq_some_iff.mp hk).1
    have hstart := (h.sound.scanned.offset_eq hk).1
    have hle : totalSize (body.take k) ≤ totalSize (body.take n) :=
      Body.totalSize_take_le (by omega)
    have hself := (h.sound.scanned.offset_eq hi).1
    obtain ⟨before, after, hsplit⟩ := List.append_of_mem (List.mem_of_getElem? hi)
    have hsize := (h.sound.scanned before i after hsplit).nonempty
    omega

/-! ## Branches -/

/-- A branch jumps to the address of the instruction that its operand numbers. -/
theorem exists_target (h : Translation l frame b data start base body rows) (hi : body[n]? = some i)
    (hbranch : i.opcode.isBranch = true) :
    ∃ target d, i.operand = some ⟨.branch, target⟩ ∧ body[target]? = some d ∧
      base + i.offset + i.jump = base + d.offset := by
  obtain ⟨target, d, hoperand, hd, hdelta⟩ := h.sound.branch i (List.mem_of_getElem? hi) hbranch
  refine ⟨target, d, hoperand, hd, ?_⟩
  rw [Instruction.jump, hdelta, Option.getD_some]
  omega

/-- The address of an instruction is a constant of 64 bits. -/
theorem constant_address (h : Translation l frame b data start base body rows)
    (hi : body[n]? = some i) : Ir.constant (base + i.offset) 64 = .imm (base + i.offset) 64 := by
  obtain ⟨h0, hlt⟩ := h.address_bounds hi
  rw [Ir.constant, cutTo_of_lt h0 (by omega)]
  rfl

/-- The address behind an instruction fits into 64 bits. -/
theorem constant_behind (h : Translation l frame b data start base body rows)
    (hi : body[n]? = some i) :
    Ir.constant (base + i.offset + i.size) 64 = .imm (base + i.offset + i.size) 64 := by
  obtain ⟨h0, hlt⟩ := h.address_bounds hi
  rw [Ir.constant, cutTo_of_lt (by omega) (by omega)]
  rfl

/-- A branch is lowered to one statement, which leads to the instruction that its operand numbers. -/
theorem exists_leads (h : Translation l frame b data start base body rows) (hi : body[n]? = some i)
    (hbranch : i.opcode.isBranch = true) :
    ∃ target d step e, i.operand = some ⟨.branch, target⟩ ∧ body[target]? = some d ∧
      base + i.offset + i.jump = base + d.offset ∧ l.steps.toList[n]? = some step ∧
      step.address = base + i.offset ∧ step.statements = [.branch programCounter e false] ∧
      Leads i (varsAt rows n) (base + d.offset) (base + i.offset + i.size) e := by
  obtain ⟨target, d, hoperand, hd, hjump⟩ := h.exists_target hi hbranch
  obtain ⟨step, rest, ins, outs, hrow⟩ := h.exists_row hi
  suffices hleads : ∃ e, step.statements = [.branch programCounter e false] ∧
      Leads i (varsAt rows n) (base + d.offset) (base + i.offset + i.size) e by
    obtain ⟨e, hstatements, hleads⟩ := hleads
    exact ⟨target, d, step, e, hoperand, hd, hjump, hrow.found, hrow.address, hstatements, hleads⟩
  have hbefore := hrow.before
  have htable := hrow.table
  generalize hstatements : step.statements = statements at htable
  cases htable with
  | jump hrole =>
    rw [hjump, h.constant_address hd]
    exact ⟨_, rfl, .jump hrole⟩
  | branch hrole =>
    rw [hjump, h.constant_address hd, h.constant_behind hi]
    exact ⟨_, rfl, .branch hrole hbefore⟩
  | drop hrole | leave hrole | literal hrole | copy hrole | move hrole | store hrole | negate hrole
    | combine hrole | call hrole | borrowLocal hrole | borrowField hrole | write hrole
    | external hrole =>
    -- No other role is one of a branch.
    simp [Opcode.isBranch_iff_role, hrole] at hbranch

end Translation

end MoveBytecode
