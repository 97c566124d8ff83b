import Mathlib.Algebra.BigOperators.Group.Finset.Basic
import Mathlib.Algebra.GroupWithZero.Nat
import MoveBytecode.Proofs.Lift.Course
import MoveBytecode.Stats

/-!
# Kinds of statements

An opcode alone says how many statements an instruction is lowered to and of which kinds
(`kinds_of_lower`): what an instruction reads of the module, of the stack and of the host only matters for
the values in its statements. So the statistics of lifted routines are a function of how often each opcode
occurs in their functions (`Stats.lookup_total`).
-/

namespace MoveBytecode

/-- The kinds of the statements that an opcode is lowered to, in their order. -/
def Opcode.statementKinds : Opcode → List String
  | .pop => []
  | .ret => ["return"]
  | .brTrue | .brFalse | .branch => ["branch"]
  | .call => ["call"]
  | .moveLoc => ["assign", "assign"]
  | .ldConst | .ldAddr | .ldStr | .ldTrue | .ldFalse | .ldBytearray | .copyLoc | .stLoc => ["assign"]
  | .not | .add | .sub | .mul | .mod | .div | .bitOr | .bitAnd | .xor | .or | .and | .eq | .neq | .lt
  | .gt | .le | .ge => ["assign"]
  | _ => ["untranslated"]

/-! ## Values of computations -/

section

variable {ε σ α β : Type} {P : β → Prop}

/-- From every state, a computation that ends without a fault ends with a value that satisfies `P`. -/
def Gives (P : β → Prop) (x : ExceptT ε (StateM σ) β) : Prop := ∀ s b s', Runs x s b s' → P b

/-- Returning a value that satisfies `P` gives such a value. -/
theorem gives_pure {b : β} (h : P b) : Gives P (pure b : ExceptT ε (StateM σ) β) := by
  intro s c s' hrun
  obtain ⟨rfl, -⟩ := runs_pure.mp hrun
  exact h

/-- Throwing a fault gives no value that could break `P`. -/
theorem gives_throw (e : ε) : Gives P (throw e : ExceptT ε (StateM σ) β) :=
  fun _ _ _ hrun => absurd hrun not_runs_throw

/-- The last part gives the value. -/
theorem gives_bind {x : ExceptT ε (StateM σ) α} {f : α → ExceptT ε (StateM σ) β}
    (h : ∀ a, Gives P (f a)) : Gives P (x >>= f) := by
  intro s b s' hrun
  obtain ⟨a, t, -, hrun⟩ := runs_bind.mp hrun
  exact h a t b s' hrun

end

namespace Lift

/-! ## One instruction -/

section

variable (f : Frame) (i : Instruction) (address : Int)

/-- A call is lowered to a call. -/
theorem gives_lowerCall :
    Gives (fun statements => statements.map Stmt.kind = ["call"]) (lowerCall f i address) := by
  unfold lowerCall
  refine gives_bind fun _ => gives_bind fun _ => gives_bind fun _ => gives_bind fun _ =>
    gives_bind fun _ => gives_bind fun _ => gives_bind fun _ => gives_bind fun _ => ?_
  split
  · exact gives_pure rfl
  · exact gives_throw _

/-- A read through a reference is carried along untranslated. -/
theorem gives_lowerRead :
    Gives (fun statements => statements.map Stmt.kind = ["untranslated"]) (lowerRead f i address) := by
  unfold lowerRead
  refine gives_bind fun _ => gives_bind fun _ => ?_
  split
  · exact gives_bind fun _ => gives_pure rfl
  · exact gives_bind fun _ => gives_pure rfl

/-- Of the opcodes that yield results of their own, a call becomes a call and all others are kept. -/
theorem gives_lower_external (h : i.opcode.role = .external) :
    Gives (fun statements => statements.map Stmt.kind = i.opcode.statementKinds)
      (lower f i address) := by
  unfold lower
  generalize i.opcode = opcode at h
  cases opcode with
  | call => exact gives_lowerCall f i address
  | readRef => exact gives_lowerRead f i address
  | unpack =>
    exact gives_bind fun _ => gives_bind fun _ => gives_bind fun _ => gives_bind fun _ => gives_pure rfl
  | pack | freezeRef | borrowRef | moveFrom =>
    exact gives_bind fun _ => gives_bind fun _ => gives_bind fun _ => gives_pure rfl
  | moveTo => exact gives_bind fun _ => gives_pure rfl
  | assert | getTxnGasUnitPrice | getTxnMaxGasUnits | getGasRemaining | getTxnSender | «exists»
    | releaseRef | createAccount | emitEvent | getTxnSequenceNumber | getTxnPublicKey =>
    exact gives_bind fun _ => gives_bind fun _ => gives_pure rfl
  | _ => simp [Opcode.role] at h

end

variable {f : Frame} {i : Instruction} {address : Int} {s s' : State} {statements : List Stmt}

/-- The kinds of the statements of an instruction, by what its opcode does with the values it takes. -/
def roleKinds : Role → List String
  | .drop => []
  | .leave => ["return"]
  | .jump | .branch _ => ["branch"]
  | .literal | .copy | .store | .negate | .combine _ => ["assign"]
  | .move => ["assign", "assign"]
  | .borrowLocal | .borrowField | .write | .external => ["untranslated"]

/-- The role of an opcode says the kinds of its statements, unless it is carried along or a call. -/
theorem statementKinds_of_role {opcode : Opcode} (h : opcode.role ≠ .external) :
    opcode.statementKinds = roleKinds opcode.role := by
  cases opcode <;> first | rfl | exact absurd rfl h

/-- What the opcode of an instruction says its statements are, they are. -/
theorem kinds_of_lower (hs : s.WellFormed) (hrun : Runs (lower f i address) s statements s') :
    statements.map Stmt.kind = i.opcode.statementKinds := by
  by_cases hrole : i.opcode.role = .external
  · exact gives_lower_external f i address hrole s statements s' hrun
  · obtain ⟨rest, ins, outs, -, -, htable, -⟩ := lower_spec hs hrun
    rw [statementKinds_of_role hrole]
    clear hrun
    cases htable with
    | call h => exact absurd h hrole
    | external h => exact absurd h hrole
    | drop h | leave h | jump h | branch h | literal h | copy h | move h | store h | negate h
      | combine h | borrowLocal h | borrowField h | write h =>
      rw [h]
      rfl

/-! ## The whole listing -/

/-- A step has the address of an instruction, and statements of the kinds that its opcode says. -/
def StepOf (p : Placed) (step : Step) : Prop :=
  step.address = p.address ∧ step.statements.map Stmt.kind = p.instruction.opcode.statementKinds

/-- Lowering instructions one after the other makes one step for each. -/
theorem stepsOf_lowerAll {ps : List Placed} {done steps : Array Step} {t : State} (hs : s.WellFormed)
    (h : Runs (lowerAll f ps done) s steps t) :
    ∃ new, steps.toList = done.toList ++ new ∧ List.Forall₂ StepOf ps new := by
  induction ps generalizing done s with
  | nil =>
    obtain ⟨rfl, -⟩ := runs_pure.mp h
    exact ⟨[], (List.append_nil _).symm, .nil⟩
  | cons p rest ih =>
    obtain ⟨step, u, hstep, h⟩ := runs_bind.mp h
    obtain ⟨haddress, v, hlower, -⟩ := runs_lowerAt hstep
    obtain ⟨new, hnew, hrest⟩ := ih (keeps_lowerAt f p s _ u hstep hs).1 h
    refine ⟨step :: new, ?_, .cons ⟨haddress, kinds_of_lower hs hlower⟩ hrest⟩
    rw [hnew, Array.toList_push, List.append_assoc]
    rfl

end Lift

/-! ## Statistics -/

namespace Tally

/-- A count under another key is found further on. -/
theorem lookup_cons_of_ne {k first : String} (h : k ≠ first) (n : Nat) (rest : List (String × Nat)) :
    ((first, n) :: rest).lookup k = rest.lookup k := by
  rw [List.lookup_cons, beq_false_of_ne h]

/-- Counting one more of a key changes the count of this key only. -/
theorem lookup_bump (counts : List (String × Nat)) (key k : String) :
    (bump counts key).lookup k =
      if k = key then some ((counts.lookup key).getD 0 + 1) else counts.lookup k := by
  induction counts with
  | nil =>
    by_cases hk : k = key
    · simp [bump, hk]
    · rw [bump, lookup_cons_of_ne hk, if_neg hk]
  | cons entry rest ih =>
    obtain ⟨first, n⟩ := entry
    by_cases hfirst : first = key
    · subst hfirst
      by_cases hk : k = first
      · simp [bump, hk]
      · simp [bump, hk, lookup_cons_of_ne hk]
    · have hbump : bump ((first, n) :: rest) key = (first, n) :: bump rest key := by
        rw [bump, if_neg (by simpa using hfirst)]
      rw [hbump, lookup_cons_of_ne (Ne.symm hfirst)]
      by_cases hk : k = first
      · simp [hk, hfirst]
      · rw [lookup_cons_of_ne hk, lookup_cons_of_ne hk, ih]

/-- A text is in a tally if it occurs, with the number of its occurrences. -/
theorem lookup_of (keys : List String) (k : String) :
    (Tally.of keys).lookup k = if keys.count k = 0 then none else some (keys.count k) := by
  have general : ∀ counts : List (String × Nat), (keys.foldl bump counts).lookup k =
      if keys.count k = 0 then counts.lookup k
      else some ((counts.lookup k).getD 0 + keys.count k) := by
    induction keys with
    | nil => simp
    | cons key rest ih =>
      intro counts
      rw [List.foldl_cons, ih, lookup_bump]
      by_cases hk : key = k
      · subst hk
        by_cases hrest : rest.count key = 0
        · simp [hrest]
        · simp [hrest]
          omega
      · simp [hk, Ne.symm hk]
  simpa [Tally.of] using general []

end Tally

/-- How many statements of a kind instructions are lowered to of which `occurrences` have each opcode. -/
def kindCount (occurrences : Opcode → Nat) (kind : String) : Nat :=
  (Opcode.all.map fun op => occurrences op * op.statementKinds.count kind).sum

/-- The statements of a kind are counted by the opcodes that are lowered to them. -/
theorem count_statementKinds (opcodes : List Opcode) (kind : String) :
    (opcodes.flatMap Opcode.statementKinds).count kind = kindCount (opcodes.count ·) kind := by
  have hall : Opcode.all.Nodup := by decide
  have hmem (op : Opcode) : op ∈ Opcode.all := by cases op <;> decide
  rw [List.count_flatMap, Finset.sum_list_map_count, kindCount, ← List.sum_toFinset _ hall]
  refine Finset.sum_subset (fun op _ => List.mem_toFinset.mpr (hmem op)) fun op _ hop => ?_
  rw [List.mem_toFinset] at hop
  rw [List.count_eq_zero_of_not_mem hop, zero_nsmul]

namespace Stats

/-- If the statements of routines have the kinds that the opcodes of some instructions say, a kind is in
the statistics of the routines if it occurs, with a number that depends on how often each opcode does. -/
theorem lookup_total {ls : List Lift.Lifted} {opcodes : Lift.Lifted → List Opcode}
    (h : ∀ l ∈ ls, l.statements.map Stmt.kind = (opcodes l).flatMap Opcode.statementKinds)
    (kind : String) :
    (total ls).lookup kind =
      if kindCount ((ls.flatMap opcodes).count ·) kind = 0 then none
      else some (kindCount ((ls.flatMap opcodes).count ·) kind) := by
  have hkinds : (ls.flatMap Lift.Lifted.statements).map Stmt.kind =
      (ls.flatMap opcodes).flatMap Opcode.statementKinds := by
    rw [List.map_flatMap, List.flatMap_assoc]
    exact List.flatMap_congr h
  rw [total, kinds, hkinds, Tally.lookup_of, count_statementKinds]

end Stats

end MoveBytecode
