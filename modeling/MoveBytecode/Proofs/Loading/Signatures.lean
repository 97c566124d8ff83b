import MoveBytecode.Proofs.Format.Description
import MoveBytecode.Proofs.Loading.Views

/-!
# The tokens of loaded modules

A token that is read from a signature has a target for each reference and a handle for each struct, and
the references of a loaded module were checked. So a loaded module knows what every token of its
signatures stands for (`Module.Knows`).
-/

namespace MoveBytecode

variable {α β : Type} {P : α → Prop}

namespace Reader

/-- Whatever is read, it has a property. -/
def Gives (P : α → Prop) (r : Reader α) : Prop := ∀ c a c', Runs r c a c' → P a

/-- Returning a value with the property gives such a value. -/
theorem gives_pure {a : α} (h : P a) : Gives P (pure a) := by
  intro c b c' hrun
  obtain ⟨rfl, -⟩ := runs_pure.mp hrun
  exact h

/-- Throwing a fault gives no value that could lack the property. -/
theorem gives_throw (e : Fault) : Gives P (throw e) := fun _ _ _ hrun => absurd hrun not_runs_throw

/-- A sequence gives values with the property if its last part does for the values that its first part
gives. -/
theorem Gives.bind {Q : β → Prop} {r : Reader β} {f : β → Reader α} (hr : Gives Q r)
    (hf : ∀ b, Q b → Gives P (f b)) : Gives P (r >>= f) := by
  intro c a c' hrun
  obtain ⟨b, d, hb, ha⟩ := runs_bind.mp hrun
  exact hf b (hr c b d hb) d a c' ha

/-- A sequence gives values with the property if its last part does for all values. -/
theorem gives_bind {r : Reader β} {f : β → Reader α} (hf : ∀ b, Gives P (f b)) :
    Gives P (r >>= f) :=
  Gives.bind (Q := fun _ => True) (fun _ _ _ _ => trivial) fun b _ => hf b

end Reader

open Reader

/-! ## Signatures as they are read -/

namespace Token

/-- Tokens each of which is complete. -/
def AllComplete (tokens : List Token) : Prop := ∀ token ∈ tokens, token.isComplete = true

/-- A token that is read is complete. -/
theorem gives_readWithin (room : Nat) : Gives (·.isComplete = true) (readWithin room) := by
  induction room with
  | zero => exact gives_throw _
  | succ room ih =>
    refine gives_bind fun byte => ?_
    split_ifs
    · exact gives_pure rfl
    · exact gives_pure rfl
    · exact gives_pure rfl
    · exact gives_pure rfl
    · exact ih.bind fun _ h => gives_pure h
    · exact ih.bind fun _ h => gives_pure h
    · exact gives_bind fun _ => gives_pure rfl
    · exact gives_pure rfl
    · exact gives_throw _

/-- Tokens that are read are complete. -/
theorem gives_readMany (count : Nat) : Gives AllComplete (readMany count) := by
  induction count with
  | zero => exact gives_pure (List.forall_mem_nil _)
  | succ count ih =>
    refine (gives_readWithin _).bind fun token htoken => ih.bind fun tokens htokens => ?_
    exact gives_pure (List.forall_mem_cons.mpr ⟨htoken, htokens⟩)

/-- A list of tokens that is read is complete. -/
theorem gives_readList : Gives AllComplete readList := gives_bind fun _ => gives_readMany _

end Token

namespace Signature

/-- A type signature that is read is complete. -/
theorem gives_readType : Gives (·.isComplete = true) readType :=
  gives_bind fun _ => Token.gives_readWithin _

/-- A function signature that is read is made of complete tokens. -/
theorem gives_readFunction :
    Gives (fun s => Token.AllComplete s.returns ∧ Token.AllComplete s.params) readFunction := by
  refine gives_bind fun _ => Token.gives_readList.bind fun returns hreturns => ?_
  exact Token.gives_readList.bind fun params hparams => gives_pure ⟨hreturns, hparams⟩

/-- A signature of locals that is read is made of complete tokens. -/
theorem gives_readLocals : Gives Token.AllComplete readLocals :=
  gives_bind fun _ => Token.gives_readList

end Signature

/-! ## Signatures of modules -/

/-- A module whose signatures are made of complete tokens. -/
structure Module.Complete (m : Module) : Prop where
  types : Token.AllComplete m.typeSignatures.records
  functions : ∀ s ∈ m.functionSignatures.records,
    Token.AllComplete s.returns ∧ Token.AllComplete s.params
  locals : ∀ tokens ∈ m.localSignatures.records, Token.AllComplete tokens

/-- Whether the signatures of a module are complete depends on its records only. -/
theorem Module.Complete.of_sameRecords {m n : Module} (h : m.Complete) (k : m.SameRecords n) :
    n.Complete := by
  obtain ⟨htypes, hfunctions, hlocals⟩ := h
  rw [k.typeSignatures.records] at htypes
  rw [k.functionSignatures.records] at hfunctions
  rw [k.localSignatures.records] at hlocals
  exact ⟨htypes, hfunctions, hlocals⟩

namespace Table

/-- Records that all have a property are joined by further ones that have it. -/
theorem forall_of_readInto {read : Reader α} {pool pool' : Pool α} {c : Cursor}
    (hread : Gives P read) (hpool : ∀ a ∈ pool.records, P a) (h : readInto c read pool = .ok pool') :
    ∀ a ∈ pool'.records, P a := by
  obtain ⟨c', hrun⟩ := runs_of_readInto h
  refine fill_keeps (Q := fun p _ => ∀ a ∈ p.records, P a) (fun p d a d' hp ha => ?_) hpool hrun
  rw [Pool.records_add, List.forall_mem_append]
  exact ⟨hp, List.forall_mem_singleton.mpr (hread d a d' ha)⟩

/-- A table adds complete tokens to the signatures of a module, if it adds any. -/
theorem complete_decode {m m' : Module} {s : Section} (h : decode m s = .ok m') (hm : m.Complete) :
    m'.Complete := by
  obtain ⟨htypes, hfunctions, hlocals⟩ := hm
  by_cases hcode : s.kind.holdsCode = true
  · exact Module.Complete.of_sameRecords ⟨htypes, hfunctions, hlocals⟩ (decode_code hcode h).2.1
  -- Only three of the tables without code hold signatures.
  obtain ⟨c, -, h⟩ := bind_eq_ok.mp h
  cases hk : s.kind <;> simp only [hk, TableKind.holdsCode, not_true_eq_false] at hcode h
  case addressPool =>
    split at h
    · simp [bind_eq_ok] at h
    · obtain ⟨p, -, h⟩ := bind_eq_ok.mp h
      obtain rfl := pure_eq_ok.mp h
      exact ⟨htypes, hfunctions, hlocals⟩
  case typeSignatures =>
    obtain ⟨p, hp, h⟩ := bind_eq_ok.mp h
    obtain rfl := pure_eq_ok.mp h
    exact ⟨forall_of_readInto Signature.gives_readType htypes hp, hfunctions, hlocals⟩
  case functionSignatures =>
    obtain ⟨p, hp, h⟩ := bind_eq_ok.mp h
    obtain rfl := pure_eq_ok.mp h
    exact ⟨htypes, forall_of_readInto Signature.gives_readFunction hfunctions hp, hlocals⟩
  case localSignatures =>
    obtain ⟨p, hp, h⟩ := bind_eq_ok.mp h
    obtain rfl := pure_eq_ok.mp h
    exact ⟨htypes, hfunctions, forall_of_readInto Signature.gives_readLocals hlocals hp⟩
  all_goals
    obtain ⟨p, -, h⟩ := bind_eq_ok.mp h
    obtain rfl := pure_eq_ok.mp h
    exact ⟨htypes, hfunctions, hlocals⟩

end Table

namespace Module

/-- The signatures of a decoded module are complete. -/
theorem complete_of_decode {data : Bytes} {m : Module} (h : decode data = .ok m) : m.Complete := by
  refine decode_invariant (fun _ _ => ?_) (fun _ _ _ hdecode hm => Table.complete_decode hdecode hm)
    (fun _ _ hm => ?_) h
  · exact ⟨List.forall_mem_nil _, List.forall_mem_nil _, List.forall_mem_nil _⟩
  · exact ⟨hm.types, hm.functions, hm.locals⟩

/-- The signatures of a loaded module are complete. -/
theorem Loads.complete {config : Config} {data : Bytes} {m : Module} (h : Loads config data m) :
    m.Complete := by
  obtain ⟨n, hn, rfl⟩ := h.exists_decode
  exact (complete_of_decode hn).of_sameRecords (sameRecords_layOut config n).symm

/-- A token that a module can give a type: each struct in it has a handle of the module. -/
def Knows (m : Module) : Token → Prop
  | .struct handle => 0 ≤ handle ∧ handle < m.structHandles.size
  | .reference _ target => m.Knows target
  | .anyStruct => False
  | _ => True

/-- A complete token whose handles are those of the module is known to it. -/
theorem knows_of_isComplete {m : Module} {token : Token} (hcomplete : token.isComplete = true)
    (h : ∀ handle ∈ token.handles, 0 ≤ handle ∧ handle < m.structHandles.size) : m.Knows token := by
  induction token with
  | bool | integer | string | address | bytearray => trivial
  | reference mutable target ih => exact ih hcomplete h
  | anyReference mutable => trivial
  | struct handle => exact h handle List.mem_cons_self
  | anyStruct => simp [Token.isComplete] at hcomplete

/-- A module that knows the tokens of its signatures. -/
structure KnowsAll (m : Module) : Prop where
  types : ∀ token ∈ m.typeSignatures.records, m.Knows token
  functions : ∀ s ∈ m.functionSignatures.records,
    (∀ token ∈ s.returns, m.Knows token) ∧ ∀ token ∈ s.params, m.Knows token
  locals : ∀ tokens ∈ m.localSignatures.records, ∀ token ∈ tokens, m.Knows token

/-- A loaded module knows what every token of its signatures stands for. -/
theorem Loads.knowsAll {config : Config} {data : Bytes} {m : Module} (h : Loads config data m) :
    m.KnowsAll := by
  have hcomplete := h.complete
  have hclosed := h.decoded.1.closed
  have known {token : Token} (hc : token.isComplete = true) (ht : token ∈ m.signatureTokens) :
      m.Knows token := knows_of_isComplete hc (hclosed.tokens token ht)
  refine ⟨fun token ht => ?_, fun s hs => ?_, fun tokens hs token ht => ?_⟩
  · exact known (hcomplete.types token ht) (Closed.typeTokens m ht)
  · obtain ⟨hreturns, hparams⟩ := hcomplete.functions s hs
    obtain ⟨hreturns', hparams'⟩ := Closed.functionTokens hs
    exact ⟨fun token ht => known (hreturns token ht) (hreturns' ht),
      fun token ht => known (hparams token ht) (hparams' ht)⟩
  · exact known (hcomplete.locals tokens hs token ht) (Closed.localTokens hs ht)

end Module

end MoveBytecode
