import MoveBytecode.Proofs.Format.Records
import MoveBytecode.Proofs.Reading.Groups

/-!
# Signatures are read as they were written

Tokens are written whatever their depth and whatever the numbers of their handles, and not all that was
written can be read: there may be no more than 64 references around a token, and handles have 16 bits.
Within these bounds a token is read back, wherever it stands and whatever follows; outside of them the
reader refuses it with the fault of the bound (`Signature.read_encode`). The same holds of lists of tokens
and so of signatures, of which the encoders refuse those that have no bytes at all.
-/

namespace MoveBytecode

variable {α β : Type}

namespace Reader

/-! ## Refusal -/

/-- Wherever a cursor faces `bytes`, a read fails with one fault, which is of this kind. -/
def Refuses (r : Reader α) (bytes : List UInt8) (kind : FaultKind) : Prop :=
  ∃ fault : Fault, fault.kind = kind ∧ ∀ c : Cursor, c.Faces bytes → Fails r c fault

variable {r : Reader α} {f : α → Reader β} {first second : List UInt8} {a : α} {kind : FaultKind}

/-- Throwing a fault refuses all bytes. -/
theorem refuses_throw (fault : Fault) (bytes : List UInt8) :
    (throw fault : Reader α).Refuses bytes fault.kind :=
  ⟨fault, rfl, fun _ _ => fails_throw.mpr rfl⟩

/-- A sequence refuses what its first part refuses. -/
theorem Refuses.bind (h : r.Refuses first kind) : (r >>= f).Refuses first kind := by
  obtain ⟨fault, hkind, hfails⟩ := h
  exact ⟨fault, hkind, fun c hc => fails_bind.mpr (.inl (hfails c hc))⟩

/-- A sequence refuses what its second part refuses behind what the first is parsed from. -/
theorem Parses.bind_refuses (hr : r.Parses first a) (hf : (f a).Refuses second kind) :
    (r >>= f).Refuses (first ++ second) kind := by
  obtain ⟨fault, hkind, hfails⟩ := hf
  refine ⟨fault, hkind, fun c hc => ?_⟩
  obtain ⟨hfirst, hsecond⟩ := hc.append
  exact fails_bind.mpr (.inr ⟨a, _, hr c hfirst, hfails _ hsecond⟩)

/-- What begins with reading a byte refuses the byte in front of what the rest refuses. -/
theorem Refuses.cons_u8 {f : UInt8 → Reader β} {byte : UInt8} {rest : List UInt8}
    (hf : (f byte).Refuses rest kind) : (u8 >>= f).Refuses (byte :: rest) kind :=
  (parses_u8 byte).bind_refuses hf

/-- A number with more groups than there may be is refused where it was written. -/
theorem refuses_uleb128 {limit n : Nat} (h : 0x80 ^ limit ≤ n) :
    (uleb128 limit).Refuses (encodeUleb128 n) .varintOverflow := by
  obtain ⟨octets, rest, hsplit, hgoOn, hlength⟩ := exists_goOn_encodeUleb128 h
  refine ⟨.varintTooLong limit, rfl, fun c hc => ?_⟩
  have hinside := hc.cursor_inside
  rw [hsplit] at hc
  exact (fails_groups hinside).mpr ⟨octets, hgoOn, hc.first, .inl ⟨hlength, rfl⟩⟩

/-- A number with more than 16 bits is refused where it was written. -/
theorem refuses_varu16 {n : Nat} (h : 0xFFFF < n) : varu16.Refuses (encodeUleb128 n) .varintOverflow := by
  by_cases hn : n < 0x80 ^ 3
  · -- There is room for all of the groups, and the number turns out to be too large.
    have hgroups : (uleb128 3).Parses (encodeUleb128 n) n := parses_groups hn
    refine ⟨.varintTooLarge n, rfl, fun c hc => fails_bind.mpr (.inr ⟨n, _, hgroups c hc, ?_⟩)⟩
    rw [if_pos h]
    exact fails_throw.mpr rfl
  · exact (refuses_uleb128 (Nat.le_of_not_lt hn)).bind

end Reader

open Reader

/-- A result that is a fault of this kind. -/
def RefusedAs (kind : FaultKind) (x : Except Fault α) : Prop :=
  ∃ fault, x = .error fault ∧ fault.kind = kind

/-- A sequence of results is refused as its first is. -/
theorem RefusedAs.bind {kind : FaultKind} {x : Except Fault α} (h : RefusedAs kind x)
    (f : α → Except Fault β) : RefusedAs kind (x >>= f) := by
  obtain ⟨fault, rfl, hkind⟩ := h
  exact ⟨fault, rfl, hkind⟩

/-- A sequence of results whose first has a value is refused as the rest is. -/
theorem refusedAs_bind_of_ok {kind : FaultKind} {x : Except Fault α} {a : α} (hx : x = .ok a)
    {f : α → Except Fault β} (h : RefusedAs kind (f a)) : RefusedAs kind (x >>= f) := by
  rwa [hx]

/-! ## Tokens -/

namespace Token

/-- Handles have numbers from zero on. -/
def Numbered (token : Token) : Prop := ∀ handle ∈ token.handles, 0 ≤ handle

/-- Tokens of signatures: references have targets, and structs have handles. -/
structure WellFormed (token : Token) : Prop where
  complete : token.isComplete = true
  numbered : token.Numbered

/-- A token has bytes if it is well-formed, however deep it is and however large its handle. -/
theorem WellFormed.encode {token : Token} (h : token.WellFormed) : Answers token.encode := by
  obtain ⟨hcomplete, hnumbered⟩ := h
  induction token with
  | bool | integer | string | address | bytearray => exact answers_ok _
  | reference mutable target ih =>
    exact (ih hcomplete hnumbered).bind fun _ _ => answers_pure _
  | struct handle =>
    exact answers_bind_of_ok (encodeVarint_of_nonneg (hnumbered handle List.mem_cons_self))
      (answers_pure _)
  | anyReference mutable => simp [isComplete] at hcomplete
  | anyStruct => simp [isComplete] at hcomplete

/-- A token that lacks a target or a handle has no bytes. -/
theorem refusedAs_encode {token : Token} (h : token.isComplete = false) :
    RefusedAs .malformedSignature token.encode := by
  induction token with
  | bool | integer | string | address | bytearray => simp [isComplete] at h
  | reference mutable target ih => exact (ih h).bind _
  | struct handle => simp [isComplete] at h
  | anyReference mutable => exact ⟨_, rfl, rfl⟩
  | anyStruct => exact ⟨_, rfl, rfl⟩

variable {token : Token} {bytes : List UInt8} {room : Nat}

/-- A token is refused where there is no room for all of its references, before its handle is read. -/
theorem refuses_of_deep (hbytes : token.encode = .ok bytes) (hroom : room ≤ token.nesting) :
    (readWithin room).Refuses bytes .malformedSignature := by
  induction room generalizing token bytes with
  | zero => exact refuses_throw _ _
  | succ room ih =>
    cases token with
    | reference mutable target =>
      obtain ⟨rest, hrest, hbytes⟩ := bind_eq_ok.mp hbytes
      obtain rfl := pure_eq_ok.mp hbytes
      have hinner : (readWithin room).Refuses rest .malformedSignature :=
        ih hrest (Nat.le_of_succ_le_succ hroom)
      cases mutable with
      | false => exact Refuses.cons_u8 hinner.bind
      | true => exact Refuses.cons_u8 hinner.bind
    | bool | integer | string | address | bytearray | struct _ | anyReference _ | anyStruct =>
      simp [nesting] at hroom

/-- A token is refused for a handle with more than 16 bits, where there is room for its references. -/
theorem refuses_of_large (hbytes : token.encode = .ok bytes) (hnumbered : token.Numbered)
    (hlarge : ¬ token.Small) (hroom : token.nesting < room) :
    (readWithin room).Refuses bytes .varintOverflow := by
  induction token generalizing room bytes with
  | bool | integer | string | address | bytearray | anyReference _ | anyStruct =>
    simp [Small, handles] at hlarge
  | reference mutable target ih =>
    obtain ⟨room, rfl⟩ : ∃ r, room = r + 1 := ⟨room - 1, by omega⟩
    obtain ⟨rest, hrest, hbytes⟩ := bind_eq_ok.mp hbytes
    obtain rfl := pure_eq_ok.mp hbytes
    have hinner : (readWithin room).Refuses rest .varintOverflow :=
      ih hrest hnumbered hlarge (Nat.lt_of_succ_lt_succ hroom)
    cases mutable with
    | false => exact Refuses.cons_u8 hinner.bind
    | true => exact Refuses.cons_u8 hinner.bind
  | struct handle =>
    obtain ⟨room, rfl⟩ : ∃ r, room = r + 1 := ⟨room - 1, by omega⟩
    have h0 : 0 ≤ handle := hnumbered handle List.mem_cons_self
    have hmore : 0xFFFF < handle.toNat := by
      simp only [Small, handles, List.forall_mem_singleton] at hlarge
      omega
    obtain ⟨number, hnumber, hbytes⟩ := bind_eq_ok.mp hbytes
    obtain rfl := pure_eq_ok.mp hbytes
    obtain rfl : encodeUleb128 handle.toNat = number :=
      Except.ok.inj ((encodeVarint_of_nonneg h0).symm.trans hnumber)
    -- The byte for the kind is read, and the index behind it is refused.
    exact Refuses.cons_u8 (refuses_varu16 hmore).bind

/-! ## Lists of tokens -/

/-- Lists that have no bytes: those of more than 255 tokens, and those with a token that lacks a target
or a handle. -/
def Unwritable (tokens : List Token) : Prop :=
  0xFF < tokens.length ∨ ∃ token ∈ tokens, token.isComplete = false

/-- A list of more than 255 tokens is refused. -/
theorem refusedAs_encodeList_of_long {tokens : List Token} (h : 0xFF < tokens.length) :
    RefusedAs .malformedSignature (encodeList tokens) :=
  ⟨.tooManyTokens tokens.length, by rw [encodeList, if_pos h]; rfl, rfl⟩

/-- Tokens are written in order, up to the first that lacks a target or a handle. -/
theorem refusedAs_mapM_encode {tokens : List Token} (hnumbered : ∀ token ∈ tokens, token.Numbered)
    (h : ∃ token ∈ tokens, token.isComplete = false) :
    RefusedAs .malformedSignature (tokens.mapM encode) := by
  induction tokens with
  | nil => simp at h
  | cons first rest ih =>
    obtain ⟨hfirst, hrest⟩ := List.forall_mem_cons.mp hnumbered
    rw [List.mapM_cons]
    cases hcomplete : first.isComplete with
    | false => exact (refusedAs_encode hcomplete).bind _
    | true =>
      obtain ⟨bytes, hbytes⟩ := (WellFormed.mk hcomplete hfirst).encode
      have hlater : ∃ token ∈ rest, token.isComplete = false := by
        obtain ⟨token, htoken, hlacks⟩ := h
        rcases List.mem_cons.mp htoken with rfl | htoken
        · simp [hcomplete] at hlacks
        · exact ⟨token, htoken, hlacks⟩
      exact refusedAs_bind_of_ok hbytes ((ih hrest hlater).bind _)

/-- A list that cannot be written is refused. -/
theorem refusedAs_encodeList {tokens : List Token} (hnumbered : ∀ token ∈ tokens, token.Numbered)
    (h : Unwritable tokens) : RefusedAs .malformedSignature (encodeList tokens) := by
  by_cases hlong : 0xFF < tokens.length
  · exact refusedAs_encodeList_of_long hlong
  · rw [encodeList, if_neg hlong]
    exact (refusedAs_mapM_encode hnumbered (h.resolve_left hlong)).bind _

/-- A list has bytes unless one of these reasons is against it. -/
theorem answers_encodeList {tokens : List Token} (hnumbered : ∀ token ∈ tokens, token.Numbered)
    (h : ¬ Unwritable tokens) : Answers (encodeList tokens) := by
  simp only [Unwritable, not_or, not_exists, not_and, Bool.not_eq_false] at h
  obtain ⟨hlength, hcomplete⟩ := h
  have htokens : Answers (tokens.mapM encode) :=
    answers_mapM fun token htoken => (WellFormed.mk (hcomplete token htoken) (hnumbered token htoken)).encode
  rw [encodeList, if_neg hlength]
  exact htokens.bind fun _ _ => answers_pure _

end Token

/-! ## Signatures -/

namespace Signature

open Token (Readable Unwritable)

/-- The signature of a function has no bytes if one of its lists has none. -/
theorem refusedAs_encodeFunction {s : FunctionSignature} (hnumbered : ∀ token ∈ s.returns, token.Numbered)
    (h : Unwritable s.returns ∨ RefusedAs .malformedSignature (Token.encodeList s.params)) :
    RefusedAs .malformedSignature (encodeFunction s) := by
  by_cases hreturns : Unwritable s.returns
  · exact (Token.refusedAs_encodeList hnumbered hreturns).bind _
  · obtain ⟨returns, hreturnsOk⟩ := Token.answers_encodeList hnumbered hreturns
    exact refusedAs_bind_of_ok hreturnsOk ((h.resolve_left hreturns).bind _)

/-- The signature of a function is read as it was written, what it returns before what it takes. -/
theorem exists_parses_readFunction {s : FunctionSignature} (hreturns : s.returns.length ≤ 0xFF)
    (hparams : s.params.length ≤ 0xFF) (hr : Readable s.returns) (hp : Readable s.params) :
    ∃ returns params, Token.encodeList s.returns = .ok returns ∧ Token.encodeList s.params = .ok params ∧
      encodeFunction s = .ok (SignatureKind.function.code :: (returns ++ params)) ∧
      readFunction.Parses (SignatureKind.function.code :: (returns ++ params)) s := by
  obtain ⟨bytes, hbytes, hparses⟩ := parses_readFunction hreturns hparams hr hp
  obtain ⟨returns, hreturns, hrest⟩ := bind_eq_ok.mp hbytes
  obtain ⟨params, hparams, hrest⟩ := bind_eq_ok.mp hrest
  obtain ⟨-, rfl⟩ := List.cons.inj (pure_eq_ok.mp hrest)
  exact ⟨returns, params, hreturns, hparams, hbytes, hparses⟩

/-- Signatures are read as they were written, wherever they stand and whatever follows, and reading fails
exactly outside the format: for a token inside `depth` references that are too many together with its own,
and otherwise for a handle with more than 16 bits. Writing fails for lists that are too long and for
tokens without a target or a handle. -/
theorem read_encode :
    (∀ token : Token, token.WellFormed → ∀ depth : Int, ∃ bytes, token.encode = .ok bytes ∧
      (depth + token.nesting ≤ 64 → token.Small → (Token.read depth).Parses bytes token) ∧
      (64 < depth + token.nesting → (Token.read depth).Refuses bytes .malformedSignature) ∧
      (depth + token.nesting ≤ 64 → ¬ token.Small → (Token.read depth).Refuses bytes .varintOverflow)) ∧
    (∀ token : Token, Readable [token] →
      ∃ bytes, encodeType token = .ok bytes ∧ readType.Parses bytes token) ∧
    (∀ s : FunctionSignature, s.returns.length ≤ 0xFF → s.params.length ≤ 0xFF → Readable s.returns →
      Readable s.params → ∃ returns params, Token.encodeList s.returns = .ok returns ∧
        Token.encodeList s.params = .ok params ∧
        encodeFunction s = .ok (SignatureKind.function.code :: (returns ++ params)) ∧
        readFunction.Parses (SignatureKind.function.code :: (returns ++ params)) s) ∧
    (∀ tokens : List Token, tokens.length ≤ 0xFF → Readable tokens →
      ∃ bytes, encodeLocals tokens = .ok bytes ∧ readLocals.Parses bytes tokens) ∧
    (∀ token : Token, token.isComplete = false → RefusedAs .malformedSignature token.encode ∧
      RefusedAs .malformedSignature (encodeType token)) ∧
    (∀ tokens : List Token,
      0xFF < tokens.length ∨ ((∀ token ∈ tokens, token.Numbered) ∧ Unwritable tokens) →
        RefusedAs .malformedSignature (Token.encodeList tokens) ∧
        RefusedAs .malformedSignature (encodeLocals tokens) ∧
        (∀ params, RefusedAs .malformedSignature (encodeFunction ⟨tokens, params⟩)) ∧
        (∀ returns : List Token, (∀ token ∈ returns, token.Numbered) →
          RefusedAs .malformedSignature (encodeFunction ⟨returns, tokens⟩))) := by
  refine ⟨fun token htoken depth => ?_, fun token htoken => ?_,
    fun s hreturns hparams hr hp => exists_parses_readFunction hreturns hparams hr hp,
    fun tokens hlength htokens => ?_, fun token htoken => ?_, fun tokens htokens => ?_⟩
  · obtain ⟨bytes, hbytes⟩ := htoken.encode
    refine ⟨bytes, hbytes, fun hdepth hsmall => ?_, fun hdepth => ?_, fun hdepth hlarge => ?_⟩
    · have hroom : token.nesting < (Token.maxDepth + 1 - depth).toNat := by
        simp only [Token.maxDepth]
        omega
      obtain ⟨_, hread, hparses⟩ := Token.parses_readWithin htoken.complete hsmall hroom
      obtain rfl := Except.ok.inj (hread.symm.trans hbytes)
      exact hparses
    · refine Token.refuses_of_deep hbytes ?_
      simp only [Token.maxDepth]
      omega
    · refine Token.refuses_of_large hbytes htoken.numbered hlarge ?_
      simp only [Token.maxDepth]
      omega
  · obtain ⟨hcomplete, hsmall, hnesting⟩ := htoken token List.mem_cons_self
    obtain ⟨bytes, hbytes, hparses⟩ := parses_readType hcomplete hsmall hnesting
    exact ⟨_, hbytes, hparses⟩
  · obtain ⟨bytes, hbytes, hparses⟩ := parses_readLocals hlength htokens
    exact ⟨_, hbytes, hparses⟩
  · have hrefused := Token.refusedAs_encode htoken
    exact ⟨hrefused, hrefused.bind _⟩
  · have hrefused : RefusedAs .malformedSignature (Token.encodeList tokens) := by
      rcases htokens with hlong | ⟨hnumbered, hunwritable⟩
      · exact Token.refusedAs_encodeList_of_long hlong
      · exact Token.refusedAs_encodeList hnumbered hunwritable
    exact ⟨hrefused, hrefused.bind _, fun params => hrefused.bind _,
      fun returns hnumbered => refusedAs_encodeFunction hnumbered (.inr hrefused)⟩

/-- A reference to struct 300 is read inside 63 references and refused inside 64, one to struct 70000 is
refused for its handle, and neither 256 tokens nor a struct without a handle can be written. -/
theorem read_encode_structReference :
    (Token.reference true (.struct 300)).encode = .ok [0x06, 0x07, 0xAC, 0x02] ∧
    (Token.read 63).Parses [0x06, 0x07, 0xAC, 0x02] (.reference true (.struct 300)) ∧
    (Token.read 64).Refuses [0x06, 0x07, 0xAC, 0x02] .malformedSignature ∧
    (Token.read 63).Refuses [0x06, 0x07, 0xF0, 0xA2, 0x04] .varintOverflow ∧
    (∃ bytes, encodeLocals [.reference true (.struct 300)] = .ok bytes ∧
      readLocals.Parses bytes [.reference true (.struct 300)]) ∧
    RefusedAs .malformedSignature (Token.encodeList (List.replicate 256 .bool)) ∧
    RefusedAs .malformedSignature Token.anyStruct.encode := by
  obtain ⟨htoken, -, -, hlocals, hincomplete, hlist⟩ := read_encode
  have hsmall : (Token.reference true (.struct 300)).Small := by simp [Token.Small, Token.handles]
  have hlarge : ¬ (Token.reference true (.struct 70000)).Small := by simp [Token.Small, Token.handles]
  have hsample : (Token.reference true (.struct 300)).WellFormed :=
    ⟨rfl, by simp [Token.Numbered, Token.handles]⟩
  have hbytes : (Token.reference true (.struct 300)).encode = .ok [0x06, 0x07, 0xAC, 0x02] := by
    decide +kernel
  have hlargeBytes : (Token.reference true (.struct 70000)).encode = .ok [0x06, 0x07, 0xF0, 0xA2, 0x04] := by
    decide +kernel
  obtain ⟨_, hfits, hread, -, -⟩ := htoken _ hsample 63
  obtain rfl := Except.ok.inj (hbytes.symm.trans hfits)
  obtain ⟨_, hdeep, -, hrefused, -⟩ := htoken _ hsample 64
  obtain rfl := Except.ok.inj (hbytes.symm.trans hdeep)
  obtain ⟨_, hwide, -, -, hoverflow⟩ :=
    htoken (.reference true (.struct 70000)) ⟨rfl, by simp [Token.Numbered, Token.handles]⟩ 63
  obtain rfl := Except.ok.inj (hlargeBytes.symm.trans hwide)
  exact ⟨hbytes, hread (by decide) hsmall, hrefused (by decide), hoverflow (by decide) hlarge,
    hlocals _ (by decide) (List.forall_mem_singleton.mpr ⟨rfl, hsmall, by decide⟩),
    (hlist _ (.inl (by rw [List.length_replicate]; decide))).1, (hincomplete .anyStruct rfl).1⟩

end Signature

end MoveBytecode
