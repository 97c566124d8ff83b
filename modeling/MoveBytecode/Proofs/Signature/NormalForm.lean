import MoveBytecode.Proofs.Signature.RoundTrip

/-!
# Written signatures are a normal form

The bytes that a signature is read from fall into pieces: bytes that say what follows or how many of it,
and the indices of structs. Only the indices can be spelled in more than one way, the shortest of which is
written, so what was read is what would be written up to the padding of indices
(`Reader.Normalizes`). This holds of tokens at any depth and of the three kinds of signatures
(`Signature.read_normalizes`).
-/

namespace MoveBytecode

open Reader

variable {α β : Type}

/-! ## Pieces -/

/-- A piece of a signature. -/
inductive Piece where
  /-- The byte of a kind, of a type or of the length of a list. -/
  | mark (byte : UInt8)
  /-- The groups of seven bits of the index of a struct. -/
  | index (octets : List UInt8)
  deriving DecidableEq, Repr

namespace Piece

/-- The bytes of a piece. -/
def bytes : Piece → List UInt8
  | .mark byte => [byte]
  | .index octets => octets

/-- The bytes of pieces one behind the other. -/
def join (pieces : List Piece) : List UInt8 := pieces.flatMap bytes

/-- A piece as it is written and the piece with an index padded. -/
inductive Pads : Piece → Piece → Prop
  | mark (byte : UInt8) : Pads (.mark byte) (.mark byte)
  | index (n extra : Nat) : Pads (.index (encodeUleb128 n)) (.index (padded (encodeUleb128 n) extra))

/-- Pieces that differ in nothing but the padding of their indices: both are those written, padded. -/
def SameButPadding (written first second : List Piece) : Prop :=
  List.Forall₂ Pads written first ∧ List.Forall₂ Pads written second

/-- Every index among the pieces has its shortest spelling. -/
def AllShortest (pieces : List Piece) : Prop := ∀ octets, .index octets ∈ pieces → IsShortest octets

/-- All pieces are shortest iff the first is and all others are. -/
theorem allShortest_cons {piece : Piece} {rest : List Piece} :
    AllShortest (piece :: rest) ↔ AllShortest [piece] ∧ AllShortest rest := by
  simp only [AllShortest, List.mem_cons, List.not_mem_nil, or_false]
  exact ⟨fun h => ⟨fun octets ho => h octets (.inl ho), fun octets ho => h octets (.inr ho)⟩,
    fun h octets ho => ho.elim (h.1 octets) (h.2 octets)⟩

/-- The bytes of pieces are those of the first and then those of the others. -/
@[simp] theorem join_cons (piece : Piece) (rest : List Piece) :
    join (piece :: rest) = piece.bytes ++ join rest := List.flatMap_cons

/-- The bytes of pieces are joined part by part. -/
@[simp] theorem join_append (first second : List Piece) :
    join (first ++ second) = join first ++ join second := List.flatMap_append

/-- Padding makes no piece shorter. -/
theorem Pads.length_le {written piece : Piece} (h : Pads written piece) :
    written.bytes.length ≤ piece.bytes.length := by
  cases h with
  | mark byte => exact Nat.le_refl _
  | index n extra => simp [bytes]

/-- A piece is what would be written iff its index was not padded. -/
theorem Pads.length_eq_iff {written piece : Piece} (h : Pads written piece) :
    written.bytes.length = piece.bytes.length ↔ AllShortest [piece] := by
  cases h with
  | mark byte => simp [AllShortest]
  | index n extra => simp [AllShortest, bytes, isShortest_padded]

/-- A padded piece of the same length has no padding. -/
theorem Pads.eq_of_length_eq {written piece : Piece} (h : Pads written piece)
    (hlength : written.bytes.length = piece.bytes.length) : written = piece := by
  cases h with
  | mark byte => rfl
  | index n extra =>
    obtain rfl : extra = 0 := by simpa [bytes] using hlength
    rfl

variable {written pieces : List Piece}

/-- Padding makes no pieces together shorter. -/
theorem length_join_le (h : List.Forall₂ Pads written pieces) :
    (join written).length ≤ (join pieces).length := by
  induction h with
  | nil => exact Nat.le_refl _
  | cons hpiece _ ih =>
    have := hpiece.length_le
    simp only [join_cons, List.length_append]
    omega

/-- Pieces are what would be written iff none of their indices was padded: padding makes them longer. -/
theorem join_eq_iff (h : List.Forall₂ Pads written pieces) :
    join written = join pieces ↔ AllShortest pieces := by
  induction h with
  | nil => simp [AllShortest]
  | @cons first piece written pieces hpiece hrest ih =>
    have hfirst := hpiece.length_le
    have hlater := length_join_le hrest
    rw [allShortest_cons, ← hpiece.length_eq_iff, ← ih, join_cons, join_cons]
    constructor
    · intro heq
      have hlength := congrArg List.length heq
      simp only [List.length_append] at hlength
      have hbytes : first.bytes.length = piece.bytes.length := by omega
      obtain rfl := hpiece.eq_of_length_eq hbytes
      exact ⟨rfl, List.append_cancel_left heq⟩
    · rintro ⟨hbytes, hrest⟩
      rw [hpiece.eq_of_length_eq hbytes, hrest]

end Piece

open Piece (join Pads)

/-! ## Reads by pieces -/

/-- A cursor faces pieces, and another stands right behind them. -/
def Cursor.Passes (c : Cursor) (pieces : List Piece) (c' : Cursor) : Prop :=
  c.Faces (join pieces) ∧ c' = c.moved (join pieces).length

/-- Bytes of two parts lie ahead if the second does behind the first. -/
theorem Cursor.Faces.followed {c : Cursor} {first second : List UInt8} (h : c.Faces first)
    (k : (c.moved first.length).Faces second) : c.Faces (first ++ second) := by
  obtain ⟨rest, hrest⟩ := h.ahead
  have hroom := k.room
  have hahead := k.ahead
  rw [moved_data, moved_position, ← List.drop_drop, ← hrest, List.drop_left] at hahead
  refine ⟨?_, h.inside, ?_⟩
  · simp only [moved_position, moved_stop] at hroom
    rw [List.length_append]
    omega
  · rw [← hrest]
    exact (List.prefix_append_right_inj first).mpr hahead

namespace Reader

variable {r : Reader α} {f : α → Reader β} {S : α → List Piece → Prop} {T : β → List Piece → Prop}

/-- Whatever a read yields, it passes pieces that go with it. -/
def Takes (S : α → List Piece → Prop) (r : Reader α) : Prop :=
  ∀ c a c', c.Inside → Runs r c a c' → ∃ pieces, S a pieces ∧ c.Passes pieces c'

/-- Returning a value takes no pieces. -/
theorem takes_pure {a : α} (h : S a []) : (pure a : Reader α).Takes S := by
  intro c b c' hc hrun
  obtain ⟨rfl, rfl⟩ := runs_pure.mp hrun
  exact ⟨[], h, Cursor.faces_nil hc, rfl⟩

/-- Throwing a fault takes no pieces, as it ends with no value. -/
theorem takes_throw (fault : Fault) : (throw fault : Reader α).Takes S :=
  fun _ _ _ _ hrun => absurd hrun not_runs_throw

/-- A sequence takes the pieces of its parts, one behind the other. -/
theorem Takes.bind (hr : r.Takes S)
    (hf : ∀ a first, S a first → (f a).Takes fun b second => T b (first ++ second)) :
    (r >>= f).Takes T := by
  intro c b c' hc hrun
  obtain ⟨a, d, ha, hb⟩ := runs_bind.mp hrun
  obtain ⟨first, hS, hfirst, rfl⟩ := hr c a d hc ha
  obtain ⟨second, hT, hsecond, rfl⟩ := hf a first hS _ b c' hfirst.inside_moved hb
  refine ⟨first ++ second, hT, ?_, ?_⟩
  · rw [Piece.join_append]
    exact hfirst.followed hsecond
  · rw [Piece.join_append, Cursor.moved_moved, List.length_append]

/-- What goes with the pieces that are taken may be replaced by what follows from it. -/
theorem Takes.imp {S' : α → List Piece → Prop} (hr : r.Takes S) (h : ∀ a pieces, S a pieces → S' a pieces) :
    r.Takes S' := by
  intro c a c' hc hrun
  obtain ⟨pieces, hS, hpasses⟩ := hr c a c' hc hrun
  exact ⟨pieces, h a pieces hS, hpasses⟩

/-- Reading a byte takes the byte as a mark. -/
theorem takes_u8 : u8.Takes fun byte pieces => pieces = [.mark byte] := by
  intro c byte c' hc hrun
  obtain ⟨hlt, hbyte, rfl⟩ := runs_u8.mp hrun
  exact ⟨_, rfl, Cursor.faces_cons.mpr ⟨hlt, hbyte, Cursor.faces_nil (hc.next hlt)⟩, rfl⟩

/-- Reading an index takes its shortest groups, padded. -/
theorem takes_varu16 :
    varu16.Takes fun n pieces => n ≤ 0xFFFF ∧ List.Forall₂ Pads [.index (encodeUleb128 n)] pieces := by
  intro c n c' hc hrun
  obtain ⟨octets, hgroups, -, hbound, hfaces, rfl⟩ := (runs_varu16 hc).mp hrun
  obtain ⟨extra, rfl⟩ := hgroups.eq_padded
  refine ⟨[.index (padded (encodeUleb128 n) extra)], ⟨hbound, .cons (.index n extra) .nil⟩, ?_⟩
  simpa [Cursor.Passes, join, Piece.bytes] using hfaces

/-- What is written is a normal form of what is read: wherever a read yields a value, it has passed the
pieces of the value with indices padded; writing the value gives no more bytes, which are read as the value
again, and the same bytes iff no index was padded; and all reads that yield the value have passed the same
but for the padding. -/
structure Normalizes (r : Reader α) (encode : α → Except Fault (List UInt8)) (pieces : α → List Piece) :
    Prop where
  normal : ∀ c a c', c.Inside → Runs r c a c' → ∃ taken, c.Passes taken c' ∧
    List.Forall₂ Pads (pieces a) taken ∧ ∃ bytes, encode a = .ok bytes ∧
      bytes.length ≤ (join taken).length ∧ r.Parses bytes a ∧
      (bytes = join taken ↔ Piece.AllShortest taken)
  alike : ∀ c d a c' d', c.Inside → d.Inside → Runs r c a c' → Runs r d a d' →
    ∃ taken taken', c.Passes taken c' ∧ d.Passes taken' d' ∧ Piece.SameButPadding (pieces a) taken taken'

/-- A reader that takes the pieces of a value, padded, has their bytes as its normal form if they are what
is written and what is read. -/
theorem Takes.normalizes {encode : α → Except Fault (List UInt8)} {pieces : α → List Piece}
    {P : α → Prop} (hr : r.Takes fun a taken => P a ∧ List.Forall₂ Pads (pieces a) taken)
    (hencode : ∀ a, P a → encode a = .ok (join (pieces a)))
    (hparses : ∀ a, P a → ∃ bytes, encode a = .ok bytes ∧ r.Parses bytes a) :
    r.Normalizes encode pieces := by
  constructor
  · intro c a c' hc hrun
    obtain ⟨taken, ⟨hP, hpads⟩, hpasses⟩ := hr c a c' hc hrun
    obtain ⟨bytes, hbytes, hread⟩ := hparses a hP
    obtain rfl := Except.ok.inj ((hencode a hP).symm.trans hbytes)
    exact ⟨taken, hpasses, hpads, _, hbytes, Piece.length_join_le hpads, hread, Piece.join_eq_iff hpads⟩
  · intro c d a c' d' hc hd hrun hrun'
    obtain ⟨taken, ⟨-, hpads⟩, hpasses⟩ := hr c a c' hc hrun
    obtain ⟨taken', ⟨-, hpads'⟩, hpasses'⟩ := hr d a d' hd hrun'
    exact ⟨taken, taken', hpasses, hpasses', hpads, hpads'⟩

end Reader

/-! ## Tokens -/

namespace Token

/-- The pieces of a token as they are written. -/
def pieces : Token → List Piece
  | .reference mutable target => .mark (Token.reference mutable target).code :: target.pieces
  | .struct handle => [.mark (Token.struct handle).code, .index (encodeUleb128 handle.toNat)]
  | token => [.mark token.code]

/-- The pieces of a list of tokens as they are written. -/
def listPieces (tokens : List Token) : List Piece :=
  .mark (UInt8.ofNat tokens.length) :: tokens.flatMap pieces

/-- A complete token is written as its pieces. -/
theorem encode_eq_join {token : Token} (hcomplete : token.isComplete = true) (hnumbered : token.Numbered) :
    token.encode = .ok (join token.pieces) := by
  induction token with
  | bool | integer | string | address | bytearray => rfl
  | reference mutable target ih =>
    exact bind_eq_ok.mpr ⟨_, ih hcomplete hnumbered, rfl⟩
  | struct handle =>
    refine bind_eq_ok.mpr ⟨_, encodeVarint_of_nonneg (hnumbered handle List.mem_cons_self), ?_⟩
    simp [pieces, join, Piece.bytes]
  | anyReference mutable => simp [isComplete] at hcomplete
  | anyStruct => simp [isComplete] at hcomplete

/-- Small tokens have handles numbered from zero on. -/
theorem Small.numbered {token : Token} (h : token.Small) : token.Numbered :=
  fun handle hhandle => (h handle hhandle).1

/-- A list of readable tokens is written as its pieces. -/
theorem encodeList_eq_join {tokens : List Token} (hlength : tokens.length ≤ 0xFF) (h : Readable tokens) :
    encodeList tokens = .ok (join (listPieces tokens)) := by
  have htokens : tokens.mapM encode = .ok (tokens.map fun token => join token.pieces) := by
    rw [mapM_eq_ok, List.forall₂_map_right_iff, List.forall₂_same]
    exact fun token htoken => encode_eq_join (h token htoken).1 (h token htoken).2.1.numbered
  have hjoin : join (tokens.flatMap pieces) = (tokens.map fun token => join token.pieces).flatten := by
    rw [join, List.flatMap_assoc, List.flatMap_def]
    rfl
  rw [encodeList, if_neg (by omega), listPieces, Piece.join_cons, hjoin]
  exact bind_eq_ok.mpr ⟨_, htokens, rfl⟩

/-- A token that is read where there is room for so many tokens, itself included. -/
structure Fits (room : Nat) (token : Token) : Prop where
  complete : token.isComplete = true
  small : token.Small
  nesting : token.nesting < room

/-- Reading a token takes its pieces, padded. -/
theorem takes_readWithin (room : Nat) : (readWithin room).Takes fun token taken =>
    Fits room token ∧ List.Forall₂ Pads token.pieces taken := by
  induction room with
  | zero => exact takes_throw _
  | succ room ih =>
    refine takes_u8.bind fun byte first hfirst => ?_
    subst hfirst
    -- A byte that is all of a token.
    have leaf : ∀ token : Token, token.isComplete = true → token.handles = [] → token.nesting = 0 →
        token.pieces = [.mark byte] → (pure token : Reader Token).Takes fun token second =>
          Fits (room + 1) token ∧ List.Forall₂ Pads token.pieces ([Piece.mark byte] ++ second) :=
      fun token hcomplete hhandles hnesting hpieces => takes_pure
        ⟨⟨hcomplete, by simp [Small, hhandles], by omega⟩, by rw [hpieces]; exact .cons (.mark byte) .nil⟩
    -- A byte in front of the token that a reference points to.
    have inner : ∀ mutable, (Token.reference mutable .bool).code = byte →
        (do return .reference mutable (← readWithin room) : Reader Token).Takes fun token second =>
          Fits (room + 1) token ∧ List.Forall₂ Pads token.pieces ([Piece.mark byte] ++ second) := by
      intro mutable hcode
      refine ih.bind fun target taken htarget => takes_pure ⟨?_, ?_⟩
      · exact ⟨htarget.1.complete, htarget.1.small, Nat.succ_lt_succ htarget.1.nesting⟩
      · have hmark : (Token.reference mutable target).pieces = .mark byte :: target.pieces := by
          cases mutable <;> simp [pieces, code, ← hcode]
        rw [hmark, List.append_nil]
        exact .cons (.mark byte) htarget.2
    split_ifs with h1 h2 h3 h4 h5 h6 h7 h8
    · exact leaf .bool rfl rfl rfl (by rw [h1]; rfl)
    · exact leaf .integer rfl rfl rfl (by rw [h2]; rfl)
    · exact leaf .string rfl rfl rfl (by rw [h3]; rfl)
    · exact leaf .address rfl rfl rfl (by rw [h4]; rfl)
    · exact inner false h5.symm
    · exact inner true h6.symm
    · subst h7
      refine takes_varu16.bind fun n taken hn => takes_pure ⟨⟨rfl, ?_, Nat.succ_pos room⟩, ?_⟩
      · simp only [Small, handles, List.forall_mem_singleton]
        omega
      · rw [List.append_nil]
        exact .cons (.mark _) hn.2
    · exact leaf .bytearray rfl rfl rfl (by rw [h8]; rfl)
    · exact takes_throw _

/-- Reading a number of tokens takes their pieces, padded. -/
theorem takes_readMany (count : Nat) : (readMany count).Takes fun tokens taken =>
    (tokens.length = count ∧ Readable tokens) ∧ List.Forall₂ Pads (tokens.flatMap pieces) taken := by
  induction count with
  | zero => exact takes_pure ⟨⟨rfl, List.forall_mem_nil _⟩, .nil⟩
  | succ count ih =>
    refine (takes_readWithin _).bind fun token first htoken => ih.bind fun rest second hrest => ?_
    obtain ⟨⟨hcomplete, hsmall, hnesting⟩, hfirst⟩ := htoken
    obtain ⟨⟨hlength, hreadable⟩, hsecond⟩ := hrest
    refine takes_pure ⟨⟨by rw [List.length_cons, hlength], ?_⟩, ?_⟩
    · exact List.forall_mem_cons.mpr ⟨⟨hcomplete, hsmall, Nat.le_of_lt_succ hnesting⟩, hreadable⟩
    · rw [List.flatMap_cons, List.append_nil]
      exact List.rel_append hfirst hsecond

/-- Reading a list of tokens takes its pieces, padded. -/
theorem takes_readList : readList.Takes fun tokens taken =>
    (tokens.length ≤ 0xFF ∧ Readable tokens) ∧ List.Forall₂ Pads (listPieces tokens) taken := by
  refine takes_u8.bind fun byte first hfirst => ?_
  subst hfirst
  refine (takes_readMany _).imp fun tokens taken ⟨⟨hlength, hreadable⟩, hpads⟩ => ?_
  have hbyte : UInt8.ofNat tokens.length = byte := by rw [hlength, UInt8.ofNat_toNat]
  have hlt : byte.toNat < 256 := byte.toNat_lt
  refine ⟨⟨by omega, hreadable⟩, ?_⟩
  rw [listPieces, hbyte]
  exact .cons (.mark byte) hpads

/-- Tokens are read in normal form, inside any number of references. -/
theorem normalizes_read (depth : Int) : (read depth).Normalizes encode pieces :=
  (takes_readWithin _).normalizes (fun _ h => encode_eq_join h.complete h.small.numbered)
    fun _ h => parses_readWithin h.complete h.small h.nesting

end Token

/-! ## Signatures -/

namespace Signature

open Token (Readable listPieces)

/-- Expecting the kind of a signature takes its byte as a mark. -/
theorem takes_expectKind (kind : SignatureKind) :
    (expectKind kind).Takes fun _ pieces => pieces = [.mark kind.code] := by
  refine takes_u8.bind fun byte first hfirst => ?_
  subst hfirst
  split_ifs with hbyte
  · exact takes_throw _
  · exact takes_pure (by rw [not_not.mp hbyte, List.append_nil])

/-- The pieces of the signature of a field as they are written. -/
def typePieces (token : Token) : List Piece := .mark SignatureKind.type.code :: token.pieces

/-- The pieces of the signature of a function as they are written. -/
def functionPieces (s : FunctionSignature) : List Piece :=
  .mark SignatureKind.function.code :: (listPieces s.returns ++ listPieces s.params)

/-- The pieces of the signature of a function's locals as they are written. -/
def localsPieces (tokens : List Token) : List Piece :=
  .mark SignatureKind.locals.code :: listPieces tokens

/-- Type signatures are written in normal form. -/
theorem normalizes_readType : readType.Normalizes encodeType typePieces := by
  have htakes : readType.Takes fun token taken =>
      Token.Fits (Token.maxDepth + 1) token ∧ List.Forall₂ Pads (typePieces token) taken := by
    refine (takes_expectKind .type).bind fun _ first hfirst => ?_
    subst hfirst
    exact (Token.takes_readWithin _).imp fun _ _ h => ⟨h.1, .cons (.mark _) h.2⟩
  refine htakes.normalizes (fun token h => ?_) fun token h => ?_
  · exact bind_eq_ok.mpr ⟨_, Token.encode_eq_join h.complete h.small.numbered, rfl⟩
  · obtain ⟨bytes, hbytes, hparses⟩ := parses_readType h.complete h.small (Nat.le_of_lt_succ h.nesting)
    exact ⟨_, hbytes, hparses⟩

/-- Function signatures are written in normal form. -/
theorem normalizes_readFunction : readFunction.Normalizes encodeFunction functionPieces := by
  have htakes : readFunction.Takes fun s taken =>
      ((s.returns.length ≤ 0xFF ∧ Readable s.returns) ∧ s.params.length ≤ 0xFF ∧ Readable s.params) ∧
        List.Forall₂ Pads (functionPieces s) taken := by
    refine (takes_expectKind .function).bind fun _ first hfirst => ?_
    subst hfirst
    refine Token.takes_readList.bind fun returns second hreturns => ?_
    refine Token.takes_readList.bind fun params third hparams => takes_pure ⟨⟨hreturns.1, hparams.1⟩, ?_⟩
    rw [List.append_nil]
    exact .cons (.mark _) (List.rel_append hreturns.2 hparams.2)
  refine htakes.normalizes (fun s h => ?_) fun s h => ?_
  · obtain ⟨⟨hlength, hreturns⟩, hlength', hparams⟩ := h
    refine bind_eq_ok.mpr ⟨_, Token.encodeList_eq_join hlength hreturns, bind_eq_ok.mpr
      ⟨_, Token.encodeList_eq_join hlength' hparams, ?_⟩⟩
    rw [functionPieces, Piece.join_cons, Piece.join_append]
    rfl
  · obtain ⟨bytes, hbytes, hparses⟩ := parses_readFunction h.1.1 h.2.1 h.1.2 h.2.2
    exact ⟨_, hbytes, hparses⟩

/-- Signatures of locals are written in normal form. -/
theorem normalizes_readLocals : readLocals.Normalizes encodeLocals localsPieces := by
  have htakes : readLocals.Takes fun tokens taken =>
      (tokens.length ≤ 0xFF ∧ Readable tokens) ∧ List.Forall₂ Pads (localsPieces tokens) taken := by
    refine (takes_expectKind .locals).bind fun _ first hfirst => ?_
    subst hfirst
    exact Token.takes_readList.imp fun _ _ h => ⟨h.1, .cons (.mark _) h.2⟩
  refine htakes.normalizes (fun tokens h => ?_) fun tokens h => ?_
  · exact bind_eq_ok.mpr ⟨_, Token.encodeList_eq_join h.1 h.2, rfl⟩
  · obtain ⟨bytes, hbytes, hparses⟩ := parses_readLocals h.1 h.2
    exact ⟨_, hbytes, hparses⟩

/-- Tokens, at any depth, and signatures of all kinds are read in normal form. -/
theorem read_normalizes :
    (∀ depth, (Token.read depth).Normalizes Token.encode Token.pieces) ∧
    readType.Normalizes encodeType typePieces ∧
    readFunction.Normalizes encodeFunction functionPieces ∧
    readLocals.Normalizes encodeLocals localsPieces :=
  ⟨Token.normalizes_read, normalizes_readType, normalizes_readFunction, normalizes_readLocals⟩

/-- A reference to struct 0 whose index is padded to two bytes, and a byte behind it. -/
def paddedSample : Cursor := ⟨#[0x05, 0x07, 0x80, 0x00, 0xFF], 0, 0, 5⟩

/-- The padded index is accepted, and writing what was read gives one byte less than was passed. -/
theorem paddedSample_normalizes :
    ∃ taken, paddedSample.Passes taken (paddedSample.moved 4) ∧
      (Token.reference false (.struct 0)).encode = .ok [0x05, 0x07, 0x00] ∧
      (Token.read 0).Parses [0x05, 0x07, 0x00] (.reference false (.struct 0)) ∧
      ¬ Piece.AllShortest taken := by
  have hrun : Runs (Token.read 0) paddedSample (.reference false (.struct 0)) (paddedSample.moved 4) := rfl
  have hwritten : (Token.reference false (.struct 0)).encode = .ok [0x05, 0x07, 0x00] := by decide +kernel
  obtain ⟨taken, hpasses, -, bytes, hbytes, -, hparses, hequal⟩ :=
    (read_normalizes.1 0).normal _ _ _ ⟨by decide, by decide⟩ hrun
  obtain rfl := Except.ok.inj (hwritten.symm.trans hbytes)
  refine ⟨taken, hpasses, hwritten, hparses, fun hshortest => ?_⟩
  have hposition := congrArg Cursor.position hpasses.2
  rw [← hequal.mpr hshortest] at hposition
  exact absurd hposition (by decide)

end Signature

end MoveBytecode
