import MoveBytecode.Proofs.Format.Description
import MoveBytecode.Proofs.Reading.Framing

/-!
# The framing laws of the records without code

The reader of each table yields a record from its bytes, wherever they stand. Tokens go by recursion, as
they are nested; all other records are their fields one behind the other.
-/

namespace MoveBytecode

open Format Reader

namespace Token

/-! ## Signatures -/

/-- Whether a token can be read where room is left: its numbers have 16 bits. -/
def Small (token : Token) : Prop := ∀ handle ∈ token.handles, 0 ≤ handle ∧ handle ≤ 0xFFFF

/-- A token is read as what was written, if there is room for all of its references. -/
theorem parses_readWithin {token : Token} {room : Nat} (hcomplete : token.isComplete = true)
    (hsmall : token.Small) (hroom : token.nesting < room) :
    ∃ bytes, token.encode = .ok bytes ∧ (readWithin room).Parses bytes token := by
  induction token generalizing room with
  | bool | integer | string | address | bytearray =>
    obtain ⟨room, rfl⟩ := Nat.exists_eq_add_of_lt hroom
    exact ⟨_, rfl, (parses_u8 _).bind_pure rfl⟩
  | reference mutable target ih =>
    obtain ⟨room, rfl⟩ : ∃ r, room = r + 1 := ⟨room - 1, by omega⟩
    -- Each reference takes one level, as in `nesting`.
    have hroom' : target.nesting < room := by
      simp only [nesting] at hroom
      omega
    obtain ⟨bytes, hbytes, hparses⟩ := ih hcomplete hsmall hroom'
    refine ⟨_, bind_eq_ok.mpr ⟨bytes, hbytes, rfl⟩, Parses.cons_u8 ?_⟩
    cases mutable with
    | false => exact hparses.bind_pure rfl
    | true => exact hparses.bind_pure rfl
  | anyReference mutable => simp [isComplete] at hcomplete
  | struct handle =>
    obtain ⟨room, rfl⟩ : ∃ r, room = r + 1 := ⟨room - 1, by omega⟩
    obtain ⟨h0, hle⟩ := hsmall handle List.mem_cons_self
    have hencode : encodeVarint handle = .ok (encodeUleb128 handle.toNat) := if_neg (by omega)
    have hnumber : varu16.Parses (encodeUleb128 handle.toNat) handle.toNat :=
      parses_varu16 (by omega)
    refine ⟨_, bind_eq_ok.mpr ⟨_, hencode, rfl⟩, Parses.cons_u8 ?_⟩
    refine hnumber.bind_pure ?_
    rw [Int.toNat_of_nonneg h0]
  | anyStruct => simp [isComplete] at hcomplete

/-- A token that can be read is what its bytes are parsed to. -/
theorem parses_read {token : Token} (hcomplete : token.isComplete = true) (hsmall : token.Small)
    (hnesting : token.nesting ≤ maxDepth) :
    ∃ bytes, token.encode = .ok bytes ∧ (read 0).Parses bytes token :=
  parses_readWithin hcomplete hsmall (Nat.lt_succ_of_le hnesting)

/-- Tokens that a signature can hold, all of them small. -/
def Readable (tokens : List Token) : Prop :=
  ∀ token ∈ tokens, token.isComplete = true ∧ token.Small ∧ token.nesting ≤ maxDepth

/-- Tokens that can be read are what their bytes, one after the other, are parsed to. -/
theorem parses_readMany {tokens : List Token} (h : Readable tokens) :
    ∃ bytes, tokens.mapM encode = .ok bytes ∧
      (readMany tokens.length).Parses bytes.flatten tokens := by
  induction tokens with
  | nil => exact ⟨[], rfl, parses_pure []⟩
  | cons token rest ih =>
    obtain ⟨hcomplete, hsmall, hnesting⟩ := h token List.mem_cons_self
    obtain ⟨first, hfirst, hparses⟩ := parses_read hcomplete hsmall hnesting
    obtain ⟨bytes, hbytes, hrest⟩ := ih fun t ht => h t (List.mem_cons_of_mem _ ht)
    refine ⟨first :: bytes, ?_, ?_⟩
    · rw [List.mapM_cons]
      exact bind_eq_ok.mpr ⟨first, hfirst, bind_eq_ok.mpr ⟨bytes, hbytes, rfl⟩⟩
    · rw [List.flatten_cons]
      exact hparses.bind (hrest.bind_pure rfl)

/-- A list of tokens is read as what was written. -/
theorem parses_readList {tokens : List Token} (hlength : tokens.length ≤ 0xFF)
    (h : Readable tokens) :
    ∃ bytes, encodeList tokens = .ok bytes ∧ readList.Parses bytes tokens := by
  obtain ⟨bytes, hbytes, hparses⟩ := parses_readMany h
  have hcount : (UInt8.ofNat tokens.length).toNat = tokens.length := by
    rw [UInt8.toNat_ofNat']
    omega
  refine ⟨UInt8.ofNat tokens.length :: bytes.flatten, ?_, Parses.cons_u8 ?_⟩
  · rw [encodeList, if_neg (by omega)]
    exact bind_eq_ok.mpr ⟨bytes, hbytes, rfl⟩
  · rwa [hcount]

end Token

namespace Signature

open Token (Readable)

/-- The byte of a kind of signatures is what is expected. -/
theorem parses_expectKind (kind : SignatureKind) : (expectKind kind).Parses [kind.code] () := by
  refine (parses_u8 _).bind_pure ?_
  rw [if_neg (by simp)]

/-- A type signature is what its bytes are parsed to. -/
theorem parses_readType {token : Token} (hcomplete : token.isComplete = true)
    (hsmall : token.Small) (hnesting : token.nesting ≤ Token.maxDepth) :
    ∃ bytes, encodeType token = .ok (SignatureKind.type.code :: bytes) ∧
      readType.Parses (SignatureKind.type.code :: bytes) token := by
  obtain ⟨bytes, hbytes, hparses⟩ := Token.parses_read hcomplete hsmall hnesting
  exact ⟨_, bind_eq_ok.mpr ⟨bytes, hbytes, rfl⟩, (parses_expectKind .type).bind hparses⟩

/-- A function signature is what its bytes are parsed to. -/
theorem parses_readFunction {s : FunctionSignature} (hreturns : s.returns.length ≤ 0xFF)
    (hparams : s.params.length ≤ 0xFF) (hr : Readable s.returns) (hp : Readable s.params) :
    ∃ bytes, encodeFunction s = .ok (SignatureKind.function.code :: bytes) ∧
      readFunction.Parses (SignatureKind.function.code :: bytes) s := by
  obtain ⟨returns, hreturns, hparsesReturns⟩ := Token.parses_readList hreturns hr
  obtain ⟨params, hparams, hparsesParams⟩ := Token.parses_readList hparams hp
  refine ⟨_, bind_eq_ok.mpr ⟨returns, hreturns, bind_eq_ok.mpr ⟨params, hparams, rfl⟩⟩, ?_⟩
  exact (parses_expectKind .function).bind (hparsesReturns.bind (hparsesParams.bind_pure rfl))

/-- A signature of locals is what its bytes are parsed to. -/
theorem parses_readLocals {tokens : List Token} (hlength : tokens.length ≤ 0xFF)
    (h : Readable tokens) :
    ∃ bytes, encodeLocals tokens = .ok (SignatureKind.locals.code :: bytes) ∧
      readLocals.Parses (SignatureKind.locals.code :: bytes) tokens := by
  obtain ⟨bytes, hbytes, hparses⟩ := Token.parses_readList hlength h
  exact ⟨_, bind_eq_ok.mpr ⟨bytes, hbytes, rfl⟩, (parses_expectKind .locals).bind hparses⟩

end Signature

/-! ## Records of numbers, and what has a length -/

namespace Table

/-- What has a length is read by it. -/
theorem parses_readLength {bytes : List UInt8} (h : bytes.length ≤ 0xFFFF) :
    readLength.Parses (encodeUleb128 bytes.length) bytes.length := by
  refine (parses_vari32 (by omega)).bind_pure ?_
  rw [if_neg (by simp only [maxEntryLength]; omega)]

/-- An address is what its bytes are parsed to. -/
theorem parses_readAddress {value : Bytes} (h : value.size = addressLength) :
    readAddress.Parses value.toList value := by
  have hbytes := parses_bytes value.toList
  rwa [Array.length_toList, h] at hbytes

/-- A byte array is what its length and its bytes are parsed to. -/
theorem parses_readBytearray {value : Bytes} (h : value.size ≤ 0xFFFF) :
    readBytearray.Parses (lengthPrefixed value.toList) value :=
  (parses_readLength h).bind (parses_bytes value.toList)

/-- The text of a UTF-8 form is the text that it was made from. -/
theorem decode_ofText (text : String) : Text.Utf8.decode (Bytes.ofText text) = .ok text := by
  have hutf8 : String.fromUTF8? text.toUTF8 = some text := by
    rw [String.fromUTF8?, String.toUTF8_eq_toByteArray, dif_pos text.isValidUTF8]
    rfl
  unfold Text.Utf8.decode
  split
  · rename_i read hread
    obtain rfl := Option.some.inj (hutf8.symm.trans hread)
    rfl
  · rename_i hnone
    exact absurd (hutf8.symm.trans hnone) (Option.some_ne_none _)

/-- A text is what the length and the bytes of its encoding are parsed to. -/
theorem parses_readString {text : String} (h : (Bytes.ofText text).size ≤ 0xFFFF) :
    readString.Parses (lengthPrefixed (Bytes.ofText text).toList) text := by
  refine (parses_readLength h).bind ((parses_bytes _).bind_pure ?_)
  simp only [Array.toArray_toList, decode_ofText]

variable {n₁ n₂ n₃ : Nat}

/-- A module handle is what its two indices are parsed to. -/
theorem parses_readModuleHandle (h₁ : n₁ ≤ 0xFFFF) (h₂ : n₂ ≤ 0xFFFF) :
    readModuleHandle.Parses (encodeUleb128 n₁ ++ encodeUleb128 n₂) ⟨n₁, n₂⟩ :=
  (parses_varu16 h₁).bind ((parses_varu16 h₂).bind_pure rfl)

/-- A struct handle is what its two indices and its flag are parsed to. -/
theorem parses_readStructHandle (h₁ : n₁ ≤ 0xFFFF) (h₂ : n₂ ≤ 0xFFFF) (isResource : Bool) :
    readStructHandle.Parses
      (encodeUleb128 n₁ ++ (encodeUleb128 n₂ ++ [if isResource then 1 else 0]))
      ⟨n₁, n₂, isResource⟩ := by
  refine (parses_varu16 h₁).bind ((parses_varu16 h₂).bind ((parses_u8 _).bind_pure ?_))
  cases isResource with
  | false => rfl
  | true => rfl

/-- Three numbers one behind the other. -/
theorem parses_three {α : Type} {make : Nat → Nat → Nat → α} (h₁ : n₁ ≤ 0xFFFF) (h₂ : n₂ ≤ 0xFFFF)
    (h₃ : n₃ ≤ 0xFFFF) :
    (do
      let a ← varu16
      let b ← varu16
      let c ← varu16
      return make a b c : Reader α).Parses
      (encodeUleb128 n₁ ++ (encodeUleb128 n₂ ++ encodeUleb128 n₃)) (make n₁ n₂ n₃) :=
  (parses_varu16 h₁).bind ((parses_varu16 h₂).bind ((parses_varu16 h₃).bind_pure rfl))

/-- The reader of the records of a table. -/
def reader (m : Module) : (kind : TableKind) → Reader (Contents FunctionDef kind)
  | .moduleHandles => readModuleHandle
  | .structHandles => readStructHandle
  | .functionHandles => readFunctionHandle
  | .addressPool => readAddress
  | .bytearrayPool => readBytearray
  | .stringPool => readString
  | .structDefs => readStructDef
  | .fieldDefs => readFieldDef
  | .typeSignatures => Signature.readType
  | .functionSignatures => Signature.readFunction
  | .localSignatures => Signature.readLocals
  | .functionDefs | .main => readFunction m

end Table

namespace Format.Description

variable {d : Description}

/-- A token that a description admits and whose numbers fit. -/
theorem AdmitsToken.small {token : Token} (h : d.AdmitsToken token)
    (hfits : ∀ n ∈ token.handles.map Int.toNat, n ≤ 0xFFFF) : token.Small := by
  intro handle hhandle
  obtain ⟨h0, -⟩ := h.handles handle hhandle
  have := hfits _ (List.mem_map_of_mem hhandle)
  exact ⟨h0, by omega⟩

/-- Tokens that a description admits can be read if the handles that they name fit into two bytes. -/
theorem AdmitsTokens.readable {tokens : List Token} (h : d.AdmitsTokens tokens)
    (hfits : ∀ n ∈ tokens.flatMap fun token => token.handles.map Int.toNat, n ≤ 0xFFFF) :
    Token.Readable tokens := by
  intro token htoken
  have hadmits := h.token token htoken
  exact ⟨hadmits.complete, hadmits.small fun n hn => hfits n (List.mem_flatMap.mpr ⟨token, htoken, hn⟩),
    hadmits.nesting⟩

/-- A record without code is read from its bytes, of which it has at least one. -/
theorem parses_recordBytes (m : Module) (start : Nat) {kind : TableKind}
    (hkind : kind.holdsCode = false) {item : Contents Procedure kind} (h : d.Admits kind item)
    (hfits : ∀ n ∈ numbers kind item, n ≤ 0xFFFF) :
    (Table.reader m kind).Parses (recordBytes kind item) (d.record start kind item) ∧
      recordBytes kind item ≠ [] := by
  -- Records that start with a number have at least one byte, which ends the loop over the table.
  have number : ∀ {n : Nat} {rest : List UInt8}, encodeUleb128 n ++ rest ≠ [] := by
    simp [encodeUleb128_ne_nil]
  cases kind with
  | moduleHandles =>
    exact ⟨Table.parses_readModuleHandle (hfits _ (by simp [numbers])) (hfits _ (by simp [numbers])),
      number⟩
  | structHandles =>
    exact ⟨Table.parses_readStructHandle (hfits _ (by simp [numbers])) (hfits _ (by simp [numbers])) _,
      number⟩
  | functionHandles | structDefs | fieldDefs =>
    exact ⟨Table.parses_three (hfits _ (by simp [numbers])) (hfits _ (by simp [numbers]))
      (hfits _ (by simp [numbers])), number⟩
  | addressPool =>
    refine ⟨Table.parses_readAddress h, fun hnil => ?_⟩
    have hsize : (Array.toList item).length = Table.addressLength := h
    simp [show Array.toList item = [] from hnil, Table.addressLength] at hsize
  | bytearrayPool => exact ⟨Table.parses_readBytearray h, number⟩
  | stringPool => exact ⟨Table.parses_readString h, number⟩
  | typeSignatures =>
    obtain ⟨bytes, hbytes, hparses⟩ :=
      Signature.parses_readType h.complete (h.small hfits) h.nesting
    simp only [recordBytes, hbytes]
    exact ⟨hparses, List.cons_ne_nil _ _⟩
  | functionSignatures =>
    obtain ⟨hreturns, hparams⟩ := h
    simp only [numbers, List.flatMap_append, List.forall_mem_append] at hfits
    obtain ⟨bytes, hbytes, hparses⟩ := Signature.parses_readFunction hreturns.length hparams.length
      (hreturns.readable hfits.1) (hparams.readable hfits.2)
    simp only [recordBytes, hbytes]
    exact ⟨hparses, List.cons_ne_nil _ _⟩
  | localSignatures =>
    obtain ⟨bytes, hbytes, hparses⟩ := Signature.parses_readLocals h.length (h.readable hfits)
    simp only [recordBytes, hbytes]
    exact ⟨hparses, List.cons_ne_nil _ _⟩
  | functionDefs | main => simp [TableKind.holdsCode] at hkind

end Format.Description

end MoveBytecode
