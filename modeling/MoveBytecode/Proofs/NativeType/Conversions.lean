import MoveBytecode.Proofs.Format.Assembly
import MoveBytecode.Proofs.Lift.Types

/-!
# Conversions one after the other

A registry is shared by all conversions of tokens to native types, and each of them may enter structures
under names that come from a file. Such a name has an underscore, which none of the names that a registry
starts with has (`TypeRegistry.Prepared`). So what a token is converted to does not depend on the
registry, apart from its width of references: it is `Typing.nativeOf`, whatever was converted before.
-/

namespace MoveBytecode

/-! ## The registry to start with -/

namespace TypeRegistry

/-- The type of a byte. -/
def byteType : NativeType := .aliased "byte" (.primitive "unsigned char" 8 "unsigned")

/-- The types that a registry with the Move types starts with, the last first. -/
def basicTypes (width : Int) : List (String × NativeType) :=
  [("string", .aliased "string" (.reference width byteType)),
    ("bytearray", .aliased "bytearray" (.reference width byteType)), ("byte", byteType),
    ("address", .primitive "address" 256 "unsigned"), ("u64", .primitive "u64" 64 "unsigned"),
    ("bool", .primitive "bool" 64 "boolean"), ("void", .void),
    ("unsigned char", .primitive "unsigned char" 8 "unsigned")]

/-- A starred name that is free stands for a reference. -/
theorem get?_byteReference {r : TypeRegistry} {type : NativeType} (hfree : r.find? "byte*" = none)
    (hbyte : r.find? "byte" = some type) : r.get? "byte*" = some (r.referenceTo type) := by
  have hchars : "byte*".toList.reverse = ['*', 'e', 't', 'y', 'b'] := by decide
  have hname : String.ofList ['*', 'e', 't', 'y', 'b'].reverse = "byte*" := by decide
  have hrest : Text.dropBlank ['e', 't', 'y', 'b'] = "byte".toList.reverse := by decide +kernel
  have hget : r.getBackwards "byte".toList.reverse = some type := get?_eq_of_find? hbyte
  rw [get?, hchars, getBackwards, hname, hfree]
  simp only [hrest, hget, Option.map_some]

/-- An alias of a type that is there is entered for it. -/
theorem aliasIfKnown_of_get? {r : TypeRegistry} {name existing : String} {type : NativeType}
    (h : r.get? existing = some type) :
    r.aliasIfKnown name existing = r.insert (.aliased name type) := by
  rw [aliasIfKnown, h]

/-- A new registry with the Move types has the basic types and no others. -/
theorem withMoveTypes_new (width : Int) :
    (new width).withMoveTypes = ⟨width, basicTypes width⟩ := by
  have haddress : (new width).contains "address" = false := rfl
  -- The aliases are entered one after the other, each for a type that was entered before.
  have hbyte : (⟨width, (basicTypes width).drop 3⟩ : TypeRegistry).aliasIfKnown "byte"
      "unsigned char" = ⟨width, (basicTypes width).drop 2⟩ :=
    aliasIfKnown_of_get? (get?_eq_of_find? rfl)
  have hbytearray : (⟨width, (basicTypes width).drop 2⟩ : TypeRegistry).aliasIfKnown "bytearray"
      "byte*" = ⟨width, (basicTypes width).drop 1⟩ :=
    aliasIfKnown_of_get? (get?_byteReference rfl rfl)
  have hstring : (⟨width, (basicTypes width).drop 1⟩ : TypeRegistry).aliasIfKnown "string"
      "byte*" = ⟨width, basicTypes width⟩ :=
    aliasIfKnown_of_get? (get?_byteReference rfl rfl)
  rw [withMoveTypes, haddress, ← hstring, ← hbytearray, ← hbyte]
  rfl

/-- A registry with the Move types in which only structures with an underscore in their names were
entered. -/
structure Prepared (width : Int) (r : TypeRegistry) : Prop where
  pointerBits : r.pointerBits = width
  basic : ∀ name, '_' ∉ name.toList → r.find? name = (basicTypes width).lookup name
  structs : ∀ name type, '_' ∈ name.toList → r.find? name = some type → type = .struct name

/-- No type to start with has an underscore in its name. -/
theorem not_mem_of_basicTypes {width : Int} {p : String × NativeType} (h : p ∈ basicTypes width) :
    '_' ∉ p.1.toList := by
  have hname : p.1 ∈ ["string", "bytearray", "byte", "address", "u64", "bool", "void",
      "unsigned char"] := List.mem_map_of_mem (f := Prod.fst) h
  revert hname
  exact (by decide : ∀ name ∈ ["string", "bytearray", "byte", "address", "u64", "bool", "void",
    "unsigned char"], '_' ∉ name.toList) p.1

/-- A new registry with the Move types is prepared. -/
theorem prepared_new (width : Int) : (new width).withMoveTypes.Prepared width := by
  rw [withMoveTypes_new]
  refine ⟨rfl, fun _ _ => rfl, fun name type hname htype => ?_⟩
  obtain ⟨front, back, hsplit, -⟩ := List.lookup_eq_some_iff.mp htype
  have hmem : (name, type) ∈ basicTypes width := by
    have hnamed : basicTypes width = front ++ (name, type) :: back := hsplit
    rw [hnamed]
    exact List.mem_append_right _ List.mem_cons_self
  exact absurd hname (not_mem_of_basicTypes hmem)

namespace Prepared

variable {width : Int} {r : TypeRegistry}

/-- The types to start with keep their names. -/
theorem find?_eq (h : r.Prepared width) {p : String × NativeType} (hp : p ∈ basicTypes width) :
    r.find? p.1 = some p.2 := by
  rw [h.basic p.1 (not_mem_of_basicTypes hp)]
  simp only [basicTypes, List.mem_cons, List.not_mem_nil, or_false] at hp
  rcases hp with rfl | rfl | rfl | rfl | rfl | rfl | rfl | rfl <;> rfl

/-- A prepared registry has every basic type under its name. -/
theorem get?_eq (h : r.Prepared width) {p : String × NativeType} (hp : p ∈ basicTypes width) :
    r.get? p.1 = some p.2 :=
  get?_eq_of_find? (h.find?_eq hp)

/-- A registry with the Move types is not given them again. -/
theorem withMoveTypes_eq (h : r.Prepared width) : r.withMoveTypes = r := by
  have haddress : r.find? "address" = some (.primitive "address" 256 "unsigned") :=
    h.find?_eq (p := ("address", _)) (by simp [basicTypes])
  rw [withMoveTypes, if_pos]
  rw [contains, haddress]
  rfl

/-- A name with an underscore stands for a structure, new or not. -/
theorem namedStructure (h : r.Prepared width) {name : String} (hname : '_' ∈ name.toList) :
    (r.namedStructure name).1 = .struct name ∧ (r.namedStructure name).2.Prepared width := by
  unfold TypeRegistry.namedStructure
  cases hfound : r.find? name with
  | some type => exact ⟨h.structs name type hname hfound, h⟩
  | none =>
    refine ⟨rfl, h.pointerBits, fun other hother => ?_, fun other type hother htype => ?_⟩
    · rw [addStruct, find?_insert, if_neg, h.basic other hother]
      rintro rfl
      exact hother hname
    · rw [addStruct, find?_insert] at htype
      split at htype
      · rename_i heq
        rw [← Option.some.inj htype, heq]
        rfl
      · exact h.structs other type hother htype

end Prepared

end TypeRegistry

open TypeRegistry (basicTypes byteType)

/-- The name of a struct outside its module has an underscore. -/
theorem Module.underscore_mem_of_structHostName {m : Module} {handle : Int} {name : String}
    (h : m.structHostName handle = .ok name) : '_' ∈ name.toList := by
  obtain ⟨e, -, h⟩ := bind_eq_ok.mp h
  obtain ⟨full, hfull, h⟩ := bind_eq_ok.mp h
  obtain rfl := pure_eq_ok.mp h
  obtain ⟨owner, -, hfull⟩ := bind_eq_ok.mp hfull
  obtain ⟨own, -, hfull⟩ := bind_eq_ok.mp hfull
  obtain ⟨ownerName, -, hfull⟩ := bind_eq_ok.mp hfull
  obtain rfl := pure_eq_ok.mp hfull
  -- The sign between the names of the struct and of its module becomes one.
  have hsign : '@' ∈ (own ++ "@" ++ ownerName).toList := by simp
  rw [String.toList_map]
  exact List.mem_map_of_mem (f := Module.hostChar) hsign

/-- Whether the values of a token are numbers themselves, and not references to where something is. -/
def Token.isNumber : Token → Bool
  | .bool | .integer | .address => true
  | _ => false

namespace Typing

/-- The native type of a token where references have `width` bits. -/
def nativeOf (m : Module) (width : Int) : Token → Except Fault NativeType
  | .bool => .ok (.primitive "bool" 64 "boolean")
  | .integer => .ok (.primitive "u64" 64 "unsigned")
  | .string => .ok (.aliased "string" (.reference width byteType))
  | .address => .ok (.primitive "address" 256 "unsigned")
  | .bytearray => .ok (.aliased "bytearray" (.reference width byteType))
  | .struct handle => do return .reference width (.struct (← m.structHostName handle))
  | .anyStruct => .error .handleNotGiven
  | .reference _ target => do return .reference width (← nativeOf m width target)
  | .anyReference _ => .ok (.reference width .void)

variable {m : Module} {width : Int} {r : TypeRegistry}

/-- A prepared registry gives every basic type for its name, and stays as it is. -/
theorem outcome_moveType (h : r.Prepared width) {p : String × NativeType}
    (hp : p ∈ basicTypes width) : outcome (moveType p.1) r = (.ok p.2, r) := by
  rw [moveType, outcome_bind, outcome_get]
  simp only [h.get?_eq hp]
  exact outcome_pure _ _

/-- A prepared registry gives the structure of a handle, whatever was converted before, and stays
prepared. -/
theorem outcome_structureOf (h : r.Prepared width) (m : Module) (handle : Int) : ∃ r',
    outcome (structureOf m handle) r =
      ((do return .struct (← m.structHostName handle) : Except Fault NativeType), r') ∧
      r'.Prepared width := by
  unfold structureOf
  cases hname : m.structHostName handle with
  | error fault => exact ⟨r, outcome_throw _ _, h⟩
  | ok name =>
    obtain ⟨htype, hr⟩ := h.namedStructure (m.underscore_mem_of_structHostName hname)
    exact ⟨_, Prod.ext (congrArg Except.ok htype) rfl, hr⟩

/-- A reference behind a conversion is as wide as the registry says. -/
theorem outcome_referenceTo {x : TypeM NativeType} {result : Except Fault NativeType}
    {r' : TypeRegistry} (hx : outcome x r = (result, r')) (h : r'.Prepared width) :
    outcome (do let type ← x; return (← get).referenceTo type) r =
      ((do return .reference width (← result)), r') := by
  rw [outcome_bind, hx]
  cases result with
  | error fault => rfl
  | ok type => rw [← h.pointerBits]; rfl

/-- What a token is converted to, or why it cannot be, does not depend on the registry. -/
theorem outcome_typeOf (h : r.Prepared width) (m : Module) (token : Token) : ∃ r',
    outcome (typeOf m token) r = (nativeOf m width token, r') ∧ r'.Prepared width := by
  induction token with
  | bool => exact ⟨r, outcome_moveType h (p := ("bool", _)) (by simp [basicTypes]), h⟩
  | integer => exact ⟨r, outcome_moveType h (p := ("u64", _)) (by simp [basicTypes]), h⟩
  | string => exact ⟨r, outcome_moveType h (p := ("string", _)) (by simp [basicTypes]), h⟩
  | address => exact ⟨r, outcome_moveType h (p := ("address", _)) (by simp [basicTypes]), h⟩
  | bytearray => exact ⟨r, outcome_moveType h (p := ("bytearray", _)) (by simp [basicTypes]), h⟩
  | struct handle =>
    obtain ⟨r', hrun, hr'⟩ := outcome_structureOf h m handle
    refine ⟨r', (outcome_referenceTo hrun hr').trans ?_, hr'⟩
    rw [nativeOf]
    cases m.structHostName handle <;> rfl
  | anyStruct => exact ⟨r, outcome_throw _ _, h⟩
  | reference mutable target ih =>
    obtain ⟨r', hrun, hr'⟩ := ih
    exact ⟨r', outcome_referenceTo hrun hr', hr'⟩
  | anyReference mutable =>
    refine ⟨r, ?_, h⟩
    rw [nativeOf, ← h.pointerBits]
    rfl

/-! ## Histories -/

/-- The registry behind conversions one after the other, however each of them ends. -/
def after (earlier : List (Module × Token)) (r : TypeRegistry) : TypeRegistry :=
  earlier.foldl (fun r conversion => (outcome (typeOf conversion.1 conversion.2) r).2) r

/-- Conversions keep a registry as it was prepared. -/
theorem prepared_after (h : r.Prepared width) (earlier : List (Module × Token)) :
    (after earlier r).Prepared width := by
  induction earlier generalizing r with
  | nil => exact h
  | cons conversion rest ih =>
    obtain ⟨r', hrun, hr'⟩ := outcome_typeOf h conversion.1 conversion.2
    rw [after, List.foldl_cons, hrun]
    exact ih hr'

/-! ## Tokens of a module -/

/-- A token that a closed module knows has a native type. -/
theorem answers_nativeOf (hm : m.Closed) {token : Token} (h : m.Knows token) :
    Answers (nativeOf m width token) := by
  induction token with
  | bool | integer | string | address | bytearray | anyReference mutable => exact answers_ok _
  | struct handle => exact (hm.structHostName h).bind fun _ _ => answers_pure _
  | anyStruct => exact absurd h id
  | reference mutable target ih => exact (ih h).bind fun _ _ => answers_pure _

/-- A number is as wide as its token says, and all else as wide as a reference. -/
theorem bits_nativeOf {token : Token} {type : NativeType} (h : nativeOf m width token = .ok type) :
    type.bits = if token.isNumber then (token.bits : Int) else width := by
  cases token with
  | bool | integer | string | address | bytearray | anyReference mutable =>
    obtain rfl := Except.ok.inj h
    rfl
  | struct handle | reference mutable target =>
    obtain ⟨target, -, h⟩ := bind_eq_ok.mp h
    obtain rfl := pure_eq_ok.mp h
    rfl
  | anyStruct => simp [nativeOf] at h

end Typing

namespace Module

/-- The tokens that a module deals in: those of its signatures and what they refer to, those of the values
that its instructions make, and references to all of these. -/
inductive Meets (m : Module) : Token → Prop
  | signature {token : Token} : token ∈ m.signatureTokens → m.Meets token
  | target {mutable : Bool} {token : Token} : m.Meets (.reference mutable token) → m.Meets token
  | reference (mutable : Bool) {token : Token} : m.Meets token → m.Meets (.reference mutable token)
  | struct {d : StructDef} : d ∈ m.structDefs.records → m.Meets (.struct d.handle)
  | anyReference (mutable : Bool) : m.Meets (.anyReference mutable)
  | bool : m.Meets .bool
  | integer : m.Meets .integer
  | string : m.Meets .string
  | address : m.Meets .address
  | bytearray : m.Meets .bytearray

/-- The conversion of a token to `type` behind those in `earlier`, on a registry whose references have
`width` bits. -/
structure ConvertsAfter (m : Module) (token : Token) (width : Int) (earlier : List (Module × Token))
    (type : NativeType) : Prop where
  native : Typing.nativeOf m width token = .ok type
  /-- The type is the one on a new registry. -/
  fresh : (outcome (Typing.typeOf m token) (TypeRegistry.new width).withMoveTypes).1 = .ok type
  /-- It is the one behind the earlier conversions as well. -/
  later : (outcome (Typing.typeOf m token)
    (Typing.after earlier (TypeRegistry.new width).withMoveTypes)).1 = .ok type
  /-- It is as wide as the token says, if references are as wide as tokens take them to be. -/
  bits : width = 64 → type.bits = token.bits
  bits_eq : type.bits = if token.isNumber then (token.bits : Int) else width
  /-- The names of the types to start with still stand for these. -/
  names : ∀ p ∈ basicTypes width,
    (Typing.after earlier (TypeRegistry.new width).withMoveTypes).get? p.1 = some p.2
  /-- Entering the Move types once more changes nothing. -/
  again : (Typing.after earlier (TypeRegistry.new width).withMoveTypes).withMoveTypes =
    Typing.after earlier (TypeRegistry.new width).withMoveTypes

variable {config : Config} {data : Bytes} {m : Module}

/-- On the registry of a new host, whose references have 64 bits, a token is converted to a type that is
exactly as wide as the token says. -/
theorem ConvertsAfter.bits_eq_bits {token : Token} {earlier : List (Module × Token)} {type : NativeType}
    (h : m.ConvertsAfter token 64 earlier type) : type.bits = token.bits :=
  h.bits rfl

/-- A loaded module knows the tokens of its signatures. -/
theorem Loads.knows_of_mem_signatureTokens (h : Loads config data m) {token : Token}
    (ht : token ∈ m.signatureTokens) : m.Knows token := by
  rcases List.mem_append.mp ht with ht | ht
  · exact h.knowsAll.types token ht
  rcases List.mem_append.mp ht with ht | ht
  · obtain ⟨e, he, ht⟩ := List.mem_flatMap.mp ht
    obtain ⟨hreturns, hparams⟩ := h.knowsAll.functions e.record (List.mem_map_of_mem he)
    exact (List.mem_append.mp ht).elim (hreturns token) (hparams token)
  · obtain ⟨e, he, ht⟩ := List.mem_flatMap.mp ht
    exact h.knowsAll.locals e.record (List.mem_map_of_mem he) token ht

/-- A loaded module knows what its tokens stand for. -/
theorem Loads.knows_of_meets (h : Loads config data m) {token : Token} (ht : m.Meets token) :
    m.Knows token := by
  induction ht with
  | signature hmem => exact h.knows_of_mem_signatureTokens hmem
  | target _ ih => exact ih
  | reference mutable _ ih => exact ih
  | struct hd =>
    have hhandle := (h.decoded.1.closed.structDefs _ hd).1
    exact ⟨Int.natCast_nonneg _, by exact_mod_cast hhandle⟩
  | anyReference | bool | integer | string | address | bytearray => trivial

/-- Every token that a loaded module deals in is converted, to the same type whatever was converted
before. -/
theorem loaded_convertsAfter (h : Loads config data m) {token : Token} (ht : m.Meets token)
    (width : Int) (earlier : List (Module × Token)) :
    ∃ type, m.ConvertsAfter token width earlier type := by
  have hfresh := TypeRegistry.prepared_new width
  have hlater := Typing.prepared_after hfresh earlier
  obtain ⟨type, htype⟩ : Answers (Typing.nativeOf m width token) :=
    Typing.answers_nativeOf h.decoded.1.closed (h.knows_of_meets ht)
  obtain ⟨_, hrun, -⟩ := Typing.outcome_typeOf hfresh m token
  obtain ⟨_, hrun', -⟩ := Typing.outcome_typeOf hlater m token
  have hbits := Typing.bits_nativeOf htype
  refine ⟨type, htype, by rw [hrun, htype], by rw [hrun', htype], ?_, hbits,
    fun p hp => hlater.get?_eq hp, hlater.withMoveTypes_eq⟩
  rintro rfl
  rw [hbits]
  cases token <;> rfl

/-- A library that defines a struct `address` in a module without a name, and a function that takes a
reference to one. -/
def namesakeSample : Bytes :=
  Format.assemble .libra [
    ⟨.moduleHandles, [0, 0]⟩, ⟨.structHandles, [0, 1, 0]⟩, ⟨.functionHandles, [0, 2, 0]⟩,
    ⟨.addressPool, List.replicate 32 0⟩,
    ⟨.stringPool, [0, 7, 0x61, 0x64, 0x64, 0x72, 0x65, 0x73, 0x73, 1, 0x66]⟩,
    ⟨.structDefs, [0, 0, 0]⟩, ⟨.functionSignatures, [2, 0, 1, 6, 7, 0]⟩, ⟨.localSignatures, [3, 1, 6, 7, 0]⟩,
    ⟨.functionDefs, [0, 0, 0, 0, 1, 0, 0x02]⟩]

/-- A reference to the struct of the sample is converted behind conversions of the struct, of an address,
and of a struct that there is not. -/
theorem namesakeSample_convertsAfter : ∃ m, load .standard namesakeSample = .ok m ∧
    m.ConvertsAfter (.reference true (.struct 0)) 64 [(m, .struct 0), (m, .address), (m, .struct 7)]
      (.reference 64 (.reference 64 (.struct ("address_0x" ++ "".pushn '0' 64 ++ "_")))) := by
  have check : (load .standard namesakeSample).toOption.any (fun m => decide
      (.reference true (.struct 0) ∈ m.signatureTokens ∧
        (Typing.nativeOf m 64 (.reference true (.struct 0))).toOption = some
          (.reference 64 (.reference 64 (.struct ("address_0x" ++ "".pushn '0' 64 ++ "_")))))) =
      true := by
    decide +kernel
  obtain ⟨m, hload, hcheck⟩ := exists_of_any_toOption check
  obtain ⟨hmem, hnative⟩ := of_decide_eq_true hcheck
  obtain ⟨type, htype⟩ := loaded_convertsAfter (.inl hload) (.signature hmem) 64
    [(m, .struct 0), (m, .address), (m, .struct 7)]
  obtain rfl := Except.ok.inj (htype.native.symm.trans (toOption_eq_some.mp hnative))
  exact ⟨m, hload, htype⟩

end Module

end MoveBytecode
