import MoveBytecode.Proofs.Lift.Orderly
import MoveBytecode.Proofs.Loading.Signatures

/-!
# The types of a lift

A lift gives every token a native type and enters the structures that it meets into the registry, under
names that are free (`TypeRegistry.Grows`). So the Move types stay what they are
(`TypeRegistry.Standard`), and a token of the module has a type that is as wide as the token says
(`Typing.ends_typeOf`).
-/

namespace MoveBytecode

/-! ## Widths -/

/-- The widths of values: an address has 256 bits, and all else fits in 64. -/
def IsWidth (bits : Int) : Prop := bits ≤ 64 ∨ bits = 256

/-- The values of a token have one of the widths. -/
theorem isWidth_bits (token : Token) : IsWidth token.bits := by
  cases token with
  | address => exact .inr rfl
  | _ => exact .inl (Int.le_refl 64)

namespace NativeType

/-- A type whose values, and those that it leads to, have one of the widths. -/
def Sized : NativeType → Prop
  | .void | .struct _ => True
  | .primitive _ bits _ => IsWidth bits
  | .aliased _ target => target.Sized
  | .reference bits target => IsWidth bits ∧ target.Sized

/-- A sized type has values of one of the widths. -/
theorem Sized.isWidth {type : NativeType} (h : type.Sized) : IsWidth type.bits := by
  induction type with
  | void => exact .inl (by decide)
  | primitive name bits primitiveClass => exact h
  | aliased name target ih => exact ih h
  | struct name => exact .inl (Int.le_of_lt (by decide : (0 : Int) < 64))
  | reference bits target => exact h.1

/-- What a sized type leads to is sized. -/
theorem Sized.of_pointed? {type target : NativeType} (h : type.Sized)
    (htarget : type.pointed? = some target) : target.Sized := by
  cases type with
  | reference bits pointed =>
    obtain rfl : pointed = target := Option.some.inj htarget
    exact h.2
  | _ => simp [pointed?] at htarget

end NativeType

/-! ## Registries -/

namespace TypeRegistry

/-- A registry to which structures have been added under free names. -/
structure Grows (r r' : TypeRegistry) : Prop where
  pointerBits : r'.pointerBits = r.pointerBits
  kept : ∀ name type, r.find? name = some type → r'.find? name = some type
  added : ∀ name type, r'.find? name = some type → r.find? name = some type ∨ type = .struct name

/-- A registry to which nothing was added has grown, if only trivially. -/
theorem Grows.refl (r : TypeRegistry) : r.Grows r := ⟨rfl, fun _ _ h => h, fun _ _ h => .inl h⟩

/-- Growing goes on from one registry to the next. -/
theorem Grows.trans {r s t : TypeRegistry} (h : r.Grows s) (k : s.Grows t) : r.Grows t := by
  refine ⟨k.pointerBits.trans h.pointerBits, fun name type hr => k.kept _ _ (h.kept _ _ hr), ?_⟩
  intro name type ht
  rcases k.added name type ht with hs | hstruct
  · exact h.added name type hs
  · exact .inr hstruct

/-- A type that is inserted is found under its name, and all other names lead where they did. -/
theorem find?_insert (r : TypeRegistry) (type : NativeType) (name : String) :
    (r.insert type).find? name = if name = type.name then some type else r.find? name := by
  unfold insert find?
  rw [List.lookup_cons]
  by_cases h : name = type.name
  · simp [h]
  · simp [h, beq_eq_false_iff_ne.mpr h]

/-- Looking up a structure by name grows the registry at most. -/
theorem grows_namedStructure (r : TypeRegistry) (name : String) :
    r.Grows (r.namedStructure name).2 := by
  unfold namedStructure
  split
  · exact .refl r
  · rename_i hfree
    refine ⟨rfl, fun other type h => ?_, fun other type h => ?_⟩
    · rw [addStruct, find?_insert, if_neg]
      · exact h
      · rintro rfl
        exact absurd (hfree.symm.trans h) (by simp)
    · rw [addStruct, find?_insert] at h
      split at h
      · rename_i heq
        obtain rfl := Option.some.inj h
        exact .inr (by rw [heq]; rfl)
      · exact .inl h

/-- The names of the Move types that tokens stand for, with the widths of their values. -/
def moveWidths : List (String × Int) :=
  [("bool", 64), ("u64", 64), ("string", 64), ("address", 256), ("bytearray", 64)]

/-- A registry that has the Move types, and no type with values of another width. -/
structure Standard (r : TypeRegistry) : Prop where
  pointerBits : r.pointerBits = 64
  move : ∀ p ∈ moveWidths, (r.find? p.1).map NativeType.bits = some p.2
  sized : ∀ name type, r.find? name = some type → type.Sized

/-- A registry that has grown still has the Move types. -/
theorem Standard.of_grows {r r' : TypeRegistry} (h : r.Standard) (k : r.Grows r') :
    r'.Standard where
  pointerBits := k.pointerBits.trans h.pointerBits
  move p hp := by
    obtain ⟨type, htype, hbits⟩ := Option.map_eq_some_iff.mp (h.move p hp)
    rw [k.kept _ _ htype, Option.map_some, hbits]
  sized name type htype := by
    rcases k.added name type htype with htype | rfl
    · exact h.sized name type htype
    · trivial

/-- A registry that has the Move types is not given them again. -/
theorem Standard.withMoveTypes_eq {r : TypeRegistry} (h : r.Standard) : r.withMoveTypes = r := by
  obtain ⟨type, htype, -⟩ := Option.map_eq_some_iff.mp (h.move ("address", 256) (by decide))
  rw [withMoveTypes, if_pos]
  rw [contains, htype]
  rfl

/-- A type that is found under a name is the one of the name. -/
theorem get?_eq_of_find? {r : TypeRegistry} {name : String} {type : NativeType}
    (h : r.find? name = some type) : r.get? name = some type := by
  unfold get? getBackwards
  rw [List.reverse_reverse, String.ofList_toList, h]

/-- The registry of a new host, once it has the Move types. -/
theorem standard_new : (TypeRegistry.new 64).withMoveTypes.Standard := by
  refine ⟨by decide +kernel, by decide +kernel, fun name type htype => ?_⟩
  have hnamed : (TypeRegistry.new 64).withMoveTypes.named.map Prod.snd = [
      .aliased "string" (.reference 64 (.aliased "byte" (.primitive "unsigned char" 8 "unsigned"))),
      .aliased "bytearray" (.reference 64 (.aliased "byte" (.primitive "unsigned char" 8 "unsigned"))),
      .aliased "byte" (.primitive "unsigned char" 8 "unsigned"), .primitive "address" 256 "unsigned",
      .primitive "u64" 64 "unsigned", .primitive "bool" 64 "boolean", .void,
      .primitive "unsigned char" 8 "unsigned"] := by
    decide +kernel
  have hsized : ∀ type ∈ (TypeRegistry.new 64).withMoveTypes.named.map Prod.snd, type.Sized := by
    rw [hnamed]
    simp [NativeType.Sized, IsWidth]
  obtain ⟨front, back, hsplit, -⟩ := List.lookup_eq_some_iff.mp htype
  refine hsized type ?_
  rw [hsplit, List.map_append]
  exact List.mem_append_right _ List.mem_cons_self

end TypeRegistry

/-! ## Tokens -/

namespace Typing

/-- Whatever token is given a type, the registry only gets structures of new names. -/
theorem grows_typeOf (m : Module) (token : Token) (r : TypeRegistry) :
    r.Grows (outcome (typeOf m token) r).2 := by
  suffices h : Preserves r.Grows (typeOf m token) from h r (.refl r)
  have named (name : String) : Preserves r.Grows (moveType name) := by
    refine preserves_get.bind fun s => ?_
    split
    · exact preserves_pure _
    · exact preserves_throw _
  induction token with
  | bool | integer | string | address | bytearray => exact named _
  | struct handle =>
    refine Preserves.bind ?_ fun _ => preserves_get.bind fun _ => preserves_pure _
    unfold structureOf
    split
    · exact preserves_throw _
    · intro s hs
      exact hs.trans (TypeRegistry.grows_namedStructure s _)
  | anyStruct => exact preserves_throw _
  | reference mutable target ih =>
    exact ih.bind fun _ => preserves_get.bind fun _ => preserves_pure _
  | anyReference mutable => exact preserves_get.bind fun _ => preserves_pure _

/-- Converting tokens to types grows the registry at most. -/
theorem grows_typesOf (m : Module) (tokens : List Token) (r : TypeRegistry) :
    r.Grows (outcome (typesOf m tokens) r).2 :=
  preserves_mapM (fun token _ h => h.trans (grows_typeOf m token _)) tokens r (.refl r)

/-- Making a prototype grows the registry at most. -/
theorem grows_prototypeOf (m : Module) (s : FunctionSignature) (r : TypeRegistry) :
    r.Grows (outcome (prototypeOf m s) r).2 := by
  have types (tokens : List Token) : Preserves r.Grows (typesOf m tokens) :=
    fun _ h => h.trans (grows_typesOf m tokens _)
  have h : Preserves r.Grows (prototypeOf m s) :=
    (types _).bind fun _ => (types _).bind fun _ => preserves_pure _
  exact h r (.refl r)

variable {m : Module} {r : TypeRegistry}

/-- A Move type is found in a registry that has them, with its width. -/
theorem ends_moveType (hr : r.Standard) {name : String} {bits : Int}
    (h : (name, bits) ∈ TypeRegistry.moveWidths) :
    Ends (moveType name) r fun type r' => r'.Standard ∧ type.bits = bits ∧ type.Sized := by
  obtain ⟨type, htype, hbits⟩ := Option.map_eq_some_iff.mp (hr.move (name, bits) h)
  refine (ends_get (Q := fun s t => r = s ∧ r = t) ⟨rfl, rfl⟩).bind ?_
  rintro _ _ - ⟨rfl, rfl⟩
  rw [TypeRegistry.get?_eq_of_find? htype]
  exact ends_pure ⟨hr, hbits, hr.sized name type htype⟩

/-- A token of the module has a type, which is as wide as the token says. -/
theorem ends_typeOf (hm : m.Closed) (hr : r.Standard) {token : Token} (h : m.Knows token) :
    Ends (typeOf m token) r fun type r' =>
      r'.Standard ∧ type.bits = token.bits ∧ type.Sized := by
  -- A reference is as wide as the registry says, whatever it leads to.
  have reference {s : TypeRegistry} {target : NativeType} (hs : s.Standard) (ht : target.Sized) :
      Ends (do return (← get).referenceTo target : TypeM NativeType) s fun type r' =>
        r'.Standard ∧ type.bits = 64 ∧ type.Sized := by
    refine (ends_get (Q := fun a t => s = a ∧ s = t) ⟨rfl, rfl⟩).bind ?_
    rintro _ _ - ⟨rfl, rfl⟩
    have hbits : (s.referenceTo target).bits = 64 := hs.pointerBits
    refine ends_pure ⟨hs, hbits, ?_, ht⟩
    rw [hs.pointerBits]
    exact .inl (Int.le_refl 64)
  induction token generalizing r with
  | bool | integer | string | address | bytearray => exact ends_moveType hr (by decide)
  | struct handle =>
    have hstructure : Ends (structureOf m handle) r fun type r' => r'.Standard ∧ type.Sized := by
      obtain ⟨name, hname⟩ := hm.structHostName h
      unfold structureOf
      rw [hname]
      refine ⟨(r.namedStructure name).1, _, rfl, hr.of_grows (r.grows_namedStructure name), ?_⟩
      unfold TypeRegistry.namedStructure
      split
      · rename_i type htype
        exact hr.sized name type htype
      · trivial
    exact hstructure.bind fun target s _ hs => reference hs.1 hs.2
  | anyStruct => exact absurd h id
  | reference mutable target ih =>
    exact (ih hr h).bind fun type s _ hs => reference hs.1 hs.2.2
  | anyReference mutable => exact reference hr trivial

/-- Tokens that the module knows are converted to types. -/
theorem ends_typesOf (hm : m.Closed) (hr : r.Standard) {tokens : List Token}
    (h : ∀ token ∈ tokens, m.Knows token) :
    Ends (typesOf m tokens) r fun _ r' => r'.Standard :=
  ends_mapM (fun _ ht _ hs => (ends_typeOf hm hs (h _ ht)).mono fun _ _ _ hq => hq.1) hr

/-- A signature whose tokens the module knows is made to a prototype. -/
theorem ends_prototypeOf (hm : m.Closed) (hr : r.Standard) {s : FunctionSignature}
    (hparams : ∀ token ∈ s.params, m.Knows token) (hreturns : ∀ token ∈ s.returns, m.Knows token) :
    Ends (prototypeOf m s) r fun _ r' => r'.Standard := by
  refine (ends_typesOf hm hr hparams).bind fun params t _ ht => ?_
  refine (ends_typesOf hm ht hreturns).bind fun returns u _ hu => ?_
  exact ends_pure hu

end Typing

/-! ## What was typed before -/

namespace TypeRegistry

variable {r s t : TypeRegistry}

/-- The Move types are found unchanged in a registry that has grown. -/
theorem Standard.get?_of_grows (h : r.Standard) (k : r.Grows s) {name : String}
    (hname : name ∈ moveWidths.map Prod.fst) : s.get? name = r.get? name := by
  obtain ⟨p, hp, rfl⟩ := List.mem_map.mp hname
  obtain ⟨type, htype, -⟩ := Option.map_eq_some_iff.mp (h.move p hp)
  rw [get?_eq_of_find? htype, get?_eq_of_find? (k.kept _ _ htype)]

/-- A structure is the same whether or not it was entered before. -/
theorem Grows.namedStructure (k : r.Grows s) (name : String) :
    (s.namedStructure name).1 = (r.namedStructure name).1 := by
  unfold TypeRegistry.namedStructure
  cases hr : r.find? name with
  | some type => rw [k.kept name type hr]
  | none =>
    cases hs : s.find? name with
    | none => rfl
    | some type =>
      rcases k.added name type hs with hr' | rfl
      · exact absurd (hr.symm.trans hr') (by simp)
      · rfl

end TypeRegistry

namespace Typing

variable {m : Module} {r : TypeRegistry}

/-- A token has the same type in all registries that have grown from one that has the Move types. -/
theorem respects_typeOf (hr : r.Standard) (token : Token) :
    Respects (fun s t => r.Grows s ∧ r.Grows t) (typeOf m token) := by
  -- All registries that have grown give the Move types alike and make references of the same width.
  have named {name : String} (hname : name ∈ TypeRegistry.moveWidths.map Prod.fst) :
      Respects (fun s t => r.Grows s ∧ r.Grows t) (moveType name) := by
    refine respects_look (fun s t h => ?_) fun s => ?_
    · rw [hr.get?_of_grows h.1 hname, hr.get?_of_grows h.2 hname]
    · split
      · exact respects_pure _
      · exact respects_throw _
  have reference (target : NativeType) : Respects (fun s t => r.Grows s ∧ r.Grows t)
      (do return (← get).referenceTo target : TypeM NativeType) := by
    refine respects_look (fun s t h => ?_) fun _ => respects_pure _
    rw [TypeRegistry.referenceTo, TypeRegistry.referenceTo, h.1.pointerBits, h.2.pointerBits]
  induction token with
  | bool | integer | string | address | bytearray => exact named (by decide)
  | struct handle =>
    refine Respects.bind ?_ fun _ => reference _
    unfold structureOf
    split
    · exact respects_throw _
    · rename_i name _
      intro s t h
      refine ⟨congrArg Except.ok ((h.1.namedStructure name).trans (h.2.namedStructure name).symm), ?_⟩
      exact ⟨h.1.trans (s.grows_namedStructure name), h.2.trans (t.grows_namedStructure name)⟩
  | anyStruct => exact respects_throw _
  | reference mutable target ih => exact ih.bind fun _ => reference _
  | anyReference mutable => exact reference _

/-- Making a prototype comes to the same in all registries that have grown from one with the Move
types. -/
theorem respects_prototypeOf (hr : r.Standard) (s : FunctionSignature) :
    Respects (fun s t => r.Grows s ∧ r.Grows t) (prototypeOf m s) :=
  (respects_mapM (respects_typeOf hr) _).bind fun _ =>
    (respects_mapM (respects_typeOf hr) _).bind fun _ => respects_pure _

end Typing

end MoveBytecode
