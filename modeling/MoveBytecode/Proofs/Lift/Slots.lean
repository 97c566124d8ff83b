import MoveBytecode.Proofs.Lift.Operations

/-!
# What the slots of the symbolic stack stand for

Each operation of a lift keeps what the slots stand for (`Operates.aligned`): different variables, and where
a token was put last, one of its width and its type. The variables are those of the stack, so that none is a
local or a register. So it is in every state that a lift of a loaded binary goes through
(`Analysis.lift_represents`), whether or not a slot holds a value there.
-/

namespace MoveBytecode

/-- On a registry with the Move types, a token that has a type has one as wide as it says. -/
theorem Typing.bits_of_typeOf {m : Module} {r : TypeRegistry} (hr : r.Standard) {token : Token}
    {type : NativeType} (h : (outcome (typeOf m token) r).1 = .ok type) : type.bits = token.bits := by
  have hrun : Runs (typeOf m token) r type (outcome (typeOf m token) r).2 := Prod.ext h rfl
  have hwidth : (outcome (typeOf m token) r).2.pointerBits = 64 :=
    (grows_typeOf m token r).pointerBits.trans hr.pointerBits
  generalize (outcome (typeOf m token) r).2 = r' at hrun hwidth
  have named {name : String} {bits : Int} (hname : (name, bits) ∈ TypeRegistry.moveWidths)
      (hmove : Runs (moveType name) r type r') : type.bits = bits := by
    obtain ⟨_, _, hends, -, hbits, -⟩ := ends_moveType hr hname
    rwa [(hmove.unique hends).1]
  cases token with
  | bool | integer | string | address | bytearray => exact named (by decide) hrun
  | struct _ | reference _ _ =>
    -- A reference is as wide as the registry says at last.
    simp only [typeOf, runs_bind, runs_get, runs_pure] at hrun
    obtain ⟨_, _, -, _, _, ⟨rfl, rfl⟩, rfl, rfl⟩ := hrun
    exact hwidth
  | anyReference _ =>
    simp only [typeOf, runs_bind, runs_get, runs_pure] at hrun
    obtain ⟨_, _, ⟨rfl, rfl⟩, rfl, rfl⟩ := hrun
    exact hwidth
  | anyStruct => exact absurd hrun not_runs_throw

namespace Lift

variable {m : Module} {s t : State} {r : TypeRegistry}

/-! ## What the slots hold -/

/-- A slot with a token has a variable as wide as the token says, of the type that the token has in the
registry `r`. -/
def Slot.Typed (m : Module) (r : TypeRegistry) (scope : Scope) (slot : Slot) : Prop :=
  ∀ token ∈ slot.token, slot.var.bits = token.bits ∧
    ∃ type, (outcome (Typing.typeOf m token) r).1 = .ok type ∧ scope.typeOf slot.var = some type

/-- The slots hold what their tokens stand for in the registry `r`, from which that of the host has grown. -/
structure State.Aligned (m : Module) (r : TypeRegistry) (s : State) : Prop where
  wellFormed : s.WellFormed
  grows : r.Grows s.host.types
  typed : ∀ slot ∈ s.stack.slots, slot.Typed m r s.scope

/-- The variable of a slot is one of the stack, and was made before. -/
theorem State.WellFormed.name_of_mem_slots (h : s.WellFormed) {slot : Slot} (hslot : slot ∈ s.stack.slots) :
    ∃ n, n < s.counter ∧ slot.var.name = .stackVar n := by
  obtain ⟨k, hk⟩ := Array.getElem?_of_mem hslot
  exact h.made k slot.var (by rw [OperandStack.varAt?, hk, Option.map_some])

/-- A variable that is not one of the stack yet leaves the slots as they are. -/
theorem Slot.Typed.add {slot : Slot} {scope : Scope} (h : slot.Typed m r scope) {v : Var}
    (hv : slot.var.name ≠ v.name) (type : Option NativeType) : slot.Typed m r (scope.add v type) := by
  intro token htoken
  rw [Scope.typeOf_add, if_neg (Ne.symm hv)]
  exact h token htoken

namespace State.Aligned

/-- Work on the host that lets its types grow keeps the slots as they are. -/
theorem onHost {α : Type} {x : HostM α} (hx : Preserves (fun w => r.Grows w.host.types) x)
    (h : s.Aligned m r) : (outcome (onHost x) s).2.Aligned m r := by
  have hwf := (still_onHost x).keeps.preserves s h.wellFormed
  rw [outcome_onHost] at hwf ⊢
  exact ⟨hwf, hx s.toWorkspace h.grows, h.typed⟩

/-- A variable that is declared by its name. -/
theorem declare (h : s.Aligned m r) {name : VarName} (bits : Int) (type : Option NativeType)
    (hname : ∀ n, name ≠ .stackVar n) : (outcome (declare name bits type) s).2.Aligned m r := by
  have hwf := (still_declare name bits type).keeps.preserves s h.wellFormed
  rw [outcome_declare] at hwf ⊢
  split
  · exact h
  · rename_i hfree
    rw [if_neg hfree] at hwf
    refine ⟨hwf, h.grows, fun slot hslot => (h.typed slot hslot).add ?_ type⟩
    obtain ⟨n, -, hn⟩ := h.wellFormed.name_of_mem_slots hslot
    exact hn ▸ (hname n).symm

/-- The next variable for a stack position leaves the slots as they are. -/
theorem newStackVar (h : s.Aligned m r) {bits : Int} {type : Option NativeType} {result : Except Fault Var}
    (hrun : outcome (newStackVar bits type) s = (result, t)) :
    t.Aligned m r ∧ ∀ v, result = .ok v → v.bits = bits ∧ t.scope.typeOf v = type := by
  obtain ⟨hstack, hcounter, -, -⟩ := newStackVar_spec hrun
  have hwf := (h.wellFormed.congr hstack (by omega)).1
  simp only [Lift.newStackVar, outcome_bind, outcome_get, outcome_modify, outcome_declare] at hrun
  split at hrun
  · obtain ⟨rfl, rfl⟩ := Prod.mk.inj hrun
    exact ⟨⟨hwf, h.grows, h.typed⟩, by simp⟩
  · obtain ⟨rfl, rfl⟩ := Prod.mk.inj hrun
    refine ⟨⟨hwf, h.grows, fun slot hslot => (h.typed slot hslot).add ?_ type⟩, fun v hv => ?_⟩
    · -- The variables of the slots have numbers that were spent before.
      obtain ⟨n, hn, hname⟩ := h.wellFormed.name_of_mem_slots hslot
      rw [hname]
      exact fun heq => absurd (VarName.stackVar.inj heq) (Nat.ne_of_lt hn)
    · obtain rfl := Except.ok.inj hv
      exact ⟨rfl, by rw [Scope.typeOf_add, if_pos rfl]⟩

/-- The stack may change if its slots are those of before, or hold what their tokens stand for. -/
theorem setStack (h : s.Aligned m r) {stack : OperandStack} (hwf : { s with stack }.WellFormed)
    (hslots : ∀ slot ∈ stack.slots, slot ∈ s.stack.slots ∨ slot.Typed m r s.scope) :
    { s with stack }.Aligned m r :=
  ⟨hwf, h.grows, fun slot hslot => (hslots slot hslot).elim (h.typed slot) id⟩

/-- A new variable is put, in a slot that holds what its token stands for. -/
theorem storeNew (h : s.Aligned m r) {bits : Int} {type : Option NativeType} {token : Option Token}
    (hnew : ∀ (v : Var) (scope : Scope), v.bits = bits → scope.typeOf v = type →
      Slot.Typed m r scope ⟨v, token⟩) :
    (outcome (storeNew bits type token) s).2.Aligned m r := by
  have hwf := (orderly_storeNew bits type token).keeps.preserves s h.wellFormed
  rw [Lift.storeNew, outcome_bind] at hwf ⊢
  rcases hvar : outcome (Lift.newStackVar bits type) s with ⟨fault | v, t⟩
  · exact (h.newStackVar hvar).1
  · obtain ⟨ht, hv⟩ := h.newStackVar hvar
    obtain ⟨hbits, htype⟩ := hv v rfl
    rw [hvar] at hwf
    refine ht.setStack hwf fun slot hslot => ?_
    rcases OperandStack.mem_slots_store hslot with hold | rfl
    · exact .inl hold
    · exact .inr (hnew v t.scope hbits htype)

/-- A slot that was added has no token. -/
theorem grow (h : s.Aligned m r) : (outcome (growBy 1) s).2.Aligned m r := by
  have hwf : (outcome (growBy 1) s).2.WellFormed := (growBy_spec h.wellFormed rfl).1.1
  rw [growBy, outcome_bind] at hwf ⊢
  rcases hvar : outcome (Lift.newStackVar 64 none) s with ⟨fault | v, t⟩
  · exact (h.newStackVar hvar).1
  · obtain ⟨ht, -⟩ := h.newStackVar hvar
    rw [hvar] at hwf
    refine ht.setStack hwf fun slot hslot => ?_
    rcases Array.mem_push.mp hslot with hold | rfl
    · exact .inl hold
    · exact .inr (by simp [Slot.Typed])

/-- What a token stands for does not change while the types of the host grow. -/
theorem outcome_typeOf (h : s.Aligned m r) (hr : r.Standard) {f : Frame} (hf : f.owner = m) (token : Token) :
    (outcome (typeOf f token) s).1 = (outcome (Typing.typeOf m token) r).1 := by
  rw [typeOf, outcome_onHost, outcome_onTypes, hf]
  exact (Typing.respects_typeOf hr token _ _ ⟨h.grows, .refl r⟩).1

/-- A token gets its type, which changes nothing but the types of the host. -/
theorem typing (h : s.Aligned m r) (token : Token) :
    (outcome (Lift.onHost (onTypes (Typing.typeOf m token))) s).2.Aligned m r := by
  refine h.onHost fun w hw => ?_
  rw [outcome_onTypes]
  exact TypeRegistry.Grows.trans hw (Typing.grows_typeOf m token w.host.types)

/-- A value is put whose type has a token. -/
theorem push (h : s.Aligned m r) (hr : r.Standard) {f : Frame} (hf : f.owner = m) (token : Token) :
    (outcome (push f token) s).2.Aligned m r := by
  have hwf := (orderly_push f token).keeps.preserves s h.wellFormed
  rw [outcome_push] at hwf ⊢
  cases hreuse : s.stack.reusable? token with
  | some v =>
    rw [hreuse] at hwf
    exact h.setStack hwf fun slot hslot => .inl hslot
  | none =>
    dsimp only
    have htyped := h.outcome_typeOf hr hf token
    have ht : (outcome (typeOf f token) s).2.Aligned m r := by
      subst hf
      exact h.typing token
    rw [outcome_bind]
    rcases hout : outcome (typeOf f token) s with ⟨fault | type, t⟩
    · rwa [hout] at ht
    · rw [hout] at ht htyped
      -- The variable is made for the type of the token, and is as wide.
      refine ht.storeNew fun v scope hbits htype other hother => ?_
      obtain rfl := Option.some.inj hother
      exact ⟨hbits.trans (Typing.bits_of_typeOf hr htyped.symm), type, htyped.symm, htype⟩

end State.Aligned

/-- Each operation keeps what the slots hold. -/
theorem Operates.aligned (hr : r.Standard) (h : Operates m s t) (hs : s.Aligned m r) : t.Aligned m r := by
  have hwf := h.wellFormed hs.wellFormed
  cases h with
  | record e => exact ⟨hwf, hs.grows, hs.typed⟩
  | typing token => exact hs.typing token
  | prototype number signature =>
    refine hs.onHost (Lasting.ensurePrototype ?_ m number signature)
    exact ⟨fun _ _ h => h, fun _ _ hgrows h => TypeRegistry.Grows.trans h hgrows, fun _ _ _ h => h⟩
  | declare bits type hname => exact hs.declare bits type hname
  | push token hf => exact hs.push hr hf token
  | pushNative bits type => exact hs.storeNew fun _ _ _ _ => by simp [Slot.Typed]
  | pop =>
    rw [outcome_pop] at hwf ⊢
    split
    · rename_i v stack hpop
      rw [hpop] at hwf
      exact hs.setStack hwf fun slot hslot => .inl ((pop_eq_ok hpop).2.1 ▸ hslot)
    · exact hs
  | grow => exact hs.grow
  | setHeight => exact hs.setStack hwf fun slot hslot => .inl hslot

/-- Operations keep the types of slots in line with their tokens. -/
theorem Passes.aligned (hr : r.Standard) (h : Passes m s t) (hs : s.Aligned m r) : t.Aligned m r := by
  induction h with
  | refl => exact hs
  | tail _ hlast ih => exact hlast.aligned hr ih

/-! ## Routines -/

/-- What the slots stand for in a lift with the frame `f`. -/
structure State.Represents (f : Frame) (s : State) : Prop where
  /-- The values on the stack are in slots. -/
  height_le : s.stack.height ≤ s.stack.slots.size
  /-- All slots have different variables, also those above the height. -/
  distinct : (s.stack.slots.toList.map (·.var.name)).Nodup
  /-- None of them is a register or a local. -/
  apart : ∀ slot ∈ s.stack.slots, ∀ v ∈ programCounter :: stackPointer :: f.locals.toList,
    slot.var.name ≠ v.name
  /-- Where a token was put last, the variable is as wide as it says, and has the type that it gets. -/
  typed : ∀ slot ∈ s.stack.slots, ∀ token ∈ slot.token, slot.var.bits = token.bits ∧
    ∃ type, (outcome (typeOf f token) s).1 = .ok type ∧ s.scope.typeOf slot.var = some type

/-- No two slots of a well-formed state have the same variable. -/
theorem State.WellFormed.nodup_slots (h : s.WellFormed) : (s.stack.slots.toList.map (·.var.name)).Nodup := by
  -- On a stack that is as high as there are slots, the values are in all of them.
  have hfull := (h.of_varAt? (t := { s with stack := s.stack.setHeight s.stack.slots.size })
    (fun _ => rfl) (Nat.le_refl _) (Nat.le_refl _)).1.nodup_names
  have hall : (s.stack.setHeight s.stack.slots.size).vars = s.stack.slots.toList.map (·.var) :=
    congrArg (List.map _) (List.take_of_length_le (Nat.le_of_eq Array.length_toList))
  rwa [hall, List.map_map] at hfull

/-- The locals of the frame are variables of their numbers. -/
theorem State.Aligned.represents (h : s.Aligned m r) (hr : r.Standard) {f : Frame} (hf : f.owner = m)
    (hlocals : ∀ v ∈ f.locals.toList, ∃ n, v.name = .localVar n) : s.Represents f where
  height_le := h.wellFormed.height_le
  distinct := h.wellFormed.nodup_slots
  apart slot hslot v hv := by
    obtain ⟨n, -, hname⟩ := h.wellFormed.name_of_mem_slots hslot
    rw [hname]
    rcases List.mem_cons.mp hv with rfl | hv
    · exact nofun
    rcases List.mem_cons.mp hv with rfl | hv
    · exact nofun
    · obtain ⟨k, hk⟩ := hlocals v hv
      rw [hk]
      exact nofun
  typed slot hslot token htoken := by
    rw [h.outcome_typeOf hr hf token]
    exact h.typed slot hslot token htoken

end Lift

open Lift

namespace Analysis

variable {config : Config} {data : Bytes} {a : Analysis}

/-- A function is opened on a host that has the Move types. -/
theorem standard_of_opened (hload : ofBytes config data = .ok a) {w : Workspace} (hw : a.Reaches w)
    {c : Converter} {g : Entry FunctionDef} {frame : Except Fault Frame} {s : State}
    (hopened : c.opened g w = (frame, s)) : s.host.types.Standard := by
  have hlasting := (durable_settled a.host).lasting
  have hassigned := hlasting.assignPrototypes c.owner w (hw.settled hload)
  have hsettled := (hlasting.pervades c.owner).openFunction c.removed g (fresh _) hassigned
  rw [Converter.opened] at hopened
  rw [hopened] at hsettled
  exact hsettled.types

/-- Whatever was done with an analysis before, the lift of a function is done by operations, and in every
state that these lead to the slots of the symbolic stack hold what they stand for. -/
theorem lift_represents (hload : ofBytes config data = .ok a) {w : Workspace} (hw : a.Reaches w)
    {removed : List Opcode} {g : Entry FunctionDef} {frame : Frame} {s : State}
    (hopened : (Converter.mk a.owner removed).opened g w = (.ok frame, s)) :
    (Converter.mk a.owner removed).Operating g w frame s ∧
      ∀ t, Passes a.owner s t → t.Represents frame := by
  refine ⟨Converter.operating hopened, fun t ht => ?_⟩
  have hopen := opened_of_runs hopened
  have hstandard := standard_of_opened hload hw hopened
  -- There are no slots to start with.
  have hs : s.Aligned a.owner s.host.types :=
    ⟨State.wellFormed_of_empty hopen.stack, .refl _, by simp [hopen.stack, OperandStack.empty]⟩
  refine (ht.aligned hstandard hs).represents hstandard hopen.owner fun v hv => ?_
  obtain ⟨k, hk⟩ := List.mem_iff_getElem?.mp hv
  exact ⟨k, hopen.name_of_getElem? (by rwa [Array.getElem?_toList] at hk)⟩

/-- A library with a function `f` of the body `LD_CONST 5`, `LD_ADDR 0`, `RET` and a function `g` that calls
it and returns both values. -/
def pairSample : Bytes :=
  Format.assemble .libra [
    ⟨.moduleHandles, [0, 0]⟩, ⟨.functionHandles, [0, 1, 0, 0, 2, 0]⟩,
    ⟨.addressPool, List.replicate 32 0⟩,
    ⟨.stringPool, [6, 0x3C, 0x53, 0x45, 0x4C, 0x46, 0x3E, 1, 0x66, 1, 0x67]⟩,
    ⟨.functionSignatures, [2, 2, 2, 4, 0]⟩, ⟨.localSignatures, [3, 0]⟩,
    ⟨.functionDefs,
      [0, 0, 2, 0, 3, 0, 0x06, 5, 0, 0, 0, 0, 0, 0, 0, 0x07, 0, 0x02] ++
        [1, 0, 2, 0, 2, 0, 0x11, 0, 0x02]⟩]

/-- The call of the sample leaves two slots, which hold what they stand for. -/
theorem pairSample_represents : ∃ a g frame s v low, ofBytes .standard pairSample = .ok a ∧
    g ∈ a.owner.internalFunctions ∧
    (Converter.mk a.owner []).opened g (.ofHost a.host) = (.ok frame, s) ∧
    v ∈ (Converter.mk a.owner []).visits g (.ofHost a.host) ∧ low ∈ v.lowerings ∧
    low.placed.instruction.opcode = .call ∧
    low.after.stack.slots.toList.map (fun slot => (slot.var.bits, slot.token)) =
      [(64, some .integer), (256, some .address)] ∧
    low.after.Represents frame := by
  have check : (ofBytes .standard pairSample).toOption.any (fun a =>
      a.owner.internalFunctions.any fun g =>
        ((Converter.mk a.owner []).opened g (.ofHost a.host)).1.toOption.isSome &&
        ((Converter.mk a.owner []).visits g (.ofHost a.host)).any fun v => v.lowerings.any fun low =>
          decide (low.placed.instruction.opcode = .call ∧
            low.after.stack.slots.toList.map (fun slot => (slot.var.bits, slot.token)) =
              [(64, some .integer), (256, some .address)])) = true := by
    unfold Converter.visits Converter.opened assignPrototypes
    rw [Host.routineNumbers_eq]
    decide +kernel
  obtain ⟨a, hload, hcheck⟩ := exists_of_any_toOption check
  simp only [List.any_eq_true, Bool.and_eq_true, decide_eq_true_eq] at hcheck
  obtain ⟨g, hg, hframe, v, hv, low, hlow, hcall, hslots⟩ := hcheck
  rcases hopened : (Converter.mk a.owner []).opened g (.ofHost a.host) with ⟨fault | frame, s⟩
  · simp [hopened, Except.toOption] at hframe
  · -- The state behind the call is one that operations lead to, so the theorem holds of it.
    obtain ⟨hoperating, hrepresents⟩ := lift_represents hload .start hopened
    obtain ⟨-, -, hlowerings⟩ := hoperating.course v hv
    obtain ⟨hbefore, hafter⟩ := hlowerings low hlow
    exact ⟨a, g, frame, s, v, low, hload, hg, hopened, hv, hlow, hcall, hslots,
      hrepresents _ (hbefore.trans hafter)⟩

end Analysis

end MoveBytecode
