import MoveBytecode.Proofs.Lift.Workspace

/-!
# Widths of variables

Every variable of the symbolic stack has one of the widths of values, and it has that of the token of its
slot, also where a slot is taken again. `State.Sound` says so, together with what keeps the names of new
variables free and the host as it was published. In a sound state the operations of the stack end without
a fault, and they leave a sound state.
-/

namespace MoveBytecode

/-! ## Scopes -/

/-- A scope in which a variable can be found under each name in use, in which no stack variable has the
number `counter` or a greater one, and whose types are those of values. -/
structure Scope.Regular (s : Scope) (counter : Nat) : Prop where
  declared : ∀ name, s.contains name = true → ∃ v ∈ s.vars, v.name = name
  free : ∀ n, counter ≤ n → s.contains (.stackVar n) = false
  types : ∀ v type, s.typeOf v = some type → type.Sized

namespace Scope

variable {s : Scope} {counter : Nat}

/-- In a regular scope a name under which nothing is found is not in use. -/
theorem contains_eq_false_of_find? (h : s.Regular counter) {name : VarName}
    (hfind : s.find? name = none) : s.contains name = false := by
  by_contra hcontains
  obtain ⟨v, hv, hname⟩ := h.declared name (by simpa using hcontains)
  have hne := Array.find?_eq_none.mp hfind v hv
  exact hne (by simp [hname])

/-- The empty scope is regular. -/
theorem regular_empty (counter : Nat) : empty.Regular counter := by
  have hcontains (name : VarName) : empty.contains name = false := by simp [empty, contains]
  refine ⟨fun name h => ?_, fun n _ => hcontains _, fun v type h => ?_⟩
  · rw [hcontains] at h
    exact absurd h (by decide)
  · simp [empty, typeOf] at h

/-- A variable is added whose name is not that of a stack variable to come. -/
theorem Regular.add (h : s.Regular counter) {counter' : Nat} (hcounter : counter ≤ counter') {v : Var}
    {type : Option NativeType} (hname : ∀ n, v.name = .stackVar n → n < counter')
    (htype : ∀ t ∈ type, t.Sized) : (s.add v type).Regular counter' := by
  refine ⟨fun name hname' => ?_, fun n hn => ?_, fun w t ht => ?_⟩
  · rw [contains_add, Bool.or_eq_true, beq_iff_eq] at hname'
    rcases hname' with rfl | hname'
    · exact ⟨v, Array.mem_push_self, rfl⟩
    · obtain ⟨w, hw, rfl⟩ := h.declared name hname'
      exact ⟨w, Array.mem_push.mpr (.inl hw), rfl⟩
  · rw [contains_add, Bool.or_eq_false_iff, beq_eq_false_iff_ne]
    refine ⟨fun heq => ?_, h.free n (by omega)⟩
    have := hname n heq
    omega
  · rw [typeOf_add] at ht
    split at ht
    · exact htype t ht
    · exact h.types w t ht

/-- A scope with a register knows the names that it did and that of the register. -/
theorem contains_setRegister (s : Scope) (v : Var) (name : VarName) :
    (s.setRegister v).contains name = (v.name == name || s.contains name) := by
  rw [Bool.eq_iff_iff]
  simp [setRegister, contains, Std.TreeMap.contains_insert]

/-- A regular scope stays regular with a register, as that is no stack variable. -/
theorem Regular.setRegister (h : s.Regular counter) {v : Var} (hname : ∀ n, v.name ≠ .stackVar n) :
    (s.setRegister v).Regular counter := by
  refine ⟨fun name hname' => ?_, fun n hn => ?_, fun w t ht => ?_⟩
  · rw [contains_setRegister, Bool.or_eq_true, beq_iff_eq] at hname'
    unfold Scope.setRegister
    split
    · -- The variables that give way to the register have its name.
      rename_i hcontains
      obtain ⟨w, hw, hwname⟩ : ∃ w ∈ s.vars, w.name = name := by
        rcases hname' with rfl | hname'
        · exact h.declared _ hcontains
        · exact h.declared name hname'
      refine ⟨_, Array.mem_map_of_mem hw, ?_⟩
      split
      · rename_i heq
        rw [← hwname]
        exact (beq_iff_eq.mp heq).symm
      · exact hwname
    · rcases hname' with rfl | hname'
      · exact ⟨v, Array.mem_push_self, rfl⟩
      · obtain ⟨w, hw, rfl⟩ := h.declared name hname'
        exact ⟨w, Array.mem_push.mpr (.inl hw), rfl⟩
  · rw [contains_setRegister, h.free n hn, Bool.or_false, beq_eq_false_iff_ne]
    exact hname n
  · unfold Scope.setRegister Scope.typeOf at ht
    rw [Std.TreeMap.getElem?_insert] at ht
    split at ht
    · simp at ht
    · exact h.types w t ht

end Scope

namespace Lift

/-! ## Workspaces -/

/-- A workspace whose host has the Move types, and the symbols and the roster of `h`. -/
structure Settled (h : Host) (w : Workspace) : Prop where
  types : w.host.types.Standard
  symbols : w.host.symbols = h.symbols
  roster : w.host.roster = h.roster

/-- A host with the Move types is settled from the start. -/
theorem settled_ofHost {h : Host} (htypes : h.types.Standard) : Settled h (.ofHost h) :=
  ⟨htypes, rfl, rfl⟩

/-- Lifting leaves the types, the symbols and the roster of a host settled. -/
theorem durable_settled (h : Host) : Durable (Settled h) where
  event _ _ hw := ⟨hw.types, hw.symbols, hw.roster⟩
  types _ _ hgrows hw := ⟨hw.types.of_grows hgrows, hw.symbols, hw.roster⟩
  moveTypes w hw := by
    refine ⟨?_, hw.symbols, hw.roster⟩
    rw [Host.withMoveTypes, hw.types.withMoveTypes_eq]
    exact hw.types
  routine w number _ hf hw :=
    ⟨hw.types, hw.symbols, (Host.roster_updateRoutine w.host number hf).trans hw.roster⟩
  classes _ _ hw := ⟨hw.types, hw.symbols, hw.roster⟩

/-! ## States -/

/-- A slot whose variable is as wide as a value, and as wide as the token says if there is one. -/
def Slot.Fits (slot : Slot) : Prop :=
  IsWidth slot.var.bits ∧ ∀ token ∈ slot.token, slot.var.bits = token.bits

/-- A state of a lift on the host `h` in which all slots fit. -/
structure State.Sound (h : Host) (s : State) : Prop where
  wellFormed : s.WellFormed
  settled : Settled h s.toWorkspace
  scope : s.scope.Regular s.counter
  slots : ∀ slot ∈ s.stack.slots, slot.Fits

section

variable {α : Type} {h : Host} {s t : State} {Q : α → State → Prop}

/-- In a sound state there are as many variables on the stack as the stack is high. -/
theorem State.Sound.length_vars (hs : s.Sound h) : s.stack.vars.length = s.stack.height :=
  OperandStack.length_vars hs.wellFormed.height_le

/-- The values on the stack have widths of values. -/
theorem State.Sound.isWidth (hs : s.Sound h) {v : Var} (hv : v ∈ s.stack.vars) :
    IsWidth v.bits := by
  obtain ⟨slot, hslot, rfl⟩ := List.mem_map.mp hv
  exact (hs.slots slot (Array.mem_toList_iff.mp (List.mem_of_mem_take hslot))).1

/-- Where the stack is as it was, the workspace and the scope decide. -/
theorem State.Sound.congr (hs : s.Sound h) (hstack : t.stack = s.stack)
    (hcounter : t.counter = s.counter) (hsettled : Settled h t.toWorkspace)
    (hscope : t.scope.Regular t.counter) : t.Sound h := by
  refine ⟨(hs.wellFormed.congr hstack (Nat.le_of_eq hcounter.symm)).1, hsettled, hscope, ?_⟩
  rw [hstack]
  exact hs.slots

/-- A slot of the host fits if its variable is as wide as a value. -/
theorem Slot.fits_native {v : Var} (h : IsWidth v.bits) : Slot.Fits ⟨v, none⟩ :=
  ⟨h, fun _ ht => absurd ht (by simp)⟩

/-- A slot of a token fits if its variable is as wide as the token. -/
theorem Slot.fits_token {v : Var} {token : Token} (h : v.bits = token.bits) :
    Slot.Fits ⟨v, some token⟩ := by
  refine ⟨h ▸ isWidth_bits token, fun other hother => ?_⟩
  obtain rfl := Option.some.inj hother
  exact h

/-- Work on the host that ends, and leaves the workspace settled, ends in a sound state. -/
theorem State.Sound.ends_onHost (hs : s.Sound h) {x : HostM α} {P : α → Prop}
    (hx : Ends x s.toWorkspace fun a _ => P a) (hkeeps : Preserves (Settled h) x) :
    Ends (onHost x) s fun a t => t.Sound h ∧ t.stack = s.stack ∧ t.counter = s.counter ∧
      t.scope = s.scope ∧ P a := by
  obtain ⟨a, w, hrun, ha⟩ := hx
  have hw : Settled h w := hkeeps.of_runs hrun hs.settled
  refine ⟨a, { s with toWorkspace := w }, ?_, hs.congr rfl rfl hw hs.scope, rfl, rfl, rfl, ha⟩
  rw [Runs, outcome_onHost, show outcome x s.toWorkspace = (.ok a, w) from hrun]

/-- What ends on the types of a host ends on the workspace. -/
theorem ends_onTypes {x : TypeM α} {w : Workspace} {P : α → Prop}
    (hx : Ends x w.host.types fun a _ => P a) : Ends (onTypes x) w fun a _ => P a := by
  obtain ⟨a, types, hrun, ha⟩ := hx
  refine ⟨a, { w with host := { w.host with types } }, ?_, ha⟩
  rw [Runs, outcome_onTypes, show outcome x w.host.types = (.ok a, types) from hrun]

/-- A token that the module knows has a native type, which is as wide as the token says. -/
theorem State.Sound.ends_typeOf (hs : s.Sound h) {m : Module} (hm : m.Closed) {token : Token}
    (htoken : m.Knows token) :
    Ends (onHost (onTypes (Typing.typeOf m token))) s fun type t =>
      t.Sound h ∧ t.stack = s.stack ∧ t.counter = s.counter ∧ t.scope = s.scope ∧
        type.bits = token.bits ∧ type.Sized := by
  refine hs.ends_onHost (ends_onTypes ?_) ((durable_settled h).lasting.onTypes (Typing.grows_typeOf m token))
  exact (Typing.ends_typeOf hm hs.settled.types htoken).mono fun _ _ _ htype => htype.2

/-! ## Variables -/

/-- A variable is declared if its name is free. -/
theorem runs_declare_of_free {name : VarName} {bits : Int} {type : Option NativeType}
    (hfree : s.scope.contains name = false) : Runs (declare name bits type) s { name, bits }
      { s with scope := s.scope.add { name, bits } type } := by
  rw [Runs, outcome_declare, hfree, if_neg (by decide)]

/-- A variable that is not one of the stack is declared under a name that is free. -/
theorem State.Sound.ends_declare (hs : s.Sound h) {name : VarName} {bits : Int}
    {type : Option NativeType} (hfree : s.scope.contains name = false)
    (hname : ∀ n, name ≠ .stackVar n) (htype : ∀ t ∈ type, t.Sized) :
    Ends (declare name bits type) s fun v t => t.Sound h ∧ t.stack = s.stack ∧ v.bits = bits ∧
      ∀ other, other ≠ name → t.scope.contains other = s.scope.contains other := by
  refine ⟨_, _, runs_declare_of_free hfree, hs.congr rfl rfl hs.settled ?_, rfl, rfl, ?_⟩
  · exact hs.scope.add (Nat.le_refl _) (fun n hn => absurd hn (hname n)) htype
  · intro other hother
    show (s.scope.add _ _).contains other = _
    rw [Scope.contains_add, beq_eq_false_iff_ne.mpr (Ne.symm hother), Bool.false_or]

/-- The next stack variable has a name that is free. -/
theorem State.Sound.runs_newStackVar (hs : s.Sound h) (bits : Int) (type : Option NativeType) :
    Runs (newStackVar bits type) s { name := .stackVar s.counter, bits }
      { s with
        counter := s.counter + 1
        scope := s.scope.add { name := .stackVar s.counter, bits } type } := by
  refine runs_bind.mpr ⟨s, s, runs_get.mpr ⟨rfl, rfl⟩, runs_bind.mpr ⟨⟨⟩, _, runs_modify.mpr rfl, ?_⟩⟩
  exact runs_declare_of_free (hs.scope.free _ (Nat.le_refl _))

/-- A scope with the next stack variable is regular for the counter after it. -/
theorem State.Sound.regular_newStackVar (hs : s.Sound h) {bits : Int} {type : Option NativeType}
    (htype : ∀ t ∈ type, t.Sized) :
    (s.scope.add { name := .stackVar s.counter, bits } type).Regular (s.counter + 1) := by
  refine hs.scope.add (Nat.le_succ _) (fun n hn => ?_) htype
  have := VarName.stackVar.inj hn
  omega

/-! ## Pushes and pops -/

/-- The slots after a store are those before it and the one that is stored. -/
theorem OperandStack.mem_slots_store {stack : OperandStack} {slot new : Slot}
    (hslot : slot ∈ (stack.store new).slots) : slot ∈ stack.slots ∨ slot = new := by
  unfold OperandStack.store at hslot
  dsimp only at hslot
  split at hslot
  · exact Array.mem_or_eq_of_mem_setIfInBounds hslot
  · exact Array.mem_push.mp hslot

/-- Storing a new variable ends in a sound state, one higher. -/
theorem State.Sound.ends_storeNew (hs : s.Sound h) (bits : Int) (type : Option NativeType)
    (token : Option Token) (hslot : ∀ v : Var, v.bits = bits → Slot.Fits ⟨v, token⟩)
    (htype : ∀ t ∈ type, t.Sized) :
    Ends (storeNew bits type token) s fun v t =>
      t.Sound h ∧ t.stack.height = s.stack.height + 1 ∧ v.bits = bits := by
  have hrun : Runs (storeNew bits type token) s { name := .stackVar s.counter, bits }
      { s with
        counter := s.counter + 1
        scope := s.scope.add { name := .stackVar s.counter, bits } type
        stack := s.stack.store ⟨{ name := .stackVar s.counter, bits }, token⟩ } :=
    runs_bind.mpr ⟨_, _, hs.runs_newStackVar bits type,
      runs_bind.mpr ⟨⟨⟩, _, runs_modify.mpr rfl, runs_pure.mpr ⟨rfl, rfl⟩⟩⟩
  refine ⟨_, _, hrun, ⟨?_, hs.settled, hs.regular_newStackVar htype, fun slot hmem => ?_⟩, rfl, rfl⟩
  · exact ((orderly_storeNew bits type token).keeps s _ _ hrun hs.wellFormed).1
  · rcases OperandStack.mem_slots_store hmem with hmem | rfl
    · exact hs.slots slot hmem
    · exact hslot _ rfl

/-- Pushing a type of the host ends in a sound state, one higher. -/
theorem State.Sound.ends_pushNative (hs : s.Sound h) {bits : Int} {type : Option NativeType}
    (hbits : IsWidth bits) (htype : ∀ t ∈ type, t.Sized) :
    Ends (pushNative bits type) s fun v t =>
      t.Sound h ∧ t.stack.height = s.stack.height + 1 ∧ v.bits = bits :=
  hs.ends_storeNew bits type none (fun _ hv => Slot.fits_native (hv ▸ hbits)) htype

/-- A push of a token that the module knows puts a variable that is as wide as the token says. -/
theorem State.Sound.ends_push (hs : s.Sound h) {f : Frame} (hm : f.owner.Closed) (token : Token)
    (htoken : f.owner.Knows token) :
    Ends (push f token) s fun v t =>
      t.Sound h ∧ t.stack.height = s.stack.height + 1 ∧ v.bits = token.bits := by
  cases hreuse : s.stack.reusable? token with
  | some v =>
    have hrun : Runs (push f token) s v { s with stack := s.stack.keep } := by
      rw [Runs, outcome_push, hreuse]
    -- A slot is taken again for the token that it has, so its variable is as wide as that one says.
    obtain ⟨slot, hslot, rfl⟩ := Option.map_eq_some_iff.mp hreuse
    obtain ⟨hslot, hsame⟩ := Option.filter_eq_some_iff.mp hslot
    have hfits := hs.slots slot (Array.mem_of_getElem? hslot)
    refine ⟨_, _, hrun, ⟨?_, hs.settled, hs.scope, hs.slots⟩, rfl, hfits.2 token ?_⟩
    · exact ((orderly_push f token).keeps s _ _ hrun hs.wellFormed).1
    · exact beq_iff_eq.mp hsame
  | none =>
    have hnew : Ends (do
        let type ← typeOf f token
        storeNew type.bits (some type) (some token)) s fun v t =>
          t.Sound h ∧ t.stack.height = s.stack.height + 1 ∧ v.bits = token.bits := by
      refine (hs.ends_typeOf hm htoken).bind ?_
      rintro type t - ⟨ht, hstack, -, -, hbits, hsized⟩
      have hstore := ht.ends_storeNew type.bits (some type) (some token)
        (fun v hv => Slot.fits_token (hv.trans hbits)) fun _ h => Option.some.inj h ▸ hsized
      refine hstore.mono fun v u _ hu => ?_
      rw [← hstack]
      exact ⟨hu.1, hu.2.1, hu.2.2.trans hbits⟩
    obtain ⟨v, t, hrun, ht⟩ := hnew
    refine ⟨v, t, ?_, ht⟩
    rw [Runs, outcome_push, hreuse]
    exact hrun

/-- Values that are pushed one after the other. -/
theorem State.Sound.ends_mapM_push (hs : s.Sound h) {f : Frame} (hm : f.owner.Closed)
    {tokens : List Token} (htokens : ∀ token ∈ tokens, f.owner.Knows token) :
    Ends (tokens.mapM (push f)) s fun _ t => t.Sound h :=
  ends_mapM (fun token htoken _ ht =>
    (ht.ends_push hm token (htokens token htoken)).mono fun _ _ _ hu => hu.1) hs

/-- A value is taken from a stack that is not empty. -/
theorem State.Sound.ends_pop (hs : s.Sound h) (hheight : 0 < s.stack.height) :
    Ends pop s fun v t => t.Sound h ∧ s.stack.height = t.stack.height + 1 ∧ IsWidth v.bits ∧
      t.scope = s.scope ∧ s.stack.vars = t.stack.vars ++ [v] := by
  obtain ⟨height, hsucc⟩ := Nat.exists_eq_succ_of_ne_zero (Nat.ne_of_gt hheight)
  have hlt : height < s.stack.slots.size := by
    have := hs.wellFormed.height_le
    omega
  have hrun : Runs pop s s.stack.slots[height].var { s with stack := { s.stack with height } } := by
    rw [Runs, outcome_pop, OperandStack.pop, hsucc]
    dsimp only
    rw [Array.getElem?_eq_getElem hlt]
  have hwf := (orderly_pop.keeps s _ _ hrun hs.wellFormed).1
  refine ⟨_, _, hrun, ⟨hwf, hs.settled, hs.scope, hs.slots⟩, hsucc, ?_, rfl, ?_⟩
  · exact (hs.slots _ (Array.getElem_mem hlt)).1
  · exact vars_of_pop hs.wellFormed hrun

/-- Popping several values ends in a sound state if there are as many. -/
theorem State.Sound.ends_popInto (hs : s.Sound h) {count : Nat} (hcount : count ≤ s.stack.height)
    (above : List Var) : Ends (popInto count above) s fun _ t => t.Sound h := by
  induction count generalizing above s with
  | zero => exact ends_pure hs
  | succ count ih =>
    refine (hs.ends_pop (by omega)).bind fun v t _ ht => ?_
    exact ih ht.1 (by omega) _

/-- Popping a number of values ends in a sound state if there are as many. -/
theorem State.Sound.ends_popMany (hs : s.Sound h) {count : Nat} (hcount : count ≤ s.stack.height) :
    Ends (popMany count) s fun _ t => t.Sound h := hs.ends_popInto hcount []

/-! ## Entering blocks -/

/-- Filling up the stack ends in a sound state. -/
theorem State.Sound.ends_growBy (hs : s.Sound h) (count : Nat) :
    Ends (growBy count) s fun _ t => t.Sound h := by
  induction count generalizing s with
  | zero => exact ends_pure hs
  | succ count ih =>
    refine ends_bind_of_runs (hs.runs_newStackVar 64 none) ?_
    refine ends_bind_of_runs (a := ⟨⟩) (runs_modify.mpr rfl)
      (ih ⟨?_, hs.settled, ?_, fun slot hslot => ?_⟩)
    · exact (wellFormed_grow hs.wellFormed (v := { name := .stackVar s.counter, bits := 64 }) rfl rfl
        rfl).1
    · exact hs.regular_newStackVar (by simp)
    · rcases Array.mem_push.mp hslot with hslot | rfl
      · exact hs.slots slot hslot
      · exact Slot.fits_native (.inl (Int.le_refl 64))

/-- A block can be entered at any height. -/
theorem State.Sound.ends_enterBlock (hs : s.Sound h) (depth : Nat) :
    Ends (enterBlock depth) s fun _ t => t.Sound h ∧ t.stack.height = depth := by
  have hgrow := (hs.ends_growBy (depth - s.stack.slots.size)).mono fun _ t hrun ht =>
    And.intro ht ((growBy_spec hs.wellFormed hrun).2.2.2 _ rfl)
  refine ends_bind_get (hgrow.bind ?_)
  rintro _ t - ⟨ht, hsize⟩
  refine ends_modify ⟨⟨?_, ht.settled, ht.scope, ht.slots⟩, rfl⟩
  exact (ht.wellFormed.of_varAt? (t := { t with stack := t.stack.setHeight depth }) (fun _ => rfl)
    (by simp only [OperandStack.setHeight]; omega) (Nat.le_refl _)).1

/-! ## Opening functions -/

/-- The locals of a function are declared under names that are free, and are as wide as their types
say. -/
theorem State.Sound.ends_declareLocals (hs : s.Sound h) {m : Module} (hm : m.Closed) {index : Nat}
    {tokens : List Token} (htokens : ∀ token ∈ tokens, m.Knows token)
    (hfree : ∀ n, index ≤ n → s.scope.contains (.localVar n) = false) :
    Ends (declareLocals m index tokens) s fun vs t =>
      t.Sound h ∧ vs.map (·.bits) = tokens.map fun token => (token.bits : Int) := by
  induction tokens generalizing index s with
  | nil => exact ends_pure ⟨hs, rfl⟩
  | cons token rest ih =>
    obtain ⟨hknown, hrest⟩ := List.forall_mem_cons.mp htokens
    refine (hs.ends_typeOf hm hknown).bind ?_
    rintro type t - ⟨ht, -, -, hscope, -, hsized⟩
    -- A local is declared under its number, which leaves the names of all later locals free.
    have hfree' : t.scope.contains (.localVar index) = false := by
      rw [hscope]
      exact hfree index (Nat.le_refl _)
    refine (ht.ends_declare hfree' (by simp) fun _ h => Option.some.inj h ▸ hsized).bind ?_
    rintro v u - ⟨hu, -, hbits, hothers⟩
    refine (ih hu hrest fun n hn => ?_).bind ?_
    · have hne : VarName.localVar n ≠ .localVar index := by
        intro heq
        have := VarName.localVar.inj heq
        omega
      rw [hothers _ hne, hscope]
      exact hfree n (by omega)
    · rintro vs u' - ⟨hu', hvs⟩
      exact ends_pure ⟨hu', by rw [List.map_cons, List.map_cons, hbits, hvs]⟩

/-- Finding the variables of parameters ends in a sound state. -/
theorem State.Sound.ends_paramVars (hs : s.Sound h) {f : Frame} (hm : f.owner.Closed) {index : Nat}
    {tokens : List Token} (htokens : ∀ token ∈ tokens, f.owner.Knows token) :
    Ends (paramVars f index tokens) s fun _ t => t.Sound h := by
  induction tokens generalizing index s with
  | nil => exact ends_pure hs
  | cons token rest ih =>
    obtain ⟨hknown, hrest⟩ := List.forall_mem_cons.mp htokens
    have hparam : Ends (paramVar f index token) s fun _ t => t.Sound h := by
      refine ends_bind_get ?_
      split
      · exact ends_pure hs
      · -- A parameter that is no local gets a variable of its own.
        rename_i hfind
        refine (hs.ends_typeOf hm hknown).bind ?_
        rintro type t - ⟨ht, -, -, hscope, -, hsized⟩
        have hfree : t.scope.contains (.localVar index) = false := by
          rw [hscope]
          exact Scope.contains_eq_false_of_find? hs.scope hfind
        exact (ht.ends_declare hfree (by simp) fun _ h => Option.some.inj h ▸ hsized).mono
          fun _ _ _ hu => hu.1
    refine hparam.bind fun v t _ ht => (ih ht hrest).bind fun vs u _ hu => ends_pure hu

end

/-! ## Prototypes -/

section

variable {h : Host} {w : Workspace} {m : Module}

/-- A signature of the module is made a prototype. -/
theorem ends_prototypeOf (hm : m.Closed) (hk : m.KnowsAll) (hw : Settled h w)
    {signature : FunctionSignature} (hs : signature ∈ m.functionSignatures.records) :
    Ends (prototypeOf m signature) w fun _ _ => True := by
  obtain ⟨hreturns, hparams⟩ := hk.functions signature hs
  have htypes := (Typing.ends_prototypeOf hm hw.types hparams hreturns).mono fun _ _ _ _ => trivial
  refine (ends_onTypes htypes).bind fun prototype t _ _ => ?_
  split
  · exact ends_bind_of_runs (a := ⟨⟩) (runs_modify.mpr rfl) (ends_pure trivial)
  · exact ends_pure trivial

/-- Providing a callee with a prototype ends. -/
theorem ends_ensurePrototype (hm : m.Closed) (hk : m.KnowsAll) (hw : Settled h w) (number : Nat)
    {signature : FunctionSignature} (hs : signature ∈ m.functionSignatures.records) :
    Ends (ensurePrototype m number signature) w fun _ _ => True := by
  refine ends_bind_get ?_
  split
  · exact (ends_prototypeOf hm hk hw hs).bind fun _ _ _ _ => ends_modify trivial
  · exact ends_pure trivial

/-- All routines of a settled host are given their prototypes. -/
theorem ends_assignPrototypes (hm : m.Closed) (hk : m.KnowsAll) (hw : Settled h w) :
    Ends (assignPrototypes m) w fun _ => Settled h := by
  have one (number : Nat) {w : Workspace} (hw : Settled h w) :
      Ends (assignPrototype m number) w fun _ _ => True := by
    refine ends_bind_get ?_
    split
    · rename_i name _ _ _ _ _
      obtain ⟨found, hfound⟩ := hm.handleNamed? name
      refine ends_bind_ofExcept hfound ?_
      cases found with
      | none => exact ends_pure trivial
      | some e =>
        have he : e.record ∈ m.functionHandles.records := List.mem_map_of_mem (mem_of_findM? hfound)
        obtain ⟨signature, hs, hsignature⟩ := hm.signatureOf he
        exact ends_bind_ofExcept hsignature
          (ends_ensurePrototype hm hk hw number hs)
    · exact ends_pure trivial
  refine ends_bind_get (ends_forM (fun number _ t ht => ?_) hw)
  exact (one number ht).mono fun _ u hrun _ => ((durable_settled h).lasting.assignPrototype m number).of_runs hrun ht

end

end Lift

end MoveBytecode
