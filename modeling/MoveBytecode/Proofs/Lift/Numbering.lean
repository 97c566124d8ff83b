import MoveBytecode.Proofs.Lift.Uses

/-!
# The numbers of new variables

A lowering takes values first and puts others then, so what it makes stays on the stack: behind it, the
variables made since are on the stack in the order of their numbers (`State.NumberedFrom`). Takes leave
the counter alone, and puts keep the numbering. The walk over the lowerings shows that no lowering takes
a value again that it has put.
-/

namespace MoveBytecode.Lift

variable {α β : Type}

/-! ## Variables since a number -/

namespace State

variable {s t : State} {c : Nat}

/-- The state is well-formed, and no variable was made since the counter was `c`. -/
structure At (s : State) (c : Nat) : Prop where
  wellFormed : s.WellFormed
  counter : s.counter = c

/-- The variables made since the counter was `c` are on the stack, in the order of their numbers. -/
structure NumberedFrom (s : State) (c : Nat) : Prop where
  wellFormed : s.WellFormed
  le : c ≤ s.counter
  numbers : (stackNumbers s.stack.vars).filter (c ≤ ·) = List.range' c (s.counter - c)

/-- The variables on the stack have numbers below the counter. -/
theorem WellFormed.lt_of_mem_stackNumbers (h : s.WellFormed) {n : Nat}
    (hn : n ∈ stackNumbers s.stack.vars) : n < s.counter := by
  obtain ⟨v, hv, hname⟩ := mem_stackNumbers.mp hn
  obtain ⟨k, hk⟩ := List.mem_iff_getElem?.mp hv
  rw [OperandStack.getElem?_vars] at hk
  split at hk
  · obtain ⟨m, hm, hname'⟩ := h.made k v hk
    obtain rfl := VarName.stackVar.inj (hname.symm.trans hname')
    exact hm
  · simp at hk

/-- Where no variable was made since the counter was `c`, all of them are on the stack. -/
theorem At.numberedFrom (h : s.At c) : s.NumberedFrom c := by
  obtain ⟨h, rfl⟩ := h
  refine ⟨h, Nat.le_refl _, ?_⟩
  rw [Nat.sub_self, List.range'_zero, List.filter_eq_nil_iff]
  intro n hn
  have := h.lt_of_mem_stackNumbers hn
  simp only [decide_eq_true_eq]
  omega

/-- A value is put whose variable is not new. -/
theorem NumberedFrom.concat_old (h : s.NumberedFrom c) (ht : t.WellFormed)
    (hcounter : t.counter = s.counter) {v : Var} (hvars : t.stack.vars = s.stack.vars ++ [v]) :
    t.NumberedFrom c := by
  refine ⟨ht, hcounter ▸ h.le, ?_⟩
  have hold : (stackNumbers [v]).filter (c ≤ ·) = [] := by
    rw [List.filter_eq_nil_iff]
    intro n hn hle
    -- A variable made since is on the stack already, and the values on it have different variables.
    obtain ⟨w, hw, hname⟩ := mem_stackNumbers.mp hn
    obtain rfl := List.mem_singleton.mp hw
    have hlt : n < t.counter := ht.lt_of_mem_stackNumbers (by rw [hvars, stackNumbers_append]; simp [hn])
    have hmem : n ∈ stackNumbers s.stack.vars := by
      have : n ∈ List.range' c (s.counter - c) := by
        rw [List.mem_range'_1]
        simp only [decide_eq_true_eq] at hle
        omega
      rw [← h.numbers] at this
      exact List.mem_of_mem_filter this
    obtain ⟨u, hu, huname⟩ := mem_stackNumbers.mp hmem
    have hnodup := ht.nodup_names
    rw [hvars, List.map_append, List.nodup_append] at hnodup
    exact hnodup.2.2 _ (List.mem_map_of_mem hu) _ (List.mem_singleton_self _) (huname.trans hname.symm)
  rw [hvars, stackNumbers_append, List.filter_append, hold, List.append_nil, h.numbers, hcounter]

/-- A value is put whose variable is new. -/
theorem NumberedFrom.concat_new (h : s.NumberedFrom c) (ht : t.WellFormed)
    (hcounter : t.counter = s.counter + 1) {v : Var} (hname : v.name = .stackVar s.counter)
    (hvars : t.stack.vars = s.stack.vars ++ [v]) : t.NumberedFrom c := by
  have hle := h.le
  refine ⟨ht, by omega, ?_⟩
  have hnew : (stackNumbers [v]).filter (c ≤ ·) = [s.counter] := by
    simp [stackNumbers, VarName.stackNumber?, hname, hle]
  rw [hvars, stackNumbers_append, List.filter_append, hnew, h.numbers, hcounter, Nat.succ_sub hle,
    List.range'_concat]
  congr 2
  omega

end State

/-! ## Takes and puts -/

/-- Where it ends without a fault, a computation leads from states with `I` to states with `J`. -/
def Leads (I J : State → Prop) (x : LiftM α) : Prop :=
  ∀ s a t, Runs x s a t → I s → J t

variable {I J K : State → Prop} {c : Nat}

/-- A sequence leads from the first states to the last ones if its parts do by way of those between. -/
theorem Leads.bind {x : LiftM α} {f : α → LiftM β} (hx : Leads I J x) (hf : ∀ a, Leads J K (f a)) :
    Leads I K (x >>= f) := by
  intro s b u h hs
  obtain ⟨a, t, hrun, h⟩ := runs_bind.mp h
  exact hf a t b u h (hx s a t hrun hs)

/-- A computation that makes no variable. -/
def Takes (x : LiftM α) : Prop := ∀ c, Leads (State.At · c) (State.At · c) x

/-- A computation that puts what it makes onto the stack. -/
def Puts (x : LiftM α) : Prop := ∀ c, Leads (State.NumberedFrom · c) (State.NumberedFrom · c) x

/-- A computation that takes values first and puts others then. -/
def Exchanges (x : LiftM α) : Prop := ∀ c, Leads (State.At · c) (State.NumberedFrom · c) x

/-- A still computation makes no variable. -/
theorem Still.takes {x : LiftM α} (h : Still x) : Takes x := by
  intro c s a t hrun hs
  obtain ⟨hstack, hcounter⟩ := h s _ t hrun
  exact ⟨(hs.wellFormed.congr hstack (by omega)).1, hcounter.trans hs.counter⟩

/-- A still computation puts what it makes, which is nothing. -/
theorem Still.puts {x : LiftM α} (h : Still x) : Puts x := by
  intro c s a t hrun hs
  obtain ⟨hstack, hcounter⟩ := h s _ t hrun
  refine ⟨(hs.wellFormed.congr hstack (by omega)).1, hcounter ▸ hs.le, ?_⟩
  rw [hstack, hcounter]
  exact hs.numbers

/-- A pop makes no variable. -/
theorem takes_pop : Takes pop := by
  rintro _ s v t hrun ⟨hs, rfl⟩
  refine ⟨(orderly_pop.keeps s _ t hrun hs).1, ?_⟩
  rw [Runs, outcome_pop] at hrun
  split at hrun
  · obtain ⟨-, rfl⟩ := Prod.mk.inj hrun
    rfl
  · simp at hrun

/-- A new variable that is stored stands behind those made before. -/
theorem puts_storeNew (bits : Int) (type : Option NativeType) (token : Option Token) :
    Puts (storeNew bits type token) := by
  intro c s v t hrun hs
  have ht := ((orderly_storeNew bits type token).keeps s _ t hrun hs.wellFormed).1
  have hvars := vars_of_storeNew hs.wellFormed hrun
  rcases storeNew_spec hrun with ⟨w, hw, hname, hcounter, -⟩ | ⟨fault, hfault, -⟩
  · obtain rfl := Except.ok.inj hw
    exact hs.concat_new ht hcounter hname hvars
  · simp at hfault

/-- A push puts the variable that it makes. -/
theorem puts_push (f : Frame) (token : Token) : Puts (push f token) := by
  intro c s v t hrun hs
  have ht := ((orderly_push f token).keeps s _ t hrun hs.wellFormed).1
  have hvars := vars_of_push hs.wellFormed hrun
  rw [Runs, outcome_push] at hrun
  split at hrun
  · obtain ⟨-, rfl⟩ := Prod.mk.inj hrun
    exact hs.concat_old ht rfl hvars
  · exact ((still_typeOf f token).puts c).bind (fun _ => puts_storeNew _ _ _ c) s v t hrun hs

/-! ## Lowerings -/

/-- Looks make no variable. -/
theorem looks_takes : Looks fun _ x => Takes x where
  pure a := (still_pure a).takes
  bind hx hf c := (hx c).bind fun a => hf a c
  throw _ := (still_throw _).takes
  look _ hf c := (still_get.takes c).bind fun s => hf s c

/-- Looks put nothing that they do not make. -/
theorem looks_puts : Looks fun _ x => Puts x where
  pure a := (still_pure a).puts
  bind hx hf c := (hx c).bind fun a => hf a c
  throw _ := (still_throw _).puts
  look _ hf c := (still_get.puts c).bind fun s => hf s c

/-- A lowering takes first, where it makes no variable, and then puts what it makes. -/
theorem phases_exchanges (m : Module) :
    Phases m (fun _ x => Takes x) (fun _ x => Puts x) (fun _ x => Exchanges x) where
  takes := looks_takes
  puts := looks_puts
  bind hx hf c := (hx c).bind fun a => hf a c
  last hx c s a t hrun hs := hx c s a t hrun hs.numberedFrom
  pop := takes_pop
  prototype _ {_ _} _ := (still_onHost _).takes
  push {f} token _ := puts_push f token
  pushNative bits type := puts_storeNew bits type none

/-- The variables that a lowering makes are on the stack behind it, in the order of their numbers. -/
theorem numberedFrom_of_runs {f : Frame} {i : Instruction} {address : Int} {s t : State}
    {statements : List Stmt} (hs : s.WellFormed) (h : Runs (lower f i address) s statements t) :
    t.NumberedFrom s.counter :=
  (phases_exchanges f.owner).lower rfl i address s.counter s statements t h ⟨hs, rfl⟩

/-! ## Names in use -/

/-- Which stack variables are in the scope, by number, and how many were made. -/
def State.names (s : State) : (Nat → Bool) × Nat :=
  (fun n => s.scope.contains (.stackVar n), s.counter)

/-- The stack variables in the scope are those with numbers below the counter. -/
def State.Named (s : State) : Prop :=
  ∀ n, s.scope.contains (.stackVar n) = true ↔ n < s.counter

/-- The stack variables in the scope are numbered below the counter as long as both stay the same. -/
theorem State.Named.congr {s t : State} (h : s.Named) (hnames : t.names = s.names) : t.Named := by
  obtain ⟨hscope, hcounter⟩ := Prod.mk.inj hnames
  intro n
  rw [congrFun hscope n, hcounter]
  exact h n

/-- What leaves the names in use alone leaves them numbered below the counter. -/
theorem leads_named_of_leaves {x : LiftM α} (h : Leaves State.names x) :
    Leads State.Named State.Named x :=
  fun _ _ _ hrun hs => hs.congr (h.of_runs hrun)

/-- What is done on the host leaves the names in use alone. -/
theorem leaves_names_onHost (x : HostM α) : Leaves State.names (onHost x) := by
  intro s
  rw [outcome_onHost]
  rfl

/-- A pop leaves the names in use alone. -/
theorem leaves_names_pop : Leaves State.names pop := by
  intro s
  rw [outcome_pop]
  split
  · rfl
  · rfl

/-- Declaring the variable of a local leaves the names of stack variables alone. -/
theorem leaves_names_declare (index : Nat) (bits : Int) (type : Option NativeType) :
    Leaves State.names (declare (.localVar index) bits type) := by
  intro s
  rw [outcome_declare]
  split
  · rfl
  · refine Prod.ext (funext fun n => ?_) rfl
    simp [State.names]

/-- A new variable that is stored has the next number. -/
theorem leads_named_storeNew (bits : Int) (type : Option NativeType) (token : Option Token) :
    Leads State.Named State.Named (storeNew bits type token) := by
  have hnew : Leads State.Named State.Named (newStackVar bits type) := by
    intro s v t hrun hs
    simp only [Runs, newStackVar, outcome_bind, outcome_get, outcome_modify, outcome_declare] at hrun
    split at hrun
    · simp at hrun
    · obtain ⟨-, rfl⟩ := Prod.mk.inj hrun
      intro n
      simp only [Scope.contains_add, Bool.or_eq_true, beq_iff_eq, VarName.stackVar.injEq, hs n]
      omega
  have hstore : ∀ change, Leaves State.names (modifyStack change) := fun _ => leaves_modify fun _ => rfl
  exact hnew.bind fun _ => leads_named_of_leaves ((hstore _).bind fun _ => leaves_pure _)

/-- A push leaves the stack variables numbered below the counter. -/
theorem leads_named_push (f : Frame) (token : Token) : Leads State.Named State.Named (push f token) := by
  intro s v t hrun hs
  rw [Runs, outcome_push] at hrun
  split at hrun
  · obtain ⟨-, rfl⟩ := Prod.mk.inj hrun
    exact hs
  · exact (leads_named_of_leaves (leaves_names_onHost _)).bind
      (fun _ => leads_named_storeNew _ _ _) s v t hrun hs

/-- Being numbered below the counter is a property that composes. -/
theorem composes_named (m : Module) :
    Composes m fun _ x => Leads State.Named State.Named x where
  pure a := leads_named_of_leaves (leaves_pure a)
  bind := Leads.bind
  throw _ := leads_named_of_leaves (leaves_throw _)
  look _ hf := (leads_named_of_leaves leaves_get).bind hf
  push {f} token _ := leads_named_push f token
  pushNative bits type := leads_named_storeNew bits type none
  pop := leads_named_of_leaves leaves_names_pop
  prototype _ {_ _} _ := leads_named_of_leaves (leaves_names_onHost _)

end MoveBytecode.Lift
