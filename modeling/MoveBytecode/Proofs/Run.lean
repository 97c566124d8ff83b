import Mathlib.Data.List.Forall2
import MoveBytecode.Fault

/-!
# Runs

Readers and lifts are computations on a state that may end with a fault. `Runs x s a s'` says that
`x` ends without one; what a `do` block runs to is read off its parts by the lemmas here, so that no
later proof opens the monad. The faults of a block are read off in the same way (`Fails`), also with
the states that they leave (`Stops`), and `Spares P x` says that every fault of `x` satisfies `P`.
Results without a state are treated alike.
-/

namespace MoveBytecode

variable {ε σ α β : Type}

/-- How a computation ends from a state, and the state that it leaves. -/
def outcome (x : ExceptT ε (StateM σ) α) (s : σ) : Except ε α × σ := x.run.run s

/-- From `s` the computation ends without a fault, with the value `a` and in the state `s'`. -/
def Runs (x : ExceptT ε (StateM σ) α) (s : σ) (a : α) (s' : σ) : Prop :=
  outcome x s = (.ok a, s')

/-- From `s` the computation ends with the fault. -/
def Fails (x : ExceptT ε (StateM σ) α) (s : σ) (fault : ε) : Prop :=
  (outcome x s).1 = .error fault

/-- From `s` the computation ends with the fault and in the state `s'`. -/
def Stops (x : ExceptT ε (StateM σ) α) (s : σ) (fault : ε) (s' : σ) : Prop :=
  outcome x s = (.error fault, s')

/-- From every state, a computation that ends with a fault ends with one that satisfies `P`. -/
def Spares (P : ε → Prop) (x : ExceptT ε (StateM σ) α) : Prop :=
  ∀ s fault s', outcome x s = (.error fault, s') → P fault

/-! ## Outcomes -/

/-- A value is returned in the state that it is returned from. -/
theorem outcome_pure (a : α) (s : σ) :
    outcome (pure a : ExceptT ε (StateM σ) α) s = (.ok a, s) := rfl

/-- A fault is thrown in the state that it is thrown from. -/
theorem outcome_throw (e : ε) (s : σ) :
    outcome (throw e : ExceptT ε (StateM σ) α) s = (.error e, s) := rfl

/-- Reading the state gives the state and leaves it. -/
theorem outcome_get (s : σ) :
    outcome (get : ExceptT ε (StateM σ) σ) s = (.ok s, s) := rfl

/-- Writing the state leaves what is written. -/
theorem outcome_set (s t : σ) :
    outcome (set t : ExceptT ε (StateM σ) PUnit) s = (.ok ⟨⟩, t) := rfl

/-- Changing the state leaves what the change makes of it. -/
theorem outcome_modify (f : σ → σ) (s : σ) :
    outcome (modify f : ExceptT ε (StateM σ) PUnit) s = (.ok ⟨⟩, f s) := rfl

/-- The outcome of a sequence is that of the rest from where the first part ends, or its fault. -/
theorem outcome_bind (x : ExceptT ε (StateM σ) α) (f : α → ExceptT ε (StateM σ) β) (s : σ) :
    outcome (x >>= f) s = match outcome x s with
      | (.ok a, s') => outcome (f a) s'
      | (.error e, s') => (.error e, s') := by
  simp only [outcome, ExceptT.run_bind, StateT.run_bind]
  change (match (outcome x s).1 with
    | .ok a => StateT.run (f a).run
    | .error e => StateT.run (pure (.error e))) (outcome x s).2 = _
  change _ = match outcome x s with
      | (.ok a, s') => outcome (f a) s'
      | (.error e, s') => (.error e, s')
  rcases h : outcome x s with ⟨_ | _, _⟩
  · rfl
  · rfl

/-- The outcome with a handler is that of the computation, or that of the handler from where it
stopped. -/
theorem outcome_tryCatch (x : ExceptT ε (StateM σ) α) (handler : ε → ExceptT ε (StateM σ) α)
    (s : σ) :
    outcome (tryCatch x handler) s = match outcome x s with
      | (.ok a, s') => (.ok a, s')
      | (.error e, s') => outcome (handler e) s' := by
  have h : outcome (tryCatch x handler) s = (match (outcome x s).1 with
      | .ok a => fun s' => (Except.ok a, s')
      | .error e => outcome (handler e)) (outcome x s).2 := rfl
  rw [h]
  rcases outcome x s with ⟨_ | _, _⟩
  · rfl
  · rfl

/-! ## Runs of the parts of a `do` block -/

/-- A computation has at most one value and one final state. -/
theorem Runs.unique {x : ExceptT ε (StateM σ) α} {s s' t' : σ} {a b : α} (h : Runs x s a s')
    (k : Runs x s b t') : a = b ∧ s' = t' := by
  unfold Runs at h k
  rw [h] at k
  simpa using k

/-- Returning a value ends with it, in the same state. -/
@[simp] theorem runs_pure {s s' : σ} {a b : α} :
    Runs (pure a : ExceptT ε (StateM σ) α) s b s' ↔ a = b ∧ s = s' := by
  simp [Runs, outcome_pure]

/-- A sequence ends where its first part ends and the rest ends from there. -/
@[simp] theorem runs_bind {x : ExceptT ε (StateM σ) α} {f : α → ExceptT ε (StateM σ) β}
    {s s'' : σ} {b : β} :
    Runs (x >>= f) s b s'' ↔ ∃ a s', Runs x s a s' ∧ Runs (f a) s' b s'' := by
  simp only [Runs, outcome_bind]
  rcases outcome x s with ⟨_ | a, s'⟩
  · simp
  · simp [and_assoc]

/-- Throwing a fault never ends with a value. -/
@[simp] theorem not_runs_throw {e : ε} {s s' : σ} {a : α} :
    ¬ Runs (throw e : ExceptT ε (StateM σ) α) s a s' := by
  simp [Runs, outcome_throw]

/-- Reading the state ends with it, in the same state. -/
@[simp] theorem runs_get {s s' a : σ} :
    Runs (get : ExceptT ε (StateM σ) σ) s a s' ↔ s = a ∧ s = s' := by
  simp [Runs, outcome_get]

/-- Writing the state ends in the state that is written. -/
@[simp] theorem runs_set {s s' t : σ} {u : PUnit} :
    Runs (set t : ExceptT ε (StateM σ) PUnit) s u s' ↔ t = s' := by
  simp [Runs, outcome_set]

/-- Changing the state ends in the changed state. -/
@[simp] theorem runs_modify {f : σ → σ} {s s' : σ} {u : PUnit} :
    Runs (modify f : ExceptT ε (StateM σ) PUnit) s u s' ↔ f s = s' := by
  simp [Runs, outcome_modify]

/-- Where a computation with a handler ends, it ended itself or its handler did. -/
theorem runs_tryCatch {x : ExceptT ε (StateM σ) α} {handler : ε → ExceptT ε (StateM σ) α}
    {s s' : σ} {a : α} :
    Runs (tryCatch x handler) s a s' ↔
      Runs x s a s' ∨ ∃ e t, outcome x s = (.error e, t) ∧ Runs (handler e) t a s' := by
  simp only [Runs, outcome_tryCatch]
  rcases outcome x s with ⟨e | b, t⟩
  · simp [and_assoc]
  · simp

/-! ## Faults of the parts of a `do` block -/

/-- A computation either ends with a value or fails. -/
theorem runs_or_fails (x : ExceptT ε (StateM σ) α) (s : σ) :
    (∃ a s', Runs x s a s') ∨ ∃ fault, Fails x s fault := by
  unfold Runs Fails
  rcases outcome x s with ⟨e | a, s'⟩
  · exact .inr ⟨e, rfl⟩
  · exact .inl ⟨a, s', rfl⟩

/-- A computation that ends with a value does not fail. -/
theorem Runs.not_fails {x : ExceptT ε (StateM σ) α} {s s' : σ} {a : α} {fault : ε}
    (h : Runs x s a s') : ¬ Fails x s fault := by
  simp [Fails, show outcome x s = (.ok a, s') from h]

/-- Returning a value does not fail. -/
@[simp] theorem not_fails_pure {s : σ} {a : α} {fault : ε} :
    ¬ Fails (pure a : ExceptT ε (StateM σ) α) s fault := by
  simp [Fails, outcome_pure]

/-- Throwing a fault fails with it. -/
@[simp] theorem fails_throw {e : ε} {s : σ} {fault : ε} :
    Fails (throw e : ExceptT ε (StateM σ) α) s fault ↔ e = fault := by
  simp [Fails, outcome_throw]

/-- Reading the state does not fail. -/
@[simp] theorem not_fails_get {s : σ} {fault : ε} :
    ¬ Fails (get : ExceptT ε (StateM σ) σ) s fault := by
  simp [Fails, outcome_get]

/-- Writing the state does not fail. -/
@[simp] theorem not_fails_set {s t : σ} {fault : ε} :
    ¬ Fails (set t : ExceptT ε (StateM σ) PUnit) s fault := by
  simp [Fails, outcome_set]

/-- The first part fails, or it runs and the second part fails. -/
theorem fails_bind {x : ExceptT ε (StateM σ) α} {f : α → ExceptT ε (StateM σ) β} {s : σ} {fault : ε} :
    Fails (x >>= f) s fault ↔ Fails x s fault ∨ ∃ a s', Runs x s a s' ∧ Fails (f a) s' fault := by
  simp only [Runs, Fails, outcome_bind]
  rcases outcome x s with ⟨_ | a, s'⟩
  · simp
  · simp

/-- A computation that fails stops in some state, and the other way round. -/
theorem fails_iff_stops {x : ExceptT ε (StateM σ) α} {s : σ} {fault : ε} :
    Fails x s fault ↔ ∃ s', Stops x s fault s' := by
  unfold Fails Stops
  rcases outcome x s with ⟨_ | a, s'⟩
  · simp
  · simp

/-- Returning a value does not stop with a fault. -/
@[simp] theorem not_stops_pure {s s' : σ} {a : α} {fault : ε} :
    ¬ Stops (pure a : ExceptT ε (StateM σ) α) s fault s' := by
  simp [Stops, outcome_pure]

/-- Throwing a fault stops with it, in the same state. -/
@[simp] theorem stops_throw {e : ε} {s s' : σ} {fault : ε} :
    Stops (throw e : ExceptT ε (StateM σ) α) s fault s' ↔ e = fault ∧ s = s' := by
  simp [Stops, outcome_throw]

/-- Reading the state does not stop with a fault. -/
@[simp] theorem not_stops_get {s s' : σ} {fault : ε} :
    ¬ Stops (get : ExceptT ε (StateM σ) σ) s fault s' := by
  simp [Stops, outcome_get]

/-- Writing the state does not stop with a fault. -/
@[simp] theorem not_stops_set {s s' t : σ} {fault : ε} :
    ¬ Stops (set t : ExceptT ε (StateM σ) PUnit) s fault s' := by
  simp [Stops, outcome_set]

/-- The first part stops, or it runs and the second part stops. -/
theorem stops_bind {x : ExceptT ε (StateM σ) α} {f : α → ExceptT ε (StateM σ) β} {s s'' : σ}
    {fault : ε} :
    Stops (x >>= f) s fault s'' ↔
      Stops x s fault s'' ∨ ∃ a s', Runs x s a s' ∧ Stops (f a) s' fault s'' := by
  simp only [Runs, Stops, outcome_bind]
  rcases outcome x s with ⟨_ | a, s'⟩
  · simp
  · simp

/-- If the first part of a sequence ends, the outcome is that of the rest from there. -/
theorem outcome_bind_of_runs {x : ExceptT ε (StateM σ) α} {f : α → ExceptT ε (StateM σ) β}
    {s t : σ} {a : α} (hx : Runs x s a t) : outcome (x >>= f) s = outcome (f a) t := by
  rw [outcome_bind, show outcome x s = (.ok a, t) from hx]

/-- If the first part of a sequence stops with a fault, so does the sequence. -/
theorem outcome_bind_of_error {x : ExceptT ε (StateM σ) α} {f : α → ExceptT ε (StateM σ) β}
    {s t : σ} {e : ε} (hx : outcome x s = (.error e, t)) : outcome (x >>= f) s = (.error e, t) := by
  rw [outcome_bind, hx]

/-! ## Results without a state -/

/-- A sequence of results has a value iff the first has one and what follows it has. -/
theorem bind_eq_ok {x : Except ε α} {f : α → Except ε β} {b : β} :
    x >>= f = .ok b ↔ ∃ a, x = .ok a ∧ f a = .ok b := by
  cases x with
  | error e => simp [bind, Except.bind]
  | ok a => simp [bind, Except.bind]

/-- A returned value is the value of the result. -/
@[simp] theorem pure_eq_ok {a b : α} : (pure a : Except ε α) = .ok b ↔ a = b := by
  simp [pure, Except.pure]

/-- A thrown fault is not a value. -/
@[simp] theorem throw_ne_ok {e : ε} {a : α} : (throw e : Except ε α) ≠ .ok a := by
  simp [throw, throwThe, MonadExceptOf.throw]

/-- A list is mapped without a fault to a list iff each element is mapped to the one at its
place. -/
theorem mapM_eq_ok {f : α → Except ε β} {l : List α} {bs : List β} :
    l.mapM f = .ok bs ↔ List.Forall₂ (fun a b => f a = .ok b) l bs := by
  induction l generalizing bs with
  | nil => simp [pure, Except.pure, eq_comm]
  | cons a rest ih =>
    rw [List.mapM_cons, List.forall₂_cons_left_iff, bind_eq_ok]
    constructor
    · rintro ⟨b, hb, h⟩
      obtain ⟨cs, hcs, h⟩ := bind_eq_ok.mp h
      exact ⟨b, cs, hb, ih.mp hcs, (pure_eq_ok.mp h).symm⟩
    · rintro ⟨b, cs, hb, hcs, rfl⟩
      exact ⟨b, hb, bind_eq_ok.mpr ⟨cs, ih.mpr hcs, pure_eq_ok.mpr rfl⟩⟩

/-- Each value in a list of results comes from an element of the list that was mapped. -/
theorem exists_of_mem_mapM {f : α → Except ε β} {l : List α} {bs : List β} {b : β}
    (h : l.mapM f = .ok bs) (hb : b ∈ bs) : ∃ a ∈ l, f a = .ok b := by
  rw [mapM_eq_ok] at h
  induction h with
  | nil => simp at hb
  | cons hab _ ih =>
    rcases List.mem_cons.mp hb with rfl | hb
    · exact ⟨_, List.mem_cons_self, hab⟩
    · obtain ⟨a, ha, hfa⟩ := ih hb
      exact ⟨a, List.mem_cons_of_mem _ ha, hfa⟩

/-- What `φ` sees of the results of a list is what it sees of those of the elements. -/
theorem map_mapM_congr {γ : Type} {f g : α → Except ε β} {φ : β → γ}
    (h : ∀ a, φ <$> f a = φ <$> g a) (l : List α) :
    List.map φ <$> l.mapM f = List.map φ <$> l.mapM g := by
  induction l with
  | nil => rfl
  | cons a rest ih =>
    have hcons (k : α → Except ε β) : List.map φ <$> (a :: rest).mapM k =
        (φ <$> k a) >>= fun c => (c :: ·) <$> (List.map φ <$> rest.mapM k) := by
      rw [List.mapM_cons, map_bind, bind_map_left]
      refine bind_congr fun b => ?_
      simp
    rw [hcons f, hcons g, h, ih]

/-- What each step of a fold keeps, the fold keeps. -/
theorem foldlM_invariant {f : β → α → Except ε β} {I : β → Prop} {l : List α}
    (hstep : ∀ a ∈ l, ∀ b b', f b a = .ok b' → I b → I b') {b b' : β} (h : l.foldlM f b = .ok b')
    (hb : I b) : I b' := by
  induction l generalizing b with
  | nil =>
    obtain rfl := pure_eq_ok.mp h
    exact hb
  | cons a rest ih =>
    rw [List.foldlM_cons] at h
    obtain ⟨c, hc, h⟩ := bind_eq_ok.mp h
    exact ih (fun a ha => hstep a (List.mem_cons_of_mem _ ha)) h
      (hstep a List.mem_cons_self b c hc hb)

/-- A fold that maps each element and changes what `R` relates its states to by the values does so
with the list of the values. -/
theorem exists_mapM_of_foldlM {γ δ : Type} {step : β → α → Except ε β} {f : α → Except ε γ}
    {R : β → δ → Prop} {g : δ → γ → δ}
    (hstep : ∀ b a b' d, step b a = .ok b' → R b d → ∃ c, f a = .ok c ∧ R b' (g d c)) {l : List α}
    {b b' : β} {d : δ} (h : l.foldlM step b = .ok b') (hb : R b d) :
    ∃ cs, l.mapM f = .ok cs ∧ R b' (cs.foldl g d) := by
  induction l generalizing b d with
  | nil =>
    obtain rfl := pure_eq_ok.mp h
    exact ⟨[], rfl, hb⟩
  | cons a rest ih =>
    rw [List.foldlM_cons] at h
    obtain ⟨b₁, hb₁, h⟩ := bind_eq_ok.mp h
    obtain ⟨c, hc, hd⟩ := hstep b a b₁ d hb₁ hb
    obtain ⟨cs, hcs, hd'⟩ := ih h hd
    refine ⟨c :: cs, ?_, hd'⟩
    rw [List.mapM_cons]
    exact bind_eq_ok.mpr ⟨c, hc, bind_eq_ok.mpr ⟨cs, hcs, rfl⟩⟩

/-- A result seen as an option is a value iff the result is. -/
theorem toOption_eq_some {x : Except ε α} {a : α} : x.toOption = some a ↔ x = .ok a := by
  cases x with
  | error e => simp [Except.toOption]
  | ok b => simp [Except.toOption]

/-- A result that passes a check is no fault. -/
theorem exists_of_any_toOption {x : Except ε α} {check : α → Bool}
    (h : x.toOption.any check = true) : ∃ a, x = .ok a ∧ check a = true := by
  cases x with
  | error e => simp [Except.toOption] at h
  | ok a => exact ⟨a, rfl, h⟩

/-- A result that is no fault. -/
def Answers (x : Except ε α) : Prop := ∃ a, x = .ok a

/-- A value is no fault. -/
theorem answers_ok (a : α) : Answers (.ok a : Except ε α) := ⟨a, rfl⟩

/-- A returned value is no fault. -/
theorem answers_pure (a : α) : Answers (pure a : Except ε α) := ⟨a, rfl⟩

/-- A sequence of results is no fault if its parts are none. -/
theorem Answers.bind {x : Except ε α} {f : α → Except ε β} (hx : Answers x)
    (hf : ∀ a, x = .ok a → Answers (f a)) : Answers (x >>= f) := by
  obtain ⟨a, ha⟩ := hx
  obtain ⟨b, hb⟩ := hf a ha
  exact ⟨b, bind_eq_ok.mpr ⟨a, ha, hb⟩⟩

/-- A sequence whose first value is known is no fault if what follows it is none. -/
theorem answers_bind_of_ok {x : Except ε α} {f : α → Except ε β} {a : α} (hx : x = .ok a)
    (hf : Answers (f a)) : Answers (x >>= f) := by
  refine Answers.bind ⟨a, hx⟩ fun b hb => ?_
  obtain rfl := Except.ok.inj (hx.symm.trans hb)
  exact hf

/-- A list is mapped without a fault if each of its elements is. -/
theorem answers_mapM {f : α → Except ε β} {l : List α} (h : ∀ a ∈ l, Answers (f a)) :
    Answers (l.mapM f) := by
  induction l with
  | nil => exact answers_pure []
  | cons a rest ih =>
    rw [List.mapM_cons]
    refine (h a List.mem_cons_self).bind fun b _ => ?_
    exact (ih fun a ha => h a (List.mem_cons_of_mem _ ha)).bind fun bs _ => answers_pure _

/-- A list fails at the first of its members that does. -/
theorem mapM_eq_error {f : α → Except ε β} {l : List α} {e : ε} :
    l.mapM f = .error e ↔ ∃ before a after, l = before ++ a :: after ∧
      (∀ b ∈ before, Answers (f b)) ∧ f a = .error e := by
  induction l with
  | nil => simp [pure, Except.pure]
  | cons a rest ih =>
    rw [List.mapM_cons]
    cases hfa : f a with
    | error fault =>
      -- The head fails, so that nothing can stand before the failure.
      change (Except.error fault : Except ε (List β)) = .error e ↔ _
      constructor
      · intro h
        obtain rfl := Except.error.inj h
        exact ⟨[], a, rest, rfl, by simp, hfa⟩
      · rintro ⟨before, b, after, hsplit, hbefore, hb⟩
        cases before with
        | nil =>
          obtain ⟨rfl, -⟩ := List.cons.inj hsplit
          exact congrArg _ (Except.error.inj (hfa.symm.trans hb))
        | cons a' before =>
          obtain ⟨rfl, -⟩ := List.cons.inj hsplit
          obtain ⟨_, hok⟩ := hbefore _ List.mem_cons_self
          simp [hfa] at hok
    | ok b =>
      -- The head answers, so that the failure is one of the rest.
      have hrest : (do let bs ← rest.mapM f; pure (b :: bs) : Except ε (List β)) = .error e ↔
          rest.mapM f = .error e := by
        cases rest.mapM f <;> simp [bind, Except.bind, pure, Except.pure]
      refine hrest.trans (ih.trans ?_)
      constructor
      · rintro ⟨before, a', after, rfl, hbefore, ha'⟩
        exact ⟨a :: before, a', after, rfl, List.forall_mem_cons.mpr ⟨⟨b, hfa⟩, hbefore⟩, ha'⟩
      · rintro ⟨before, a', after, hsplit, hbefore, ha'⟩
        cases before with
        | nil =>
          obtain ⟨rfl, -⟩ := List.cons.inj hsplit
          simp [hfa] at ha'
        | cons _ before =>
          obtain ⟨rfl, rfl⟩ := List.cons.inj hsplit
          exact ⟨before, a', after, rfl, (List.forall_mem_cons.mp hbefore).2, ha'⟩

/-- A search of a list does not fail if the test of none of its elements does. -/
theorem answers_findM? {α : Type} {p : α → Except ε Bool} {l : List α} (h : ∀ a ∈ l, Answers (p a)) :
    Answers (l.findM? p) := by
  induction l with
  | nil => exact answers_pure none
  | cons a rest ih =>
    refine (h a List.mem_cons_self).bind fun b _ => ?_
    cases b with
    | true => exact answers_pure _
    | false => exact ih fun a ha => h a (List.mem_cons_of_mem _ ha)

/-- A search of a list finds the first of its elements that passes the test. -/
theorem exists_of_findM? {α : Type} {p : α → Except ε Bool} {l : List α} {a : α}
    (h : l.findM? p = .ok (some a)) :
    ∃ before after, l = before ++ a :: after ∧ p a = .ok true ∧ ∀ b ∈ before, p b = .ok false := by
  induction l with
  | nil => simp [pure, Except.pure] at h
  | cons b rest ih =>
    obtain ⟨found, hfound, h⟩ := bind_eq_ok.mp h
    cases found with
    | true =>
      obtain rfl := Option.some.inj (pure_eq_ok.mp h)
      exact ⟨[], rest, rfl, hfound, by simp⟩
    | false =>
      obtain ⟨before, after, rfl, ha, hbefore⟩ := ih h
      exact ⟨b :: before, after, rfl, ha, List.forall_mem_cons.mpr ⟨hfound, hbefore⟩⟩

/-- A search of a list that finds nothing has found that none of its elements passes the test. -/
theorem forall_of_findM?_none {α : Type} {p : α → Except ε Bool} {l : List α}
    (h : l.findM? p = .ok none) : ∀ a ∈ l, p a = .ok false := by
  induction l with
  | nil => exact fun a ha => absurd ha List.not_mem_nil
  | cons b rest ih =>
    obtain ⟨found, hfound, h⟩ := bind_eq_ok.mp h
    cases found with
    | true => simp [pure, Except.pure] at h
    | false => exact List.forall_mem_cons.mpr ⟨hfound, ih h⟩

/-- What a search of a list finds is in the list. -/
theorem mem_of_findM? {α : Type} {p : α → Except ε Bool} {l : List α} {a : α}
    (h : l.findM? p = .ok (some a)) : a ∈ l := by
  obtain ⟨before, after, rfl, -⟩ := exists_of_findM? h
  exact List.mem_append_right _ List.mem_cons_self

/-! ## Faults of the parts of a `do` block -/

variable {P : ε → Prop}

/-- Returning a value has no faults that could break `P`. -/
theorem spares_pure (a : α) : Spares P (pure a : ExceptT ε (StateM σ) α) := by
  intro s fault s' h
  simp [outcome_pure] at h

/-- Throwing a fault that satisfies `P` keeps to `P`. -/
theorem spares_throw {e : ε} (h : P e) : Spares P (throw e : ExceptT ε (StateM σ) α) := by
  intro s fault s' k
  simp only [outcome_throw, Prod.mk.injEq, Except.error.injEq] at k
  exact k.1 ▸ h

/-- Reading the state has no faults that could break `P`. -/
theorem spares_get : Spares P (get : ExceptT ε (StateM σ) σ) := by
  intro s fault s' h
  simp [outcome_get] at h

/-- Writing the state has no faults that could break `P`. -/
theorem spares_set (t : σ) : Spares P (set t : ExceptT ε (StateM σ) PUnit) := by
  intro s fault s' h
  simp [outcome_set] at h

/-- Changing the state has no faults that could break `P`. -/
theorem spares_modify (f : σ → σ) : Spares P (modify f : ExceptT ε (StateM σ) PUnit) := by
  intro s fault s' h
  simp [outcome_modify] at h

/-- What follows a computation is given the values that it ends with. -/
theorem spares_bind_of_runs {x : ExceptT ε (StateM σ) α} {f : α → ExceptT ε (StateM σ) β}
    (hx : Spares P x) (hf : ∀ s a s', Runs x s a s' → Spares P (f a)) : Spares P (x >>= f) := by
  intro s fault s' h
  rw [outcome_bind] at h
  rcases hs : outcome x s with ⟨e | a, t⟩
  · simp only [hs, Prod.mk.injEq, Except.error.injEq] at h
    exact h.1 ▸ hx s e t hs
  · simp only [hs] at h
    exact hf s a t hs t fault s' h

/-- The faults of a sequence satisfy `P` if those of its parts do. -/
theorem spares_bind {x : ExceptT ε (StateM σ) α} {f : α → ExceptT ε (StateM σ) β}
    (hx : Spares P x) (hf : ∀ a, Spares P (f a)) : Spares P (x >>= f) :=
  spares_bind_of_runs hx fun _ a _ _ => hf a

/-- The faults of a loop over a list satisfy `P` if those of its body do. -/
theorem spares_forM {f : α → ExceptT ε (StateM σ) PUnit} (hf : ∀ a, Spares P (f a)) (l : List α) :
    Spares P (l.forM f) := by
  induction l with
  | nil => exact spares_pure _
  | cons a rest ih => exact spares_bind (hf a) fun _ => ih

/-- A handler is given the faults of what it handles. -/
theorem spares_tryCatch {x : ExceptT ε (StateM σ) α} {handler : ε → ExceptT ε (StateM σ) α}
    (hx : Spares P x) (hh : ∀ e, P e → Spares P (handler e)) : Spares P (tryCatch x handler) := by
  intro s fault s' h
  rw [outcome_tryCatch] at h
  rcases hs : outcome x s with ⟨e | a, t⟩
  · simp only [hs] at h
    exact hh e (hx s e t hs) t fault s' h
  · simp [hs] at h

/-- The faults of mapping a list satisfy `P` if those of mapping an element do. -/
theorem spares_mapM {f : α → ExceptT ε (StateM σ) β} (hf : ∀ a, Spares P (f a)) (l : List α) :
    Spares P (l.mapM f) := by
  induction l with
  | nil => exact spares_pure _
  | cons a rest ih =>
    rw [List.mapM_cons]
    exact spares_bind (hf a) fun b => spares_bind ih fun bs => spares_pure _

/-- Every fault of a result satisfies `P`. -/
def Raises (P : ε → Prop) (x : Except ε α) : Prop := ∀ fault, x = .error fault → P fault

/-- A value has no faults that could break `P`. -/
theorem raises_ok (a : α) : Raises P (.ok a : Except ε α) := fun _ h => by simp at h

/-- A returned value has no faults that could break `P`. -/
theorem raises_pure (a : α) : Raises P (pure a : Except ε α) := raises_ok a

/-- A fault that satisfies `P` keeps to `P`. -/
theorem raises_error {e : ε} (h : P e) : Raises P (.error e : Except ε α) := by
  rintro fault hfault
  obtain rfl := Except.error.inj hfault
  exact h

/-- A result that is no fault keeps to every `P`. -/
theorem Answers.raises {x : Except ε α} (h : Answers x) : Raises P x := by
  obtain ⟨a, rfl⟩ := h
  exact raises_ok a

/-- The faults of a sequence of results satisfy `P` if those of its parts do. -/
theorem Raises.bind {x : Except ε α} {f : α → Except ε β} (hx : Raises P x)
    (hf : ∀ a, x = .ok a → Raises P (f a)) : Raises P (x >>= f) := by
  cases x with
  | error e => exact fun fault h => hx fault (congrArg Except.error (Except.error.inj h))
  | ok a => exact hf a rfl

/-- The faults of mapping a list to results satisfy `P` if those of each element do. -/
theorem raises_mapM {f : α → Except ε β} {l : List α} (h : ∀ a ∈ l, Raises P (f a)) :
    Raises P (l.mapM f) := by
  induction l with
  | nil => exact raises_pure []
  | cons a rest ih =>
    rw [List.mapM_cons]
    refine (h a List.mem_cons_self).bind fun b _ => ?_
    exact (ih fun a ha => h a (List.mem_cons_of_mem _ ha)).bind fun bs _ => raises_pure _

/-- The faults of a fold satisfy `P` if those of its step do. -/
theorem raises_foldlM {f : β → α → Except ε β} (h : ∀ b a, Raises P (f b a)) (l : List α) (b : β) :
    Raises P (l.foldlM f b) := by
  induction l generalizing b with
  | nil => exact raises_pure b
  | cons a rest ih =>
    rw [List.foldlM_cons]
    exact (h b a).bind fun c _ => ih c

/-- The faults of a computation are those of its results. -/
theorem Spares.raises {x : ExceptT ε (StateM σ) α} (h : Spares P x) (s : σ) :
    Raises P (outcome x s).1 :=
  fun fault hfault => h s fault (outcome x s).2 (Prod.ext hfault rfl)

/-! ## Two results -/

/-- Where `x` ends with a value, `y` ends with one that `R` relates to it. -/
def Follows (R : α → β → Prop) (x : Except ε α) (y : Except ε β) : Prop :=
  ∀ a, x = .ok a → ∃ b, y = .ok b ∧ R a b

/-- Two results that are both faults, or both values that `R` relates. -/
inductive Together (R : α → β → Prop) : Except ε α → Except ε β → Prop
  | faults (e e' : ε) : Together R (.error e) (.error e')
  | values {a : α} {b : β} (h : R a b) : Together R (.ok a) (.ok b)

/-- Two results that follow each other are both faults or both values that `R` relates. -/
theorem together_of_follows {R : α → β → Prop} {S : β → α → Prop} {x : Except ε α} {y : Except ε β}
    (h : Follows R x y) (k : Follows S y x) : Together R x y := by
  cases x with
  | ok a =>
    obtain ⟨b, rfl, hab⟩ := h a rfl
    exact .values hab
  | error e =>
    cases y with
    | error e' => exact .faults e e'
    | ok b =>
      obtain ⟨a, ha, -⟩ := k b rfl
      exact absurd ha (by simp)

/-! ## Values and states that computations end with -/

/-- From `s` a computation ends without a fault, with a value and a state that `Q` holds of. -/
def Ends (x : ExceptT ε (StateM σ) α) (s : σ) (Q : α → σ → Prop) : Prop :=
  ∃ a s', Runs x s a s' ∧ Q a s'

/-- Returning a value ends with whatever holds of the value and the state. -/
theorem ends_pure {a : α} {s : σ} {Q : α → σ → Prop} (h : Q a s) :
    Ends (pure a : ExceptT ε (StateM σ) α) s Q := ⟨a, s, runs_pure.mpr ⟨rfl, rfl⟩, h⟩

/-- Reading the state ends with whatever holds of the state as value and as state. -/
theorem ends_get {s : σ} {Q : σ → σ → Prop} (h : Q s s) :
    Ends (get : ExceptT ε (StateM σ) σ) s Q := ⟨s, s, runs_get.mpr ⟨rfl, rfl⟩, h⟩

/-- Changing the state ends with whatever holds of the changed state. -/
theorem ends_modify {f : σ → σ} {s : σ} {Q : PUnit → σ → Prop} (h : Q ⟨⟩ (f s)) :
    Ends (modify f : ExceptT ε (StateM σ) PUnit) s Q := ⟨⟨⟩, f s, runs_modify.mpr rfl, h⟩

/-- A sequence ends if its first part does, and the rest does from everywhere that the first part
leads. -/
theorem Ends.bind {x : ExceptT ε (StateM σ) α} {f : α → ExceptT ε (StateM σ) β} {s : σ}
    {P : α → σ → Prop} {Q : β → σ → Prop} (hx : Ends x s P)
    (hf : ∀ a s', Runs x s a s' → P a s' → Ends (f a) s' Q) : Ends (x >>= f) s Q := by
  obtain ⟨a, t, ha, hP⟩ := hx
  obtain ⟨b, u, hb, hQ⟩ := hf a t ha hP
  exact ⟨b, u, runs_bind.mpr ⟨a, t, ha, hb⟩, hQ⟩

/-- What holds where a computation ends may be replaced by what follows from it. -/
theorem Ends.mono {x : ExceptT ε (StateM σ) α} {s : σ} {P Q : α → σ → Prop} (hx : Ends x s P)
    (h : ∀ a s', Runs x s a s' → P a s' → Q a s') : Ends x s Q := by
  obtain ⟨a, t, ha, hP⟩ := hx
  exact ⟨a, t, ha, h a t ha hP⟩

/-- What comes first ends in one way, and the rest from there. -/
theorem ends_bind_of_runs {x : ExceptT ε (StateM σ) α} {f : α → ExceptT ε (StateM σ) β} {s t : σ}
    {a : α} {Q : β → σ → Prop} (hx : Runs x s a t) (hf : Ends (f a) t Q) : Ends (x >>= f) s Q := by
  obtain ⟨b, u, hb, hQ⟩ := hf
  exact ⟨b, u, runs_bind.mpr ⟨a, t, hx, hb⟩, hQ⟩

/-- A sequence that first reads the state ends if the rest does with the state. -/
theorem ends_bind_get {f : σ → ExceptT ε (StateM σ) β} {s : σ} {Q : β → σ → Prop}
    (hf : Ends (f s) s Q) : Ends (get >>= f) s Q :=
  ends_bind_of_runs (runs_get.mpr ⟨rfl, rfl⟩) hf

/-- A computation that ends needs no handler. -/
theorem ends_tryCatch_of_runs {x : ExceptT ε (StateM σ) α} {handler : ε → ExceptT ε (StateM σ) α} {s t : σ}
    {a : α} {Q : α → σ → Prop} (hx : Runs x s a t) (ha : Q a t) : Ends (tryCatch x handler) s Q :=
  ⟨a, t, runs_tryCatch.mpr (.inl hx), ha⟩

/-- Where a computation fails, its handler ends in its place. -/
theorem ends_tryCatch_of_error {x : ExceptT ε (StateM σ) α} {handler : ε → ExceptT ε (StateM σ) α}
    {s t : σ} {e : ε} {Q : α → σ → Prop} (hx : outcome x s = (.error e, t))
    (hhandler : Ends (handler e) t Q) : Ends (tryCatch x handler) s Q := by
  obtain ⟨a, u, ha, hQ⟩ := hhandler
  exact ⟨a, u, runs_tryCatch.mpr (.inr ⟨e, t, hx, ha⟩), hQ⟩

/-- A list is mapped to its end if each element is, from every state that the others can leave. -/
theorem ends_mapM {f : α → ExceptT ε (StateM σ) β} {I : σ → Prop} {l : List α} {s : σ}
    (hf : ∀ a ∈ l, ∀ t, I t → Ends (f a) t fun _ => I) (hs : I s) :
    Ends (l.mapM f) s fun _ => I := by
  induction l generalizing s with
  | nil => exact ends_pure hs
  | cons a rest ih =>
    rw [List.mapM_cons]
    refine (hf a List.mem_cons_self s hs).bind fun b t _ ht => ?_
    refine (ih (fun a ha => hf a (List.mem_cons_of_mem _ ha)) ht).bind fun bs u _ hu => ?_
    exact ends_pure hu

/-- A list is mapped to what its elements are mapped to, if that is so from every state that the others can
leave. -/
theorem ends_mapM_map {f : α → ExceptT ε (StateM σ) β} {g : α → β} {I : σ → Prop} {l : List α} {s : σ}
    (hf : ∀ a ∈ l, ∀ t, I t → Ends (f a) t fun b u => b = g a ∧ I u) (hs : I s) :
    Ends (l.mapM f) s fun bs u => bs = l.map g ∧ I u := by
  induction l generalizing s with
  | nil => exact ends_pure ⟨rfl, hs⟩
  | cons a rest ih =>
    rw [List.mapM_cons]
    refine (hf a List.mem_cons_self s hs).bind ?_
    rintro b t - ⟨rfl, ht⟩
    refine (ih (fun a ha => hf a (List.mem_cons_of_mem _ ha)) ht).bind ?_
    rintro bs u - ⟨rfl, hu⟩
    exact ends_pure ⟨rfl, hu⟩

/-- A loop over a list ends and keeps an invariant that its body keeps. -/
theorem ends_forM {f : α → ExceptT ε (StateM σ) PUnit} {I : σ → Prop} {l : List α} {s : σ}
    (hf : ∀ a ∈ l, ∀ t, I t → Ends (f a) t fun _ => I) (hs : I s) :
    Ends (l.forM f) s fun _ => I := by
  induction l generalizing s with
  | nil => exact ends_pure hs
  | cons a rest ih =>
    refine (hf a List.mem_cons_self s hs).bind fun _ t _ ht => ?_
    exact ih (fun a ha => hf a (List.mem_cons_of_mem _ ha)) ht

/-! ## What a computation keeps -/

/-- However it ends, a computation keeps what holds of a state. -/
def Preserves (I : σ → Prop) (x : ExceptT ε (StateM σ) α) : Prop := ∀ s, I s → I (outcome x s).2

variable {I : σ → Prop}

/-- An invariant that is preserved holds where the computation ends. -/
theorem Preserves.of_runs {x : ExceptT ε (StateM σ) α} (hx : Preserves I x) {s s' : σ} {a : α}
    (h : Runs x s a s') (hs : I s) : I s' := by
  have hs' := hx s hs
  rwa [show outcome x s = (.ok a, s') from h] at hs'

/-- Returning a value preserves every invariant. -/
theorem preserves_pure (a : α) : Preserves I (pure a : ExceptT ε (StateM σ) α) := fun _ h => h

/-- Throwing a fault preserves every invariant. -/
theorem preserves_throw (e : ε) : Preserves I (throw e : ExceptT ε (StateM σ) α) := fun _ h => h

/-- Reading the state preserves every invariant. -/
theorem preserves_get : Preserves I (get : ExceptT ε (StateM σ) σ) := fun _ h => h

/-- Changing the state preserves an invariant that the change does. -/
theorem preserves_modify {f : σ → σ} (h : ∀ s, I s → I (f s)) :
    Preserves I (modify f : ExceptT ε (StateM σ) PUnit) := h

/-- A sequence preserves what its parts preserve. -/
theorem Preserves.bind {x : ExceptT ε (StateM σ) α} {f : α → ExceptT ε (StateM σ) β}
    (hx : Preserves I x) (hf : ∀ a, Preserves I (f a)) : Preserves I (x >>= f) := by
  intro s hs
  have ht := hx s hs
  rw [outcome_bind]
  rcases h : outcome x s with ⟨e | a, t⟩
  · rwa [h] at ht
  · rw [h] at ht
    exact hf a t ht

/-- A computation with a handler preserves what both preserve. -/
theorem Preserves.tryCatch {x : ExceptT ε (StateM σ) α} {handler : ε → ExceptT ε (StateM σ) α}
    (hx : Preserves I x) (hh : ∀ e, Preserves I (handler e)) :
    Preserves I (tryCatch x handler) := by
  intro s hs
  have ht := hx s hs
  rw [outcome_tryCatch]
  rcases h : outcome x s with ⟨e | a, t⟩
  · rw [h] at ht
    exact hh e t ht
  · rwa [h] at ht

/-- A loop over a list preserves what its body does. -/
theorem preserves_forM {f : α → ExceptT ε (StateM σ) PUnit} (hf : ∀ a, Preserves I (f a))
    (l : List α) : Preserves I (l.forM f) := by
  induction l with
  | nil => exact preserves_pure _
  | cons a rest ih => exact (hf a).bind fun _ => ih

/-- Mapping a list preserves what mapping an element does. -/
theorem preserves_mapM {f : α → ExceptT ε (StateM σ) β} (hf : ∀ a, Preserves I (f a))
    (l : List α) : Preserves I (l.mapM f) := by
  induction l with
  | nil => exact preserves_pure _
  | cons a rest ih =>
    rw [List.mapM_cons]
    exact (hf a).bind fun b => ih.bind fun bs => preserves_pure _

/-- Where a list is mapped, each element is mapped in a state of which the invariant holds. -/
theorem Preserves.forall₂_of_runs_mapM {f : α → ExceptT ε (StateM σ) β} (hf : ∀ a, Preserves I (f a))
    {l : List α} {bs : List β} {s s' : σ} (hs : I s) (h : Runs (l.mapM f) s bs s') :
    List.Forall₂ (fun a b => ∃ t t', I t ∧ Runs (f a) t b t') l bs := by
  induction l generalizing s bs with
  | nil =>
    obtain ⟨rfl, -⟩ := runs_pure.mp h
    exact .nil
  | cons a rest ih =>
    rw [List.mapM_cons] at h
    obtain ⟨b, t, hb, h⟩ := runs_bind.mp h
    obtain ⟨cs, u, hcs, h⟩ := runs_bind.mp h
    obtain ⟨rfl, rfl⟩ := runs_pure.mp h
    exact .cons ⟨s, t, hs, hb⟩ (ih ((hf a).of_runs hb hs) hcs)

/-! ## What a computation leaves as it is -/

/-- However it ends, a computation leaves what `obs` shows of a state as it is. -/
def Leaves {τ : Type} (obs : σ → τ) (x : ExceptT ε (StateM σ) α) : Prop :=
  ∀ s, obs (outcome x s).2 = obs s

variable {τ : Type} {obs : σ → τ}

/-- What is left alone is the same where the computation ends. -/
theorem Leaves.of_runs {x : ExceptT ε (StateM σ) α} (hx : Leaves obs x) {s s' : σ} {a : α}
    (h : Runs x s a s') : obs s' = obs s := by
  have hobs := hx s
  rwa [show outcome x s = (.ok a, s') from h] at hobs

/-- What is left as it is is one property for each value of what is shown. -/
theorem leaves_iff_preserves {x : ExceptT ε (StateM σ) α} :
    Leaves obs x ↔ ∀ c, Preserves (fun s => obs s = c) x := by
  constructor
  · rintro h _ s rfl
    exact h s
  · exact fun h s => h (obs s) s rfl

/-- Returning a value leaves everything alone. -/
theorem leaves_pure (a : α) : Leaves obs (pure a : ExceptT ε (StateM σ) α) := fun _ => rfl

/-- Throwing a fault leaves everything alone. -/
theorem leaves_throw (e : ε) : Leaves obs (throw e : ExceptT ε (StateM σ) α) := fun _ => rfl

/-- Reading the state leaves everything alone. -/
theorem leaves_get : Leaves obs (get : ExceptT ε (StateM σ) σ) := fun _ => rfl

/-- Changing the state leaves alone what the change does. -/
theorem leaves_modify {f : σ → σ} (h : ∀ s, obs (f s) = obs s) :
    Leaves obs (modify f : ExceptT ε (StateM σ) PUnit) := h

/-- A sequence leaves alone what its parts do. -/
theorem Leaves.bind {x : ExceptT ε (StateM σ) α} {f : α → ExceptT ε (StateM σ) β}
    (hx : Leaves obs x) (hf : ∀ a, Leaves obs (f a)) : Leaves obs (x >>= f) :=
  leaves_iff_preserves.mpr fun c =>
    (leaves_iff_preserves.mp hx c).bind fun a => leaves_iff_preserves.mp (hf a) c

/-- A loop over a list leaves alone what its body does. -/
theorem leaves_forM {f : α → ExceptT ε (StateM σ) PUnit} (hf : ∀ a, Leaves obs (f a))
    (l : List α) : Leaves obs (l.forM f) :=
  leaves_iff_preserves.mpr fun c => preserves_forM (fun a => leaves_iff_preserves.mp (hf a) c) l

/-- Mapping a list leaves alone what mapping an element does. -/
theorem leaves_mapM {f : α → ExceptT ε (StateM σ) β} (hf : ∀ a, Leaves obs (f a)) (l : List α) :
    Leaves obs (l.mapM f) :=
  leaves_iff_preserves.mpr fun c => preserves_mapM (fun a => leaves_iff_preserves.mp (hf a) c) l

/-- Where a list is mapped, each element is mapped in a state that shows what the first one shows. -/
theorem forall₂_of_runs_mapM {f : α → ExceptT ε (StateM σ) β} (hf : ∀ a, Leaves obs (f a))
    {l : List α} {bs : List β} {s s' : σ} (h : Runs (l.mapM f) s bs s') :
    List.Forall₂ (fun a b => ∃ t t', obs t = obs s ∧ Runs (f a) t b t') l bs :=
  Preserves.forall₂_of_runs_mapM (fun a => leaves_iff_preserves.mp (hf a) (obs s)) rfl h

/-! ## Runs from related states -/

/-- From states that `R` relates a computation ends in the same way, and in states that `R` relates. -/
def Respects (R : σ → σ → Prop) (x : ExceptT ε (StateM σ) α) : Prop :=
  ∀ s t, R s t → (outcome x s).1 = (outcome x t).1 ∧ R (outcome x s).2 (outcome x t).2

variable {R : σ → σ → Prop}

/-- Returning a value respects every relation of states. -/
theorem respects_pure (a : α) : Respects R (pure a : ExceptT ε (StateM σ) α) := fun _ _ h => ⟨rfl, h⟩

/-- Throwing a fault respects every relation of states. -/
theorem respects_throw (e : ε) : Respects R (throw e : ExceptT ε (StateM σ) α) := fun _ _ h => ⟨rfl, h⟩

/-- Changing the state respects a relation that the change does. -/
theorem respects_modify {f : σ → σ} (h : ∀ s t, R s t → R (f s) (f t)) :
    Respects R (modify f : ExceptT ε (StateM σ) PUnit) := fun s t hst => ⟨rfl, h s t hst⟩

/-- What is done with a state may only depend on what related states have in common. -/
theorem respects_look {f : σ → ExceptT ε (StateM σ) α} (hlook : ∀ s t, R s t → f s = f t)
    (hf : ∀ s, Respects R (f s)) : Respects R (get >>= f) := by
  intro s t hst
  rw [outcome_bind, outcome_bind, outcome_get, outcome_get]
  dsimp only
  rw [hlook s t hst]
  exact hf t s t hst

/-- Runs from related states end with the same fault or the same value. -/
theorem Respects.outcomes {x : ExceptT ε (StateM σ) α} (hx : Respects R x) {s t : σ} (hst : R s t) :
    ∃ result s' t', outcome x s = (result, s') ∧ outcome x t = (result, t') ∧ R s' t' := by
  obtain ⟨hresult, hstates⟩ := hx s t hst
  exact ⟨(outcome x s).1, (outcome x s).2, (outcome x t).2, rfl, Prod.ext hresult.symm rfl, hstates⟩

/-- A sequence respects a relation that its parts do. -/
theorem Respects.bind {x : ExceptT ε (StateM σ) α} {f : α → ExceptT ε (StateM σ) β}
    (hx : Respects R x) (hf : ∀ a, Respects R (f a)) : Respects R (x >>= f) := by
  intro s t hst
  obtain ⟨result, s', t', hs, ht, hstates⟩ := hx.outcomes hst
  rw [outcome_bind, outcome_bind, hs, ht]
  cases result with
  | error e => exact ⟨rfl, hstates⟩
  | ok a => exact hf a s' t' hstates

/-- Mapping a list respects a relation that mapping an element does. -/
theorem respects_mapM {f : α → ExceptT ε (StateM σ) β} (hf : ∀ a, Respects R (f a)) (l : List α) :
    Respects R (l.mapM f) := by
  induction l with
  | nil => exact respects_pure _
  | cons a rest ih =>
    rw [List.mapM_cons]
    exact (hf a).bind fun b => ih.bind fun bs => respects_pure _

/-- A computation with a handler respects a relation that both do. -/
theorem Respects.tryCatch {x : ExceptT ε (StateM σ) α} {handler : ε → ExceptT ε (StateM σ) α}
    (hx : Respects R x) (hh : ∀ e, Respects R (handler e)) : Respects R (tryCatch x handler) := by
  intro s t hst
  obtain ⟨result, s', t', hs, ht, hstates⟩ := hx.outcomes hst
  rw [outcome_tryCatch, outcome_tryCatch, hs, ht]
  cases result with
  | error e => exact hh e s' t' hstates
  | ok a => exact ⟨rfl, hstates⟩

end MoveBytecode
