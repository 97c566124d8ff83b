import Mathlib.Data.List.Induction
import MoveBytecode.Host.Basic

/-!
# The directory of a host

An address leads to the routine that was registered there last (`Host.Filed`), and a name to the first
routine that an address leads to, in the order in which addresses were first taken. Both depend on the
roster of the host alone: its directory and its routines, prototypes and classes apart.
-/

namespace MoveBytecode

/-- A routine without what work on a host may add to it: its prototype and its class. -/
def Routine.bare (r : Routine) : Routine := { r with prototype := none, parent := none }

/-- Routines that are equal but for their prototypes and classes have the same name. -/
theorem Routine.name_eq_of_bare {r s : Routine} (h : r.bare = s.bare) : r.name = s.name := by
  have hname := congrArg Routine.name h
  exact hname

/-- Routines that are equal but for their prototypes and classes have the same address. -/
theorem Routine.address_eq_of_bare {r s : Routine} (h : r.bare = s.bare) : r.address = s.address := by
  have haddress := congrArg Routine.address h
  exact haddress

namespace Host

/-- The addresses that lead to routines, and the routines, prototypes and classes apart. -/
def roster (h : Host) : List (Int × Nat) × Array Routine := (h.directory, h.routines.map Routine.bare)

/-- What is shown of routines is as it was if it is for the routine that is updated. -/
theorem map_routines_updateRoutine {α : Type} {obs : Routine → α} (h : Host) (number : Nat)
    {f : Routine → Routine} (hf : ∀ r, obs (f r) = obs r) :
    (h.updateRoutine number f).routines.map obs = h.routines.map obs := by
  refine Array.ext_getElem? fun n => ?_
  simp only [updateRoutine, Array.getElem?_map, Array.getElem?_modify]
  split
  · cases h.routines[n]? with
    | none => rfl
    | some r => simp [hf]
  · rfl

/-- Updating the prototype or the class of a routine leaves the roster as it is. -/
theorem roster_updateRoutine (h : Host) (number : Nat) {f : Routine → Routine}
    (hf : ∀ r, (f r).bare = r.bare) : (h.updateRoutine number f).roster = h.roster :=
  Prod.ext rfl (h.map_routines_updateRoutine number hf)

/-! ## What the roster says -/

section

variable {h h' : Host} (hroster : h.roster = h'.roster)

include hroster

/-- Hosts with the same roster have the same addresses that lead to routines. -/
theorem directory_eq : h.directory = h'.directory := congrArg Prod.fst hroster

/-- Hosts with the same roster have as many routines. -/
theorem size_routines_eq : h.routines.size = h'.routines.size := by
  have hsize := congrArg (fun roster => roster.2.size) hroster
  simpa [roster] using hsize

/-- Hosts with the same roster have the same routines, prototypes and classes apart. -/
theorem map_bare_routine? (n : Nat) :
    (h.routine? n).map Routine.bare = (h'.routine? n).map Routine.bare := by
  have hn := congrArg (fun roster => roster.2[n]?) hroster
  simpa [roster, routine?] using hn

/-- The routine of a number is the same, prototype and class apart. -/
theorem exists_routine? {n : Nat} {r : Routine} (hr : h.routine? n = some r) :
    ∃ r', h'.routine? n = some r' ∧ r'.bare = r.bare := by
  have hn := map_bare_routine? hroster n
  rw [hr, Option.map_some, eq_comm, Option.map_eq_some_iff] at hn
  exact hn

/-- A test that looks neither at prototypes nor at classes comes out alike on hosts with the same
roster. -/
theorem any_routine? {p : Routine → Bool} (hp : ∀ r, p r.bare = p r) (n : Nat) :
    (h.routine? n).any p = (h'.routine? n).any p := by
  have hbare : ∀ o : Option Routine, o.any p = (o.map Routine.bare).any p := by
    rintro (_ | r)
    · rfl
    · exact (hp r).symm
  rw [hbare, map_bare_routine? hroster, ← hbare]

/-- Hosts with the same roster have the same routine at an address. -/
theorem routineAt?_eq (address : Int) (internalOnly : Bool) :
    h.routineAt? address internalOnly = h'.routineAt? address internalOnly := by
  have hinternal : ∀ n, (h.routine? n).any (·.internal) = (h'.routine? n).any (·.internal) :=
    any_routine? hroster fun _ => rfl
  simp only [routineAt?, numberAt?, directory_eq hroster, hinternal]

/-- Hosts with the same roster have the same first routine of a name. -/
theorem routineNamed?_eq (name : String) : h.routineNamed? name = h'.routineNamed? name := by
  have hname : ∀ n, (h.routine? n).any (·.name == name) = (h'.routine? n).any (·.name == name) :=
    any_routine? hroster fun _ => rfl
  simp only [routineNamed?, directory_eq hroster, hname]

/-- Hosts with the same roster list the same routines. -/
theorem routineNumbers_eq_of_roster : h.routineNumbers = h'.routineNumbers := by
  rw [routineNumbers, routineNumbers, directory_eq hroster]

/-- Hosts with the same roster list the same internal routines. -/
theorem internalNumbers_eq_of_roster : h.internalNumbers = h'.internalNumbers := by
  have hinternal : ∀ n, (h.routine? n).any (·.internal) = (h'.routine? n).any (·.internal) :=
    any_routine? hroster fun _ => rfl
  simp only [internalNumbers, routineNumbers_eq_of_roster hroster, hinternal]

/-- Adding a routine to hosts with the same roster leaves them with the same roster. -/
theorem roster_addRoutine (r : Routine) : (h.addRoutine r).roster = (h'.addRoutine r).roster := by
  have hroutines : h.routines.map Routine.bare = h'.routines.map Routine.bare :=
    congrArg Prod.snd hroster
  simp only [roster, addRoutine, Array.map_push, directory_eq hroster, size_routines_eq hroster,
    hroutines]

/-- Adding routines to hosts with the same roster leaves them with the same roster. -/
theorem roster_foldl_addRoutine (rs : List Routine) :
    (rs.foldl addRoutine h).roster = (rs.foldl addRoutine h').roster := by
  induction rs generalizing h h' with
  | nil => exact hroster
  | cons r rest ih => exact ih (roster_addRoutine hroster r)

end

/-! ## The order of the addresses -/

/-- The numbers of the routines in the order of the addresses, which are not sorted if they are in order
already. -/
def numbersInOrder (h : Host) : List Nat :=
  if h.directory.Pairwise fun a b => a.1 ≤ b.1 then h.directory.map (·.2) else h.routineNumbers

/-- On a host whose addresses were taken in order, work that goes by the order of the addresses can be
evaluated without sorting. -/
theorem routineNumbers_eq : routineNumbers = numbersInOrder := by
  funext h
  unfold numbersInOrder
  split
  · rename_i hsorted
    rw [routineNumbers, List.mergeSort_of_pairwise (by simpa using hsorted)]
  · rfl

/-- The routines that a host lists are those that an address leads to. -/
theorem mem_routineNumbers {h : Host} {n : Nat} :
    n ∈ h.routineNumbers ↔ ∃ address, (address, n) ∈ h.directory := by
  simp [routineNumbers]

/-- The routine of a number is the last one that was registered at an address. -/
def Resident (h : Host) (address : Int) (number : Nat) : Prop :=
  (∃ r, h.routine? number = some r ∧ r.address = address) ∧
    ∀ later r, number < later → h.routine? later = some r → r.address ≠ address

/-- An address has at most one resident. -/
theorem Resident.unique {h : Host} {address : Int} {m n : Nat} (hm : h.Resident address m)
    (hn : h.Resident address n) : m = n := by
  obtain ⟨⟨r, hr, hraddress⟩, hmlast⟩ := hm
  obtain ⟨⟨s, hs, hsaddress⟩, hnlast⟩ := hn
  rcases Nat.lt_trichotomy m n with hlt | heq | hlt
  · exact absurd hsaddress (hmlast n s hlt hs)
  · exact heq
  · exact absurd hraddress (hnlast m r hlt hr)

/-- Addresses lead to their residents. -/
def Filed (h : Host) : Prop := ∀ address number,
  (address, number) ∈ h.directory ↔ h.Resident address number

/-- After an assignment an address leads to what is assigned to it or to what it led to before. -/
theorem mem_assign {directory : List (Int × Nat)} {address a : Int} {number n : Nat} :
    (a, n) ∈ assign directory address number ↔
      a = address ∧ n = number ∨ a ≠ address ∧ (a, n) ∈ directory := by
  unfold assign
  split
  · rename_i hany
    obtain ⟨⟨b, k⟩, hb, hbaddress⟩ := List.any_eq_true.mp hany
    rw [beq_iff_eq] at hbaddress
    subst hbaddress
    -- The address is taken: its place leads to the new number, and all other places stay.
    constructor
    · intro hmem
      obtain ⟨⟨c, l⟩, hc, hcn⟩ := List.mem_map.mp hmem
      simp only [beq_iff_eq] at hcn
      split at hcn
      · exact .inl ⟨by simp_all, by simp_all⟩
      · obtain ⟨rfl, rfl⟩ := Prod.mk.inj hcn
        exact .inr ⟨‹_›, hc⟩
    · rintro (⟨rfl, rfl⟩ | ⟨hne, hmem⟩)
      · exact List.mem_map.mpr ⟨_, hb, by simp⟩
      · exact List.mem_map.mpr ⟨_, hmem, by simp [hne]⟩
  · rename_i hany
    have hkeys : ∀ k, (address, k) ∉ directory := by
      intro k hk
      exact hany (List.any_eq_true.mpr ⟨_, hk, by simp⟩)
    -- The address is free, so it gets a place behind all others.
    rw [List.mem_append, List.mem_singleton, Prod.mk.injEq]
    constructor
    · rintro (hmem | ⟨rfl, rfl⟩)
      · refine .inr ⟨?_, hmem⟩
        rintro rfl
        exact hkeys n hmem
      · exact .inl ⟨rfl, rfl⟩
    · rintro (⟨rfl, rfl⟩ | ⟨-, hmem⟩)
      · exact .inr ⟨rfl, rfl⟩
      · exact .inl hmem

/-- The routine that is added has the next number; all others keep theirs. -/
theorem routine?_addRoutine (h : Host) (r : Routine) (n : Nat) :
    (h.addRoutine r).routine? n = if n = h.routines.size then some r else h.routine? n := by
  rw [routine?, addRoutine, Array.getElem?_push]
  rfl

/-- The number of a routine is below the number of routines. -/
theorem lt_size_of_routine? {h : Host} {n : Nat} {r : Routine} (hr : h.routine? n = some r) :
    n < h.routines.size := (Array.getElem?_eq_some_iff.mp hr).1

/-- A routine that is registered becomes the resident of its address, and the others stay. -/
theorem resident_addRoutine {h : Host} {r : Routine} {address : Int} {n : Nat} :
    (h.addRoutine r).Resident address n ↔
      address = r.address ∧ n = h.routines.size ∨
        address ≠ r.address ∧ h.Resident address n := by
  unfold Resident
  simp only [routine?_addRoutine]
  constructor
  · rintro ⟨⟨s, hs, hsaddress⟩, hlast⟩
    -- The last routine of an address is the one that is added, or else an earlier one.
    by_cases hn : n = h.routines.size
    · rw [if_pos hn] at hs
      obtain rfl := Option.some.inj hs
      exact .inl ⟨hsaddress.symm, hn⟩
    · rw [if_neg hn] at hs
      have hlt := lt_size_of_routine? hs
      refine .inr ⟨fun heq => ?_, ⟨s, hs, hsaddress⟩, fun later t hlater ht => ?_⟩
      · exact hlast _ r hlt (by rw [if_pos rfl]) heq.symm
      · have hne := Nat.ne_of_lt (lt_size_of_routine? ht)
        exact hlast later t hlater (by rw [if_neg hne, ht])
  · rintro (⟨rfl, rfl⟩ | ⟨hne, ⟨s, hs, hsaddress⟩, hlast⟩)
    · refine ⟨⟨r, by rw [if_pos rfl], rfl⟩, fun later t hlater ht => ?_⟩
      rw [if_neg (Nat.ne_of_gt hlater)] at ht
      exact absurd (lt_size_of_routine? ht) (Nat.lt_asymm hlater)
    · refine ⟨⟨s, by rw [if_neg (Nat.ne_of_lt (lt_size_of_routine? hs)), hs], hsaddress⟩,
        fun later t hlater ht => ?_⟩
      split at ht
      · obtain rfl := Option.some.inj ht
        exact hne.symm
      · exact hlast later t hlater ht

/-- In a new host addresses lead to their residents, as there are none. -/
theorem filed_new : Filed new := by
  intro address number
  simp [new, Resident, routine?]

/-- Addresses still lead to their residents when a routine is added. -/
theorem Filed.addRoutine {h : Host} (hfiled : h.Filed) (r : Routine) : (h.addRoutine r).Filed := by
  intro address number
  rw [resident_addRoutine, ← hfiled address number]
  exact mem_assign

/-! ## Look-ups -/

/-- If addresses lead to their residents, the number at an address is that of its resident. -/
theorem Filed.numberAt?_eq_some_iff {h : Host} (hfiled : h.Filed) {address : Int} {n : Nat} :
    h.numberAt? address = some n ↔ h.Resident address n := by
  rw [← hfiled address n, numberAt?]
  constructor
  · intro hlookup
    obtain ⟨front, back, hsplit, -⟩ := List.lookup_eq_some_iff.mp hlookup
    rw [hsplit]
    exact List.mem_append_right _ List.mem_cons_self
  · intro hmem
    cases hlookup : h.directory.lookup address with
    | none => exact absurd (List.lookup_eq_none_iff.mp hlookup _ hmem) (by simp)
    | some k =>
      obtain ⟨front, back, hsplit, -⟩ := List.lookup_eq_some_iff.mp hlookup
      have hk : (address, k) ∈ h.directory := by
        rw [hsplit]
        exact List.mem_append_right _ List.mem_cons_self
      -- An address has one resident, so the entry that is found is the one that is there.
      rw [((hfiled address k).mp hk).unique ((hfiled address n).mp hmem)]

/-- The address of a routine that is added leads to it; all others lead where they did. -/
theorem Filed.numberAt?_addRoutine {h : Host} (hfiled : h.Filed) (r : Routine) (address : Int) :
    (h.addRoutine r).numberAt? address =
      if address = r.address then some h.routines.size else h.numberAt? address := by
  ext n
  rw [(hfiled.addRoutine r).numberAt?_eq_some_iff, resident_addRoutine,
    ← hfiled.numberAt?_eq_some_iff]
  split <;> simp_all [eq_comm]

/-- The internal routine at an address is a routine of the host. -/
theorem exists_routine_of_routineAt? {h : Host} {address : Int} {n : Nat}
    (hn : h.routineAt? address true = some n) : ∃ r, h.routine? n = some r := by
  have hinternal := (Option.filter_eq_some_iff.mp hn).2
  rw [Bool.not_true, Bool.false_or, Option.any_eq_true] at hinternal
  obtain ⟨r, hr, -⟩ := hinternal
  exact ⟨r, hr⟩

/-- The first routine of a name is a routine of the host. -/
theorem exists_routine_of_routineNamed? {h : Host} {name : String} {n : Nat}
    (hn : h.routineNamed? name = some n) : ∃ r, h.routine? n = some r := by
  obtain ⟨e, hfind, rfl⟩ := Option.map_eq_some_iff.mp hn
  have hname := List.find?_some hfind
  rw [Option.any_eq_true] at hname
  obtain ⟨r, hr, -⟩ := hname
  exact ⟨r, hr⟩

/-- A name leads to a resident of that name. -/
theorem Filed.resident_of_routineNamed? {h : Host} (hfiled : h.Filed) {name : String} {n : Nat}
    (hn : h.routineNamed? name = some n) :
    ∃ r, h.routine? n = some r ∧ r.name = name ∧ h.Resident r.address n := by
  obtain ⟨⟨address, k⟩, hfind, rfl⟩ := Option.map_eq_some_iff.mp hn
  have hresident := (hfiled address k).mp (List.mem_of_find?_eq_some hfind)
  have hname := List.find?_some hfind
  obtain ⟨r, hr, rfl⟩ := hresident.1
  simp only [hr, Option.any_some, beq_iff_eq] at hname
  exact ⟨r, hr, hname, hresident⟩

/-- A routine at an address that was free is found by its name unless another one is found. -/
theorem Filed.routineNamed?_addRoutine {h : Host} (hfiled : h.Filed) {r : Routine}
    (hfree : h.numberAt? r.address = none) (name : String) :
    (h.addRoutine r).routineNamed? name =
      (h.routineNamed? name).or (if r.name = name then some h.routines.size else none) := by
  have hdirectory : (h.addRoutine r).directory = h.directory ++ [(r.address, h.routines.size)] := by
    rw [Host.addRoutine, assign, if_neg]
    rw [List.any_eq_true]
    rintro ⟨⟨a, n⟩, hmem, ha⟩
    obtain rfl : a = r.address := by simpa using ha
    rw [hfiled.numberAt?_eq_some_iff.mpr ((hfiled _ n).mp hmem)] at hfree
    simp at hfree
  -- The routines in front have the numbers that they had.
  have hfind : h.directory.find? (fun e => ((h.addRoutine r).routine? e.2).any (·.name == name)) =
      h.directory.find? (fun e => (h.routine? e.2).any (·.name == name)) := by
    rw [← List.head?_filter, ← List.head?_filter]
    refine congrArg List.head? (List.filter_congr fun e he => ?_)
    obtain ⟨⟨s, hs, -⟩, -⟩ := (hfiled e.1 e.2).mp he
    rw [routine?_addRoutine, if_neg (Nat.ne_of_lt (lt_size_of_routine? hs))]
  rw [routineNamed?, hdirectory, List.find?_append, hfind, routineNamed?]
  cases h.directory.find? fun e => (h.routine? e.2).any (·.name == name) with
  | some e => rfl
  | none =>
    by_cases hname : r.name = name
    · simp [routine?_addRoutine, hname]
    · simp [routine?_addRoutine, hname]

/-! ## Registering one routine after the other -/

/-- The host in which routines have been registered one after the other. -/
def ofRoutines (rs : List Routine) : Host := rs.foldl addRoutine .new

/-- Routines that are added one after the other stand behind those of the host. -/
theorem routines_foldl_addRoutine (h : Host) (rs : List Routine) :
    (rs.foldl addRoutine h).routines.toList = h.routines.toList ++ rs := by
  induction rs generalizing h with
  | nil => simp
  | cons r rest ih =>
    rw [List.foldl_cons, ih, addRoutine, Array.toList_push, List.append_assoc]
    rfl

/-- Routines that have been registered in order are numbered in order. -/
theorem routine?_ofRoutines (rs : List Routine) (n : Nat) : (ofRoutines rs).routine? n = rs[n]? := by
  rw [routine?, ← Array.getElem?_toList, ofRoutines, routines_foldl_addRoutine]
  rfl

/-- Registering one more routine adds it to the host of those before. -/
theorem ofRoutines_concat (rs : List Routine) (r : Routine) :
    ofRoutines (rs ++ [r]) = (ofRoutines rs).addRoutine r := by
  rw [ofRoutines, List.foldl_append]
  rfl

/-- A host in which routines have been registered has as many. -/
theorem size_routines_ofRoutines (rs : List Routine) :
    (ofRoutines rs).routines.size = rs.length := by
  rw [← Array.length_toList, ofRoutines, routines_foldl_addRoutine]
  simp [new]

/-- In a host in which routines have been registered addresses lead to their residents. -/
theorem filed_ofRoutines (rs : List Routine) : (ofRoutines rs).Filed := by
  induction rs using List.reverseRecOn with
  | nil => exact filed_new
  | append_singleton front r ih =>
    rw [ofRoutines_concat]
    exact ih.addRoutine r

/-- An address leads nowhere if no routine has it. -/
theorem numberAt?_ofRoutines_eq_none_iff {rs : List Routine} {address : Int} :
    (ofRoutines rs).numberAt? address = none ↔ ∀ r ∈ rs, r.address ≠ address := by
  induction rs using List.reverseRecOn with
  | nil => simp [ofRoutines, new, numberAt?]
  | append_singleton front r ih =>
    rw [ofRoutines_concat, (filed_ofRoutines front).numberAt?_addRoutine]
    split
    · rename_i heq
      simp [heq]
    · rename_i hne
      rw [ih]
      simp only [List.mem_append, List.mem_singleton, or_imp, forall_and, forall_eq]
      exact ⟨fun h => ⟨h, Ne.symm hne⟩, fun h => h.1⟩

/-- Routines that are registered at addresses of their own behind others are found by their names, the
first one first, unless one of the others is. -/
theorem routineNamed?_ofRoutines_append {rs l : List Routine}
    (hrs : ∀ r ∈ l, ∀ s ∈ rs, s.address ≠ r.address)
    (hl : l.Pairwise fun r s => r.address ≠ s.address) (name : String) :
    (ofRoutines (rs ++ l)).routineNamed? name =
      ((ofRoutines rs).routineNamed? name).or
        ((l.findIdx? (·.name == name)).map (· + rs.length)) := by
  induction l using List.reverseRecOn with
  | nil => simp
  | append_singleton front r ih =>
    obtain ⟨hfront, -, hbefore⟩ := List.pairwise_append.mp hl
    -- No routine registered before is at the address of the last one, so none is replaced.
    have hfree : (ofRoutines (rs ++ front)).numberAt? r.address = none := by
      rw [numberAt?_ofRoutines_eq_none_iff]
      intro s hs
      rcases List.mem_append.mp hs with hs | hs
      · exact hrs r (List.mem_append_right _ (List.mem_singleton_self r)) s hs
      · exact hbefore s hs r (List.mem_singleton_self r)
    rw [← List.append_assoc, ofRoutines_concat,
      (filed_ofRoutines _).routineNamed?_addRoutine hfree,
      ih (fun s hs => hrs s (List.mem_append_left _ hs)) hfront, size_routines_ofRoutines,
      List.findIdx?_append, Option.or_assoc]
    congr 1
    cases front.findIdx? (·.name == name) with
    | some n => rfl
    | none =>
      by_cases hname : r.name = name
      · simp [hname, Nat.add_comm]
      · simp [hname]

/-! ## Routines in the order of the addresses -/

/-- An assignment leaves every address at one place of the directory. -/
theorem nodup_assign {directory : List (Int × Nat)} (h : (directory.map (·.1)).Nodup) (address : Int)
    (number : Nat) : ((assign directory address number).map (·.1)).Nodup := by
  unfold assign
  split
  · -- An address that was taken stays where it is.
    rw [List.map_map, List.map_congr_left (g := (·.1))]
    · exact h
    · intro e _
      simp only [Function.comp_apply]
      split
      · rfl
      · rfl
  · rename_i hany
    rw [List.map_append, List.nodup_append]
    refine ⟨h, List.pairwise_singleton _ _, fun a ha b hb heq => hany ?_⟩
    obtain ⟨e, he, rfl⟩ := List.mem_map.mp ha
    obtain rfl : b = address := List.mem_singleton.mp hb
    exact List.any_eq_true.mpr ⟨e, he, beq_iff_eq.mpr heq⟩

/-- In a host in which routines have been registered every address has one place of the directory. -/
theorem nodup_ofRoutines (rs : List Routine) : ((ofRoutines rs).directory.map (·.1)).Nodup := by
  induction rs using List.reverseRecOn with
  | nil => exact List.nodup_nil
  | append_singleton front r ih =>
    rw [ofRoutines_concat]
    exact nodup_assign ih _ _

section

variable {h : Host} {rs : List Routine} (hroster : h.roster = (ofRoutines rs).roster)

include hroster

/-- The routines that addresses lead to are in the order of their own addresses, each once. -/
theorem pairwise_routineNumbers : h.routineNumbers.Pairwise fun m n =>
    ∀ r s, h.routine? m = some r → h.routine? n = some s → r.address < s.address := by
  have hdirectory : h.directory = (ofRoutines rs).directory := directory_eq hroster
  have hsorted : (h.directory.mergeSort fun a b => decide (a.1 ≤ b.1)).Pairwise
      fun a b => decide (a.1 ≤ b.1) = true :=
    List.pairwise_mergeSort (fun a b c hab hbc => by simp only [decide_eq_true_eq] at *; omega)
      (fun a b => by simp only [Bool.or_eq_true, decide_eq_true_eq]; omega) h.directory
  have hnodup := nodup_ofRoutines rs
  rw [← hdirectory, ← ((List.mergeSort_perm h.directory _).map _).nodup_iff, List.Nodup,
    List.pairwise_map] at hnodup
  rw [routineNumbers, List.pairwise_map]
  refine (hsorted.and hnodup).imp_of_mem ?_
  rintro ⟨a, m⟩ ⟨b, n⟩ hm hn ⟨hle, hne⟩ r s hr hs
  -- An entry of the directory is a routine of its address.
  have address (e : Int × Nat) (he : e ∈ h.directory) (t : Routine) (ht : h.routine? e.2 = some t) :
      t.address = e.1 := by
    obtain ⟨t', ht', hbare⟩ := exists_routine? hroster ht
    obtain ⟨⟨u, hu, hua⟩, -⟩ := (filed_ofRoutines rs e.1 e.2).mp (hdirectory ▸ he)
    obtain rfl := Option.some.inj (ht'.symm.trans hu)
    rw [← hua, Routine.address_eq_of_bare hbare]
  rw [address (a, m) (List.mem_mergeSort.mp hm) r hr, address (b, n) (List.mem_mergeSort.mp hn) s hs]
  have hle : a ≤ b := of_decide_eq_true hle
  have hne : a ≠ b := hne
  omega

/-- The internal routines are those that are found at their addresses as internal ones. -/
theorem mem_internalNumbers {n : Nat} :
    n ∈ h.internalNumbers ↔ ∃ address, h.routineAt? address true = some n := by
  have hdirectory : h.directory = (ofRoutines rs).directory := directory_eq hroster
  have hnumberAt (address : Int) : h.numberAt? address = some n ↔ (address, n) ∈ h.directory := by
    rw [hdirectory, filed_ofRoutines rs address n, numberAt?, hdirectory]
    exact (filed_ofRoutines rs).numberAt?_eq_some_iff
  simp only [internalNumbers, List.mem_filter, mem_routineNumbers, routineAt?,
    Option.filter_eq_some_iff, hnumberAt, Bool.not_true, Bool.false_or, exists_and_right]

end

end Host

end MoveBytecode
