import MoveBytecode.Proofs.Format.Assembly
import MoveBytecode.Proofs.Lift.Conversion
import MoveBytecode.Refine

/-!
# Refinement

Refinement gives types to variables and changes nothing else of a routine. What it says of a variable
comes from the operations on it (`Lifted.Tells`), and the last of these counts (`Scope.lastType?`), so that
saying it again brings nothing new. In a lift these operations are at addresses of the graph of the routine,
and they are on values of the symbolic stack (`Lifted.Refinable`): neither a parameter nor another local
gets another type.
-/

namespace MoveBytecode

/-- No two opcodes have the same code. -/
theorem Opcode.code_injective : Function.Injective Opcode.code := by
  intro first second h
  rw [← Option.some_inj, ← ofCode?_code first, h, ofCode?_code]

/-! ## Types that are given one after the other -/

namespace Scope

/-- The type that the variable of a name is given last. -/
def lastType? (given : List (Var × NativeType)) (name : VarName) : Option NativeType :=
  (given.filter (·.1.name = name)).getLast?.map (·.2)

/-- The scope with the types that variables are given, one after the other. -/
def retypeAll (s : Scope) (given : List (Var × NativeType)) : Scope :=
  given.foldl (fun s (v, type) => s.retype v type) s

/-- The last type of a name is that of the types given later, if there is one. -/
theorem lastType?_cons (v : Var) (type : NativeType) (rest : List (Var × NativeType))
    (name : VarName) : lastType? ((v, type) :: rest) name =
      (lastType? rest name).or (if v.name = name then some type else none) := by
  unfold lastType?
  by_cases h : v.name = name
  · rw [List.filter_cons_of_pos (by simpa using h), List.getLast?_cons, if_pos h]
    cases (rest.filter (·.1.name = name)).getLast? <;> rfl
  · rw [List.filter_cons_of_neg (by simpa using h), if_neg h, Option.or_none]

/-- The last type of a name is the type that some variable of the name is given. -/
theorem exists_of_lastType? {given : List (Var × NativeType)} {name : VarName} {type : NativeType}
    (h : lastType? given name = some type) : ∃ v, (v, type) ∈ given ∧ v.name = name := by
  obtain ⟨⟨v, type⟩, hlast, rfl⟩ := Option.map_eq_some_iff.mp h
  obtain ⟨hmem, hname⟩ := List.mem_filter.mp (List.mem_of_getLast? hlast)
  exact ⟨v, hmem, by simpa using hname⟩

variable (s : Scope) (given : List (Var × NativeType))

/-- Giving types adds no variables. -/
theorem vars_retypeAll : (s.retypeAll given).vars = s.vars := by
  induction given generalizing s with
  | nil => rfl
  | cons first rest ih => exact ih _

/-- Only the types change. -/
theorem retypeAll_eq :
    s.retypeAll given = { vars := s.vars, types := (s.retypeAll given).types } := by
  conv_rhs => rw [← vars_retypeAll s given]

/-- A name has the type that it is given last, or what it has. -/
theorem getElem?_types_retypeAll (name : VarName) : (s.retypeAll given).types[name]? =
    ((lastType? given name).map some).or s.types[name]? := by
  -- What is given behind the first counts before it, so the induction is from any scope.
  induction given generalizing s with
  | nil => rfl
  | cons first rest ih =>
    obtain ⟨v, type⟩ := first
    have hretype : (s.retype v type).types[name]? =
        if v.name = name then some (some type) else s.types[name]? := by
      by_cases h : v.name = name <;> simp [retype, h, Std.TreeMap.getElem?_insert]
    rw [show s.retypeAll ((v, type) :: rest) = (s.retype v type).retypeAll rest from rfl, ih, hretype,
      lastType?_cons]
    cases lastType? rest name with
    | some last => rfl
    | none => by_cases h : v.name = name <;> simp [h]

/-- A variable has the type that it was given last, or the one that it had. -/
theorem typeOf_retypeAll (w : Var) :
    (s.retypeAll given).typeOf w = (lastType? given w.name).or (s.typeOf w) := by
  rw [typeOf, getElem?_types_retypeAll, typeOf]
  cases lastType? given w.name <;> rfl

/-- Types that are given again are there already. -/
theorem types_retypeAll_retypeAll :
    ((s.retypeAll given).retypeAll given).types.Equiv (s.retypeAll given).types := by
  refine Std.TreeMap.Equiv.of_forall_constGet?_eq fun name => ?_
  rw [getElem?_types_retypeAll, getElem?_types_retypeAll]
  cases lastType? given name <;> rfl

end Scope

namespace Lift

namespace Lifted

/-! ## What refinement does -/

/-- An operation tells the type of a variable, by the name of the type: the second operand of an assertion
is a truth value, and the only result of a request for the sender is an address. -/
inductive Tells : Stmt → Var → String → Prop
  | truth {mnemonic : String} {address : Int} {results rest : List Expr} {first : Expr} {v : Var} :
    Tells (.untranslated mnemonic Opcode.assert.code.toNat address results (first :: .var v :: rest))
      v "bool"
  | sender {mnemonic : String} {address : Int} {operands : List Expr} {v : Var} :
    Tells (.untranslated mnemonic Opcode.getTxnSender.code.toNat address [.var v] operands) v "address"

/-- A statement is taken for a refinement iff it tells a type. -/
theorem refinement?_eq_some_iff {s : Stmt} {v : Var} {name : String} :
    refinement? s = some (v, name) ↔ Tells s v name := by
  constructor
  · intro h
    unfold refinement? at h
    split at h
    · split_ifs at h with hassert hsender
      · split at h
        · obtain ⟨rfl, rfl⟩ := Prod.mk.inj (Option.some.inj h)
          exact hassert ▸ .truth
        · exact absurd h nofun
      · split at h
        · obtain ⟨rfl, rfl⟩ := Prod.mk.inj (Option.some.inj h)
          exact hsender ▸ .sender
        · exact absurd h nofun
    · exact absurd h nofun
  · rintro (_ | _)
    · rfl
    · rfl

/-- The types that statements give to variables, in order, as far as their names are known. -/
def retypings (types : TypeRegistry) (statements : List Stmt) : List (Var × NativeType) :=
  statements.filterMap fun s => (refinement? s).bind fun (v, name) => (types.get? name).map (v, ·)

/-- Types are given to the variables that statements tell a type of, as far as the type is known. -/
theorem mem_retypings {types : TypeRegistry} {statements : List Stmt} {v : Var} {type : NativeType} :
    (v, type) ∈ retypings types statements ↔
      ∃ s ∈ statements, ∃ name, Tells s v name ∧ types.get? name = some type := by
  simp only [retypings, List.mem_filterMap, Option.bind_eq_some_iff, Option.map_eq_some_iff,
    Prod.mk.injEq, Prod.exists, refinement?_eq_some_iff]
  constructor
  · rintro ⟨s, hs, v, name, htells, type, htype, rfl, rfl⟩
    exact ⟨s, hs, name, htells, htype⟩
  · rintro ⟨s, hs, name, htells, htype⟩
    exact ⟨s, hs, v, name, htells, type, htype, rfl, rfl⟩

/-- Refining statement by statement counts the types that are told and gives them, in order. -/
theorem foldl_refineOne (types : TypeRegistry) (statements : List Stmt) (count : Nat) (s : Scope) :
    statements.foldl (refineOne types) (count, s) =
      (count + (retypings types statements).length, s.retypeAll (retypings types statements)) := by
  induction statements generalizing count s with
  | nil => rfl
  | cons first rest ih =>
    rw [List.foldl_cons, refineOne, retypings, List.filterMap_cons]
    cases hfirst : refinement? first with
    | none => exact ih count s
    | some told =>
      obtain ⟨v, name⟩ := told
      cases hname : types.get? name with
      | none =>
        simp only [Option.bind_some, hname, Option.map_none]
        exact ih count s
      | some type =>
        simp only [Option.bind_some, hname, Option.map_some]
        rw [ih, retypings, List.length_cons, Nat.add_right_comm, Nat.add_assoc]
        rfl

/-- A refinement gives the types that the statements within the graph tell. -/
theorem refine_eq (l : Lifted) (graph : Option Graph) (types : TypeRegistry) :
    l.refine graph types =
      let given := retypings types (l.statements.filter (within (graph.map graphAddresses)))
      (given.length, { l with scope := l.scope.retypeAll given }) := by
  rw [refine, foldl_refineOne, Nat.zero_add]

/-- A routine with other types for its variables. -/
def withTypes (l : Lifted) (types : Std.TreeMap VarName (Option NativeType)) : Lifted :=
  { l with scope := { vars := l.scope.vars, types } }

/-- A routine with the types that its operations tell. -/
def retyped (l : Lifted) (types : TypeRegistry) : Lifted :=
  { l with scope := l.scope.retypeAll (retypings types l.statements) }

/-- A routine that is retyped is the same but for the types of its variables. -/
theorem retyped_eq (l : Lifted) (types : TypeRegistry) :
    l.retyped types = l.withTypes (l.retyped types).scope.types :=
  congrArg (fun scope => { l with scope }) (Scope.retypeAll_eq _ _)

/-- To tell the types again brings nothing new. -/
theorem retyped_retyped (l : Lifted) (types : TypeRegistry) :
    ∃ types', types'.Equiv (l.retyped types).scope.types ∧
      (l.retyped types).retyped types = (l.retyped types).withTypes types' :=
  ⟨_, Scope.types_retypeAll_retypeAll l.scope (retypings types l.statements), retyped_eq _ types⟩

/-- A variable has the type that the routine told of it last, or the one that it had. -/
theorem typeOf_retyped (l : Lifted) (types : TypeRegistry) (w : Var) :
    (l.retyped types).scope.typeOf w =
      (Scope.lastType? (retypings types l.statements) w.name).or (l.scope.typeOf w) :=
  Scope.typeOf_retypeAll _ _ w

/-- What changes the type of a variable tells the new one. -/
theorem exists_tells_of_typeOf_ne {l : Lifted} {types : TypeRegistry} {w : Var}
    (hne : (l.retyped types).scope.typeOf w ≠ l.scope.typeOf w) :
    ∃ s ∈ l.statements, ∃ v name, Tells s v name ∧ v.name = w.name ∧
      (l.retyped types).scope.typeOf w = types.get? name := by
  rw [typeOf_retyped] at hne ⊢
  cases hlast : Scope.lastType? (retypings types l.statements) w.name with
  | none => exact absurd (by rw [hlast, Option.none_or]) hne
  | some type =>
    obtain ⟨v, hmem, hname⟩ := Scope.exists_of_lastType? hlast
    obtain ⟨s, hs, name, htells, htype⟩ := mem_retypings.mp hmem
    exact ⟨s, hs, v, name, htells, hname, htype.symm⟩

/-! ## Routines to refine -/

/-- The operations of a routine are at addresses of its graph, what they tell is about values of the stack,
and its parameters are locals. -/
structure Refinable (l : Lifted) : Prop where
  within : ∀ s ∈ l.statements, within (some (graphAddresses l.graph)) s = true
  stack : ∀ s ∈ l.statements, ∀ v name, Tells s v name → ∃ n, v.name = .stackVar n
  params : ∀ v ∈ l.params, ∃ n, v.name = .localVar n

namespace Refinable

variable {l : Lifted} (h : l.Refinable) (types : TypeRegistry)

include h

/-- A routine is refined as a whole, also with regard to its own graph. -/
theorem refine_eq {graph : Option Graph} (hgraph : graph ∈ [none, some l.graph]) :
    l.refine graph types = ((retypings types l.statements).length, l.retyped types) := by
  have hall : l.statements.filter (Lifted.within (graph.map graphAddresses)) = l.statements := by
    rw [List.filter_eq_self]
    intro s hs
    rcases List.mem_pair.mp hgraph with rfl | rfl
    · cases s <;> rfl
    · exact h.within s hs
  rw [Lifted.refine_eq, hall]
  rfl

/-- A routine whose types were told can be refined again. -/
theorem retyped : (l.retyped types).Refinable := ⟨h.within, h.stack, h.params⟩

variable {types}

/-- A variable whose type changes is one of the stack. -/
theorem exists_stackVar {w : Var} (hne : (l.retyped types).scope.typeOf w ≠ l.scope.typeOf w) :
    ∃ n, w.name = .stackVar n := by
  obtain ⟨s, hs, v, name, htells, hname, -⟩ := exists_tells_of_typeOf_ne hne
  exact hname ▸ h.stack s hs v name htells

/-- Refinement gives no type to a parameter. -/
theorem typeOf_param {v : Var} (hv : v ∈ l.params) :
    (l.retyped types).scope.typeOf v = l.scope.typeOf v := by
  by_contra hne
  obtain ⟨n, hn⟩ := h.exists_stackVar hne
  obtain ⟨index, hindex⟩ := h.params v hv
  exact absurd (hn.symm.trans hindex) nofun

/-- Refinement does not change the text of a routine. -/
theorem text_retyped : (l.retyped types).text = l.text := by
  have htexts : l.params.map (fun v => v.text ++ ": " ++ (l.retyped types).typeName v) =
      l.params.map fun v => v.text ++ ": " ++ l.typeName v :=
    List.map_congr_left fun v hv => by rw [typeName, typeName, h.typeOf_param hv]
  rw [text, show (l.retyped types).params = l.params from rfl, htexts]
  rfl

end Refinable

/-- A routine `l'` is the refinement of `l`, with `count` types that were told. -/
structure Refines (l : Lifted) (types : TypeRegistry) (count : Nat) (l' : Lifted) : Prop where
  /-- Nothing differs but the types of the variables. -/
  frame : l' = l.withTypes l'.scope.types
  text : l'.text = l.text
  params : ∀ v ∈ l.params, l'.scope.typeOf v = l.scope.typeOf v
  /-- Every operation that tells a known type counts. -/
  count : count = (retypings types l.statements).length
  /-- A variable has the type that is told last of it, or the one that it had. -/
  typeOf : ∀ w, l'.scope.typeOf w =
    (Scope.lastType? (retypings types l.statements) w.name).or (l.scope.typeOf w)
  /-- A variable whose type changes is one of the stack. -/
  stack : ∀ w, l'.scope.typeOf w ≠ l.scope.typeOf w → ∃ n, w.name = .stackVar n
  /-- An operation tells its new type. -/
  told : ∀ w, l'.scope.typeOf w ≠ l.scope.typeOf w →
    ∃ s ∈ l.statements, ∃ v name, Tells s v name ∧ v.name = w.name ∧
      l'.scope.typeOf w = types.get? name

/-- A routine that can be refined is refined by the types that its operations tell. -/
theorem Refinable.refines {l : Lifted} (h : l.Refinable) (types : TypeRegistry) :
    l.Refines types (retypings types l.statements).length (l.retyped types) where
  frame := l.retyped_eq types
  text := h.text_retyped
  params _ := h.typeOf_param
  count := rfl
  typeOf := l.typeOf_retyped types
  stack _ := h.exists_stackVar
  told _ := exists_tells_of_typeOf_ne

end Lifted

/-- In a workspace, the refinement of a routine is recorded, and nothing else is done there. -/
def Workspace.refined (w : Workspace) (count : Nat) (l : Lifted) : Workspace :=
  { w with events := w.events.push (.refined count l.routine.name) }

/-- Refining a routine in a workspace never fails, and records the refinement. -/
theorem outcome_refine (l : Lifted) (graph : Option Graph) (w : Workspace) :
    outcome (refine l graph) w =
      (.ok (l.refine graph w.host.types), w.refined (l.refine graph w.host.types).1 l) := by
  rfl

/-! ## Routines that were lifted -/

section

variable {f : Frame} {i : Instruction} {address : Int} {ins outs : List Var} {statements : List Stmt}

/-- An operation that stays as it is has the byte and the address of the instruction, and what it yields is
put onto the stack. One that has no row of its own in the table has taken its operands from there. -/
theorem Lowered.eq_of_untranslated (h : Lowered f i address ins outs statements) {mnemonic : String}
    {tag address' : Int} {results operands : List Expr}
    (hs : .untranslated mnemonic tag address' results operands ∈ statements) :
    tag = i.opcode.code.toNat ∧ address' = address ∧ results = outs.map .var ∧
      (i.opcode.role = .external → operands = ins.map .var) := by
  cases h with
  | drop => exact absurd hs List.not_mem_nil
  | leave | jump | branch | literal | copy | move | store | negate | combine | call =>
    simp at hs
  | external =>
    obtain ⟨rfl, rfl, rfl, rfl, rfl⟩ : _ ∧ _ ∧ _ ∧ _ ∧ _ := by simpa [kept] using hs
    exact ⟨rfl, rfl, rfl, fun _ => rfl⟩
  -- The rows with operands of their own are for opcodes that work on references.
  | borrowLocal hrole | borrowField hrole | write hrole =>
    obtain ⟨rfl, rfl, rfl, rfl, rfl⟩ : _ ∧ _ ∧ _ ∧ _ ∧ _ := by simpa [kept] using hs
    exact ⟨rfl, rfl, rfl, fun hexternal => absurd (hrole.symm.trans hexternal) nofun⟩

/-- What the statements of an instruction tell is about the values that it takes and puts. -/
theorem Lowered.mem_of_tells (h : Lowered f i address ins outs statements) {s : Stmt}
    (hs : s ∈ statements) {v : Var} {name : String} (htells : Lifted.Tells s v name) :
    v ∈ ins ∨ v ∈ outs := by
  have hmem : ∀ vs : List Var, Expr.var v ∈ vs.map .var → v ∈ vs := by
    intro vs h
    obtain ⟨u, hu, heq⟩ := List.mem_map.mp h
    exact Expr.var.inj heq ▸ hu
  cases htells with
  -- The byte is that of the assertion alone, which has taken what it asserts from the stack.
  | truth =>
    obtain ⟨htag, -, -, hoperands⟩ := h.eq_of_untranslated hs
    have hop : i.opcode = .assert :=
      Opcode.code_injective (UInt8.toNat_inj.mp (Int.ofNat_inj.mp htag.symm))
    refine .inl (hmem ins ?_)
    rw [← hoperands (by rw [hop]; rfl)]
    exact List.mem_cons_of_mem _ List.mem_cons_self
  | sender =>
    obtain ⟨-, -, houts, -⟩ := h.eq_of_untranslated hs
    refine .inr (hmem outs ?_)
    rw [← houts]
    exact List.mem_cons_self

/-- Each step of a block is one that a lowering has made, of an instruction of the block. -/
theorem exists_yields_of_liftBlock {b : Block} {steps : Array Step} {s t : State} (hs : s.WellFormed)
    (h : Runs (liftBlock f b #[]) s steps t) {step : Step} (hstep : step ∈ steps) :
    ∃ low : Lowering, low.placed ∈ b.placed ∧ low.Yields f step := by
  obtain ⟨-, hcompleted, -⟩ := completed_of_runs hs h
  obtain ⟨k, hk, rfl⟩ := List.mem_iff_getElem.mp (Array.mem_toList_iff.mpr hstep)
  refine ⟨_, ?_, hcompleted.yields.get (by rw [hcompleted.yields.length_eq]; exact hk) hk⟩
  rw [show b.placed = _ from hcompleted.placed.symm]
  exact List.mem_map_of_mem (List.get_mem _ _)

/-- The variable of a parameter is that of a local. -/
theorem name_of_runs_paramVar {index : Nat} {token : Token} {s t : State} {v : Var}
    (h : Runs (paramVar f index token) s v t) : v.name = .localVar index := by
  obtain ⟨_, _, hget, h⟩ := runs_bind.mp h
  obtain ⟨rfl, rfl⟩ := runs_get.mp hget
  split at h
  · rename_i hfind
    obtain ⟨rfl, rfl⟩ := runs_pure.mp h
    unfold Scope.find? at hfind
    simpa using Array.find?_some hfind
  · obtain ⟨_, _, -, h⟩ := runs_bind.mp h
    exact (runs_declare h).1

/-- The variables of parameters are those of locals. -/
theorem name_of_runs_paramVars {index : Nat} {tokens : List Token} {s t : State} {vs : List Var}
    (h : Runs (paramVars f index tokens) s vs t) {v : Var} (hv : v ∈ vs) :
    ∃ n, v.name = .localVar n := by
  induction tokens generalizing index s vs with
  | nil =>
    obtain ⟨rfl, rfl⟩ := runs_pure.mp h
    exact absurd hv List.not_mem_nil
  | cons token rest ih =>
    obtain ⟨w, u, hw, h⟩ := runs_bind.mp h
    obtain ⟨ws, u', hws, h⟩ := runs_bind.mp h
    obtain ⟨rfl, rfl⟩ := runs_pure.mp h
    rcases List.mem_cons.mp hv with rfl | hv
    · exact ⟨index, name_of_runs_paramVar hw⟩
    · exact ih hws hv

end

end Lift

open Lift

namespace Converter

/-- The parameters of a routine are locals. -/
theorem name_of_mem_params {c : Converter} {target : RoutineRef} {w w' : Workspace} {l : Lifted}
    (h : Runs (c.lift target) w l w') {v : Var} (hv : v ∈ l.params) : ∃ n, v.name = .localVar n := by
  obtain ⟨f, _, _, _, r, -, -, hrun, -, rfl⟩ := runs_liftFunction_of_lift h
  obtain ⟨frame, t, -, hrun⟩ := runs_bind.mp hrun
  obtain ⟨⟨steps, failed⟩, u, -, hrun⟩ := runs_bind.mp hrun
  simp only [runs_bind, runs_ofExcept, runs_get, runs_pure] at hrun
  obtain ⟨_, _, -, _, _, -, params, _, hparams, _, _, -, _, _, -, rfl, -⟩ := hrun
  exact name_of_runs_paramVars hparams hv

/-- Each statement of a routine comes from a lowering of an instruction of its graph. -/
theorem exists_yields_of_lift {c : Converter} {target : RoutineRef} {w w' : Workspace} {l : Lifted}
    (h : Runs (c.lift target) w l w') {statement : Stmt} (hs : statement ∈ l.statements) :
    ∃ b ∈ l.graph.blocks, ∃ (frame : Frame) (low : Lowering) (step : Step), low.placed ∈ b.placed ∧
      low.Yields frame step ∧ statement ∈ step.statements := by
  obtain ⟨step, hstep, hs⟩ := List.mem_flatMap.mp hs
  obtain ⟨frame, s, hlifts⟩ := runs_lift h
  obtain ⟨t, hblocks⟩ := hlifts.blocks
  rw [graph_of_runs_lift h]
  rcases exists_liftBlock_of_mem_steps hlifts.wellFormed hblocks (Array.mem_toList_iff.mp hstep) with
    hdone | ⟨b, _, _, _, hu, hv, hblock, hnew⟩
  · simp at hdone
  · obtain ⟨low, hlow, hyields⟩ := exists_yields_of_liftBlock hu hblock hnew
    exact ⟨b, block_of_mem_visits hv, frame, low, step, hlow, hyields, hs⟩

/-- A routine that was lifted can be refined. -/
theorem refinable_of_lift {c : Converter} {target : RoutineRef} {w w' : Workspace} {l : Lifted}
    (h : Runs (c.lift target) w l w') : l.Refinable where
  within := by
    intro s hs
    obtain ⟨b, hb, frame, low, step, hlow, hyields, hs⟩ := exists_yields_of_lift h hs
    obtain ⟨_, ins, outs, -, -, htable, -⟩ := hyields.table
    cases s with
    | untranslated mnemonic tag address results operands =>
      -- It is at the address of its instruction, which is in a block of the graph.
      obtain ⟨-, rfl, -, -⟩ := htable.eq_of_untranslated hs
      have hmem : low.placed.address ∈ l.graph.blocks.flatMap Block.addresses :=
        List.mem_flatMap.mpr ⟨b, hb, List.mem_map_of_mem hlow⟩
      simpa [Lifted.within, Lifted.graphAddresses] using hmem
    | _ => rfl
  stack := by
    intro s hs v name htells
    obtain ⟨_, -, frame, low, step, -, hyields, hs⟩ := exists_yields_of_lift h hs
    obtain ⟨rest, ins, outs, hins, houts, htable, -⟩ := hyields.table
    rcases htable.mem_of_tells hs htells with hv | hv
    · exact hyields.before.name_of_mem_vars (hins ▸ List.mem_append_right rest hv)
    · exact hyields.after.name_of_mem_vars (houts ▸ List.mem_append_right rest hv)
  params _ := name_of_mem_params h

/-- A lifted routine has one refinement in every workspace, whether or not it is refined with regard to
its own graph. To refine that again in either way, where the names have the same types, tells as many types,
which the variables have already. -/
theorem lift_refines {c : Converter} {target : RoutineRef} {w w' : Workspace} {l : Lifted}
    (h : Runs (c.lift target) w l w') (u : Workspace) :
    ∃ count l', l.Refines u.host.types count l' ∧
      (∀ graph ∈ [none, some l.graph],
        outcome (refine l graph) u = (.ok (count, l'), u.refined count l)) ∧
      ∀ v : Workspace, v.host.types = u.host.types → ∃ types,
        types.Equiv l'.scope.types ∧ ∀ graph ∈ [none, some l.graph],
          outcome (refine l' graph) v = (.ok (count, l'.withTypes types), v.refined count l) := by
  have hl := refinable_of_lift h
  refine ⟨_, _, hl.refines u.host.types, fun graph hgraph => ?_, fun v hv => ?_⟩
  · rw [outcome_refine, hl.refine_eq _ hgraph]
  · obtain ⟨types, hequiv, htypes⟩ := l.retyped_retyped u.host.types
    refine ⟨types, hequiv, fun graph hgraph => ?_⟩
    rw [outcome_refine, (hl.retyped _).refine_eq _ hgraph, hv, htypes]
    rfl

/-- A script that asserts the sender: `LD_CONST 1`, `GET_TXN_SENDER`, `ASSERT` and `RET`. -/
def senderSample : Bytes :=
  Format.assemble .libra [
    ⟨.moduleHandles, [0, 0]⟩, ⟨.functionHandles, [0, 1, 0]⟩, ⟨.addressPool, List.replicate 32 0⟩,
    ⟨.stringPool, [6, 0x3C, 0x53, 0x45, 0x4C, 0x46, 0x3E, 1, 0x66]⟩,
    ⟨.functionSignatures, [2, 0, 0]⟩, ⟨.localSignatures, [3, 0]⟩,
    ⟨.main,
      [0, 0, 0, 0, 4, 0] ++ [0x06, 1, 0, 0, 0, 0, 0, 0, 0] ++ [0x2B] ++ [0x27] ++ [0x02]⟩]

/-- In the sample the variable of the sender is told two types, and is left with the second, also when it
is told them again. -/
theorem senderSample_refines : ∃ (m : Module) (h : Host) (l l' l'' : Lifted) (w' u : Workspace) (v : Var),
    Module.loadInto .standard senderSample .new = .ok (m, h) ∧
    Runs ((Converter.mk m []).lift (.hosted 0)) (.ofHost h) l w' ∧
    l.Refines h.withMoveTypes.types 2 l' ∧
    outcome (refine l none) (.ofHost h.withMoveTypes) = (.ok (2, l'), u) ∧
    outcome (refine l (some l.graph)) (.ofHost h.withMoveTypes) = (.ok (2, l'), u) ∧
    outcome (refine l' none) u = (.ok (2, l''), u.refined 2 l) ∧
    l.typeName v = "address" ∧ l'.typeName v = "bool" ∧ l''.scope.types.Equiv l'.scope.types := by
  have check : liftPasses senderSample (fun m h l =>
      let result := l.refine none h.withMoveTypes.types
      decide (result.1 = 2 ∧ l.typeName ⟨.stackVar 1, 256, none⟩ = "address" ∧
        result.2.typeName ⟨.stackVar 1, 256, none⟩ = "bool")) = true := by
    decide +kernel
  obtain ⟨m, h, l, w', hload, hlift, hcheck⟩ := exists_of_liftPasses check
  obtain ⟨htwo, hbefore, hafter⟩ := of_decide_eq_true hcheck
  -- The second refinement starts where the first has left the workspace.
  obtain ⟨count, l', hrefines, hfirst, hagain⟩ := lift_refines hlift (.ofHost h.withMoveTypes)
  have hnone := hfirst none List.mem_cons_self
  obtain ⟨hresult, -⟩ := Prod.mk.inj ((outcome_refine l none _).symm.trans hnone)
  have hresult : l.refine none h.withMoveTypes.types = (count, l') := Except.ok.inj hresult
  rw [hresult] at htwo hafter
  obtain rfl : count = 2 := htwo
  obtain ⟨types, hequiv, hsecond⟩ := hagain (Workspace.refined (.ofHost h.withMoveTypes) 2 l) rfl
  exact ⟨m, h, l, l', _, w', _, _, hload, hlift, hrefines, hnone,
    hfirst _ (List.mem_cons_of_mem _ List.mem_cons_self), hsecond none List.mem_cons_self, hbefore,
    hafter, hequiv⟩

end Converter

end MoveBytecode
