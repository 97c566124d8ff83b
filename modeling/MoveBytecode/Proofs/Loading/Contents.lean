import MoveBytecode.Analysis
import MoveBytecode.Proofs.Format.Description
import MoveBytecode.Proofs.Loading.Records

/-!
# What a module says, apart from where it was read from

A module keeps the bytes of its file, the directory, and the positions of its entries and bodies.
`Module.unfiled` is the module without them. Names, signatures, listings and graphs of two modules that
are equal in this sense are equal; for those that do not look at functions, it is enough that the tables
without code are (`Module.Akin`).
-/

namespace MoveBytecode

variable {ε α β : Type}

/-! ## Results up to a part that does not matter -/

/-- What does not look at the part of a value that `u` takes away ends in the same way for values that
differ there. -/
theorem bind_congr_of_map {M : Type → Type} [Monad M] [LawfulMonad M] {u : α → α} {x y : M α}
    (h : u <$> x = u <$> y) {f : α → M β} (hf : ∀ a, f (u a) = f a) : x >>= f = y >>= f := by
  have hmap (z : M α) : z >>= f = (u <$> z) >>= f := by
    rw [bind_map_left]
    exact bind_congr fun a => (hf a).symm
  rw [hmap x, hmap y, h]

/-- A search whose test does not look at the part that `u` takes away. -/
theorem findM?_congr_of_map {u : α → α} {l l' : List α} (h : l.map u = l'.map u)
    {p : α → Except ε Bool} (hp : ∀ a, p (u a) = p a) :
    Option.map u <$> l.findM? p = Option.map u <$> l'.findM? p := by
  have hmap (k : List α) : Option.map u <$> k.findM? p = (k.map u).findM? p := by
    induction k with
    | nil => rfl
    | cons a rest ih =>
      simp only [List.map_cons, List.findM?, hp, map_bind]
      refine bind_congr fun found => ?_
      cases found with
      | true => rfl
      | false => exact ih
  rw [hmap l, hmap l', h]

/-- Mapping a list by what does not look at the part that `u` takes away needs no such part. -/
theorem mapM_map_of_forall {M : Type → Type} [Monad M] [LawfulMonad M] (u : α → α) {f : α → M β}
    (hf : ∀ a, f (u a) = f a) (l : List α) : (l.map u).mapM f = l.mapM f := by
  induction l with
  | nil => rfl
  | cons a rest ih => rw [List.map_cons, List.mapM_cons, List.mapM_cons, hf, ih]

variable {u : α → α} {l l' : List α}

/-- Mapping lists that are equal up to the part that `u` takes away. -/
theorem map_congr_of_map (h : l.map u = l'.map u) {f : α → β} (hf : ∀ a, f (u a) = f a) :
    l.map f = l'.map f := by
  have hmap (k : List α) : k.map f = (k.map u).map f := by simp [hf]
  rw [hmap l, hmap l', h]

/-- Flattening lists that are equal up to the part that `u` takes away. -/
theorem flatMap_congr_of_map (h : l.map u = l'.map u) {f : α → List β} (hf : ∀ a, f (u a) = f a) :
    l.flatMap f = l'.flatMap f := by
  rw [List.flatMap_def, List.flatMap_def, map_congr_of_map h hf]

/-- Folding lists that are equal up to the part that `u` takes away. -/
theorem foldl_congr_of_map (h : l.map u = l'.map u) {f : β → α → β} (hf : ∀ b a, f b (u a) = f b a)
    (b : β) : l.foldl f b = l'.foldl f b := by
  have hmap (k : List α) : k.foldl f b = (k.map u).foldl f b := by simp only [List.foldl_map, hf]
  rw [hmap l, hmap l', h]

/-- Folding lists, where a step may fail, that are equal up to the part that `u` takes away. -/
theorem foldlM_congr_of_map (h : l.map u = l'.map u) {f : β → α → Except ε β}
    (hf : ∀ b a, f b (u a) = f b a) (b : β) : l.foldlM f b = l'.foldlM f b := by
  have hmap (k : List α) : k.foldlM f b = (k.map u).foldlM f b := by simp only [List.foldlM_map, hf]
  rw [hmap l, hmap l', h]

/-! ## Entries and pools -/

/-- An entry without its position in the file; `bare` takes positions out of its record. -/
def Entry.unfiled (bare : α → α) (e : Entry α) : Entry α :=
  { e with file := ⟨0, e.file.size⟩, record := bare e.record }

/-- Entries that are equal but for their position have the same record. -/
theorem Entry.record_eq_of_unfiled {e e' : Entry α} (h : e.unfiled id = e'.unfiled id) :
    e.record = e'.record := by
  change (e.unfiled id).record = (e'.unfiled id).record
  rw [h]

/-- A function without the position of its body. -/
def FunctionDef.unfiled (f : FunctionDef) : FunctionDef := { f with code := { f.code with start := 0 } }

namespace Pool

/-- A pool without the positions of its entries. -/
def unfiled (bare : α → α) (p : Pool α) : Pool α :=
  { p with entries := p.entries.map (Entry.unfiled bare) }

variable {bare : α → α} {p q : Pool α}

/-- A pool keeps its name without the positions of its entries. -/
@[simp] theorem name_unfiled (p : Pool α) : (p.unfiled bare).name = p.name := rfl

/-- A pool keeps its size without the positions of its entries. -/
@[simp] theorem size_unfiled (p : Pool α) : (p.unfiled bare).size = p.size := by
  simp [unfiled, size]

/-- The entries of a pool without their positions, in order. -/
@[simp] theorem toList_unfiled (p : Pool α) :
    (p.unfiled bare).toList = p.toList.map (Entry.unfiled bare) := by
  simp [unfiled, toList]

/-- Looking up a pool without positions finds the entry without its position. -/
theorem get_unfiled (p : Pool α) (index : Int) :
    (p.unfiled bare).get index = Entry.unfiled bare <$> p.get index := by
  unfold get
  split
  · rw [unfiled, Array.getElem?_map]
    cases p.entries[index.toNat]? with
    | none => simp [size, Functor.map, Except.map]
    | some e => rfl
  · simp [Functor.map, Except.map]

/-- Pools that are equal but for positions have the same name. -/
theorem name_eq (h : p.unfiled bare = q.unfiled bare) : p.name = q.name := by
  change (p.unfiled bare).name = (q.unfiled bare).name
  rw [h]

/-- Pools that are equal but for positions have the same size. -/
theorem size_eq (h : p.unfiled bare = q.unfiled bare) : p.size = q.size := by
  rw [← size_unfiled p, h, size_unfiled]

/-- Pools that are equal but for positions have entries that are equal but for positions. -/
theorem map_unfiled_toList (h : p.unfiled bare = q.unfiled bare) :
    p.toList.map (Entry.unfiled bare) = q.toList.map (Entry.unfiled bare) := by
  rw [← toList_unfiled, h, toList_unfiled]

/-- Pools that are equal but for positions find entries that are equal but for positions. -/
theorem map_unfiled_get (h : p.unfiled bare = q.unfiled bare) (index : Int) :
    Entry.unfiled bare <$> p.get index = Entry.unfiled bare <$> q.get index := by
  rw [← get_unfiled, h, get_unfiled]

/-- What is found in one of two pools is found in the other, apart from its position. -/
theorem exists_get_of_unfiled (h : p.unfiled bare = q.unfiled bare) {index : Int} {e : Entry α}
    (he : p.get index = .ok e) :
    ∃ e', q.get index = .ok e' ∧ e.unfiled bare = e'.unfiled bare := by
  have hmap := map_unfiled_get h index
  rw [he] at hmap
  cases hq : q.get index with
  | error fault => simp [hq, Functor.map, Except.map] at hmap
  | ok e' =>
    rw [hq] at hmap
    exact ⟨e', rfl, Except.ok.inj hmap⟩

/-- Pools that are equal but for positions agree. -/
theorem agrees_of_unfiled {p q : Pool α} (h : p.unfiled id = q.unfiled id) : p.Agrees q := by
  refine ⟨name_eq h, ?_⟩
  have hrecords := congrArg (List.map (·.record)) (map_unfiled_toList h)
  rw [List.map_map, List.map_map] at hrecords
  exact hrecords

/-- What is done with an entry that is looked up does not depend on its position. -/
theorem get_bind_congr (h : p.unfiled bare = q.unfiled bare) (index : Int)
    {f : Entry α → Except Fault β} (hf : ∀ e, f (e.unfiled bare) = f e) :
    p.get index >>= f = q.get index >>= f :=
  bind_congr_of_map (map_unfiled_get h index) hf

end Pool

/-! ## Modules -/

namespace Module

/-- A module without what only tells where it was read from. -/
def unfiled (m : Module) : Module where
  data := #[]
  magic := .libra
  kind := m.kind
  sections := []
  moduleHandles := m.moduleHandles.unfiled id
  structHandles := m.structHandles.unfiled id
  functionHandles := m.functionHandles.unfiled id
  addresses := m.addresses.unfiled id
  bytearrays := m.bytearrays.unfiled id
  strings := m.strings.unfiled id
  typeSignatures := m.typeSignatures.unfiled id
  functionSignatures := m.functionSignatures.unfiled id
  localSignatures := m.localSignatures.unfiled id
  structDefs := m.structDefs.unfiled id
  fieldDefs := m.fieldDefs.unfiled id
  functionDefs := m.functionDefs.unfiled FunctionDef.unfiled
  main := m.main.map (Entry.unfiled FunctionDef.unfiled)
  info := m.info

/-- Two modules with the same tables without code, apart from where those were read. -/
structure Akin (m n : Module) : Prop where
  moduleHandles : m.moduleHandles.unfiled id = n.moduleHandles.unfiled id
  structHandles : m.structHandles.unfiled id = n.structHandles.unfiled id
  functionHandles : m.functionHandles.unfiled id = n.functionHandles.unfiled id
  addresses : m.addresses.unfiled id = n.addresses.unfiled id
  bytearrays : m.bytearrays.unfiled id = n.bytearrays.unfiled id
  strings : m.strings.unfiled id = n.strings.unfiled id
  typeSignatures : m.typeSignatures.unfiled id = n.typeSignatures.unfiled id
  functionSignatures : m.functionSignatures.unfiled id = n.functionSignatures.unfiled id
  localSignatures : m.localSignatures.unfiled id = n.localSignatures.unfiled id
  structDefs : m.structDefs.unfiled id = n.structDefs.unfiled id
  fieldDefs : m.fieldDefs.unfiled id = n.fieldDefs.unfiled id

/-- Modules that are equal but for positions are akin. -/
theorem akin_of_unfiled {m n : Module} (h : m.unfiled = n.unfiled) : m.Akin n where
  moduleHandles := congrArg moduleHandles h
  structHandles := congrArg structHandles h
  functionHandles := congrArg functionHandles h
  addresses := congrArg addresses h
  bytearrays := congrArg bytearrays h
  strings := congrArg strings h
  typeSignatures := congrArg typeSignatures h
  functionSignatures := congrArg functionSignatures h
  localSignatures := congrArg localSignatures h
  structDefs := congrArg structDefs h
  fieldDefs := congrArg fieldDefs h

namespace Akin

variable {m n : Module}

/-- A module is akin to itself. -/
theorem refl (m : Module) : m.Akin m := ⟨rfl, rfl, rfl, rfl, rfl, rfl, rfl, rfl, rfl, rfl, rfl⟩

/-- Being akin does not depend on the order. -/
theorem symm (h : m.Akin n) : n.Akin m :=
  ⟨h.moduleHandles.symm, h.structHandles.symm, h.functionHandles.symm, h.addresses.symm,
    h.bytearrays.symm, h.strings.symm, h.typeSignatures.symm, h.functionSignatures.symm,
    h.localSignatures.symm, h.structDefs.symm, h.fieldDefs.symm⟩

/-- Modules that are akin agree on names and signatures. -/
theorem agrees (h : m.Akin n) : m.Agrees n :=
  ⟨Pool.agrees_of_unfiled h.moduleHandles, Pool.agrees_of_unfiled h.structHandles,
    Pool.agrees_of_unfiled h.functionHandles, Pool.agrees_of_unfiled h.addresses,
    Pool.agrees_of_unfiled h.bytearrays, Pool.agrees_of_unfiled h.strings,
    Pool.agrees_of_unfiled h.typeSignatures, Pool.agrees_of_unfiled h.functionSignatures,
    Pool.agrees_of_unfiled h.localSignatures, Pool.agrees_of_unfiled h.structDefs,
    Pool.agrees_of_unfiled h.fieldDefs⟩

/-- The fields of a struct, apart from their positions. -/
theorem fieldsOf (h : m.Akin n) (d : StructDef) :
    List.map (Entry.unfiled id) <$> m.fieldsOf d = List.map (Entry.unfiled id) <$> n.fieldsOf d := by
  exact map_mapM_congr (fun i => Pool.map_unfiled_get h.fieldDefs _) d.fieldIndices

/-- The first handle with a display name, apart from its position. -/
theorem handleNamed? (h : m.Akin n) (name : String) :
    Option.map (Entry.unfiled id) <$> m.handleNamed? name =
      Option.map (Entry.unfiled id) <$> n.handleNamed? name := by
  simp only [Module.handleNamed?, h.agrees.functionName]
  exact findM?_congr_of_map (Pool.map_unfiled_toList h.functionHandles) fun _ => rfl

end Akin

/-! ### Functions -/

variable {m n : Module}

/-- The functions with a body are the same without positions. -/
theorem internalFunctions_unfiled (m : Module) : m.unfiled.internalFunctions =
    m.internalFunctions.map (Entry.unfiled FunctionDef.unfiled) := by
  unfold internalFunctions
  cases hmain : m.main with
  | some main => simp [unfiled, hmain]
  | none => simp [unfiled, hmain]

/-- Modules that are equal but for positions have functions with a body that are equal but for
positions. -/
theorem map_unfiled_internalFunctions (h : m.unfiled = n.unfiled) :
    m.internalFunctions.map (Entry.unfiled FunctionDef.unfiled) =
      n.internalFunctions.map (Entry.unfiled FunctionDef.unfiled) := by
  rw [← internalFunctions_unfiled, h, internalFunctions_unfiled]

/-- Modules that are equal but for positions find functions by name that are equal but for positions. -/
theorem functionNamed?_of_unfiled (h : m.unfiled = n.unfiled) (name : String) :
    Option.map (Entry.unfiled FunctionDef.unfiled) <$> m.functionNamed? name =
      Option.map (Entry.unfiled FunctionDef.unfiled) <$> n.functionNamed? name := by
  simp only [functionNamed?, (akin_of_unfiled h).agrees.nameOf]
  exact findM?_congr_of_map (map_unfiled_internalFunctions h) fun _ => rfl

/-- Modules that are equal but for positions select functions that are equal but for positions. -/
theorem selectFunctions_of_unfiled (h : m.unfiled = n.unfiled) (name : String) :
    List.map (Entry.unfiled FunctionDef.unfiled) <$> m.selectFunctions name =
      List.map (Entry.unfiled FunctionDef.unfiled) <$> n.selectFunctions name := by
  unfold selectFunctions
  split
  · exact congrArg Except.ok (map_unfiled_internalFunctions h)
  · simp only [map_bind]
    refine bind_congr_of_map (functionNamed?_of_unfiled h name) fun found => ?_
    cases found with
    | none => rfl
    | some f => rfl

/-- The comment of a module does not depend on positions. -/
theorem comment?_of_unfiled (h : m.unfiled = n.unfiled) : m.comment? = n.comment? := by
  funext address
  have hakin := akin_of_unfiled h
  have hfind := congrArg (List.find? (·.mapping.start == address)) (map_unfiled_internalFunctions h)
  rw [List.find?_map, List.find?_map] at hfind
  change (m.internalFunctions.find? (·.mapping.start == address)).map _ =
    (n.internalFunctions.find? (·.mapping.start == address)).map _ at hfind
  simp only [comment?, handleOf, hakin.agrees.signatureOf, hakin.agrees.localsOf,
    hakin.agrees.showSignature, hakin.agrees.showTokens]
  -- Both searches end at the same function, or both end at none.
  revert hfind
  cases m.internalFunctions.find? (·.mapping.start == address) with
  | none =>
    cases n.internalFunctions.find? (·.mapping.start == address) with
    | none => exact fun _ => rfl
    | some g => exact fun hfind => absurd hfind (by simp)
  | some f =>
    cases n.internalFunctions.find? (·.mapping.start == address) with
    | none => exact fun hfind => absurd hfind (by simp)
    | some g =>
      intro hfind
      have hentry := Option.some.inj hfind
      have hhandle : f.record.handle = g.record.handle := congrArg (fun e => e.record.handle) hentry
      have hlocals : f.record.code.locals = g.record.code.locals :=
        congrArg (fun e => e.record.code.locals) hentry
      simp only [Module.localsOf, hhandle, hlocals]
      exact Pool.get_bind_congr hakin.functionHandles _ fun _ => rfl

/-- The listing of a function does not depend on where it was read from. -/
theorem disassemble_of_unfiled (h : m.unfiled = n.unfiled) : m.disassemble = n.disassemble := by
  have hakin := akin_of_unfiled h
  funext f
  simp only [disassemble, hakin.agrees.nameOf, comment?_of_unfiled h, hakin.agrees.showInstruction]

/-- The disassembly of a module does not depend on positions. -/
theorem disassembly_of_unfiled (h : m.unfiled = n.unfiled) (name : String) :
    m.disassembly name = n.disassembly name := by
  unfold disassembly
  rw [disassemble_of_unfiled h]
  refine bind_congr_of_map (selectFunctions_of_unfiled h name) fun fs => ?_
  rw [mapM_map_of_forall (Entry.unfiled FunctionDef.unfiled)]
  exact fun _ => rfl

/-! ### References -/

/-- A reference into a pool does not depend on the positions of its entries. -/
theorem Akin.into {α : Type} {p q : Pool α} (h : p.unfiled id = q.unfiled id) :
    Reference.into p = Reference.into q := by
  funext holder index
  simp only [Reference.into, Pool.name_eq h, Pool.size_eq h]

/-- Modules that are akin have the same references to check. -/
theorem Akin.references (h : m.Akin n) : m.references = n.references := by
  have hmodules : m.moduleReferences = n.moduleReferences := by
    simp only [moduleReferences, Akin.into h.addresses, Akin.into h.strings]
    exact flatMap_congr_of_map (Pool.map_unfiled_toList h.moduleHandles) fun _ => rfl
  have hstructs : m.structReferences = n.structReferences := by
    simp only [structReferences, Akin.into h.moduleHandles, Akin.into h.strings]
    exact flatMap_congr_of_map (Pool.map_unfiled_toList h.structHandles) fun _ => rfl
  have hfunctions : m.functionReferences = n.functionReferences := by
    simp only [functionReferences, Akin.into h.moduleHandles, Akin.into h.strings,
      Akin.into h.functionSignatures]
    exact flatMap_congr_of_map (Pool.map_unfiled_toList h.functionHandles) fun _ => rfl
  have hstructDefs : m.structDefReferences = n.structDefReferences := by
    simp only [structDefReferences, Akin.into h.structHandles, Pool.size_eq h.fieldDefs]
    exact flatMap_congr_of_map (Pool.map_unfiled_toList h.structDefs) fun _ => rfl
  have hfieldDefs : m.fieldDefReferences = n.fieldDefReferences := by
    simp only [fieldDefReferences, Akin.into h.structHandles, Akin.into h.strings,
      Akin.into h.typeSignatures]
    exact flatMap_congr_of_map (Pool.map_unfiled_toList h.fieldDefs) fun _ => rfl
  -- The tokens come from three tables, whose records are equal as they are.
  have htypes : m.typeSignatures.toList.map (·.record) = n.typeSignatures.toList.map (·.record) :=
    map_congr_of_map (Pool.map_unfiled_toList h.typeSignatures) fun _ => rfl
  have hsignatures : m.functionSignatures.toList.flatMap (fun e => e.record.returns ++ e.record.params) =
      n.functionSignatures.toList.flatMap (fun e => e.record.returns ++ e.record.params) :=
    flatMap_congr_of_map (Pool.map_unfiled_toList h.functionSignatures) fun _ => rfl
  have hlocals : m.localSignatures.toList.flatMap (·.record) = n.localSignatures.toList.flatMap (·.record) :=
    flatMap_congr_of_map (Pool.map_unfiled_toList h.localSignatures) fun _ => rfl
  have htokens : m.tokenReferences = n.tokenReferences := by
    simp only [tokenReferences, signatureTokens, htypes, hsignatures, hlocals,
      Akin.into h.structHandles]
  simp only [Module.references, hmodules, hstructs, hfunctions, hstructDefs, hfieldDefs, htokens]

/-- The check of references comes to the same for modules that are akin. -/
theorem Akin.checkReferences (h : m.Akin n) : m.checkReferences = n.checkReferences := by
  unfold Module.checkReferences
  rw [h.references]

end Module

/-! ## The layout -/

/-- Entries are placed by the sizes of their records, which their positions do not change. -/
theorem Entry.placedFrom_unfiled {bare : α → α} {size : α → Nat} (hsize : ∀ a, size (bare a) = size a)
    (base : Int) (entries : List (Entry α)) :
    placedFrom size base (entries.map (Entry.unfiled bare)) =
      (placedFrom size base entries).map (Entry.unfiled bare) := by
  induction entries generalizing base with
  | nil => rfl
  | cons e rest ih =>
    have hrecord : size (e.unfiled bare).record = size e.record := hsize e.record
    rw [List.map_cons, placedFrom, hrecord, ih]
    rfl

namespace Pool

/-- Mapping a pool from a base does not depend on the positions of its entries. -/
theorem mapFrom_unfiled (bare : α → α) {size : α → Nat} (hsize : ∀ a, size (bare a) = size a) (base : Int)
    (p : Pool α) :
    (p.unfiled bare).mapFrom size base = ((p.mapFrom size base).1.unfiled bare, (p.mapFrom size base).2) := by
  simp only [mapFrom, Entry.mapFrom_eq, toList_unfiled, Entry.placedFrom_unfiled hsize, List.map_map]
  refine Prod.ext ?_ ?_
  · simp [unfiled]
  · simp [Function.comp_def, Entry.unfiled, hsize]

/-- Giving an entry a mapping does not depend on the positions of the entries. -/
theorem remap_unfiled (bare : α → α) (p : Pool α) (index : Nat) (mapping : Extent) :
    (p.unfiled bare).remap index mapping = (p.remap index mapping).unfiled bare := by
  have hentries : (p.entries.map (Entry.unfiled bare)).modify index (fun e => { e with mapping }) =
      (p.entries.modify index fun e => { e with mapping }).map (Entry.unfiled bare) := by
    refine Array.ext_getElem? fun i => ?_
    simp only [Array.getElem?_modify, Array.getElem?_map]
    split
    · cases p.entries[i]? with
      | none => rfl
      | some e => rfl
    · rfl
  simp only [remap, unfiled, hentries]

end Pool

namespace Module

/-- Mapping the data of a module does not depend on positions. -/
theorem mapData_unfiled (m : Module) (base : Int) :
    m.unfiled.mapData base = ((m.mapData base).1.unfiled, (m.mapData base).2) := by
  simp only [mapData, unfiled]
  rw [Pool.mapFrom_unfiled id, Pool.mapFrom_unfiled id, Pool.mapFrom_unfiled id]
  all_goals exact fun _ => rfl

/-- Mapping the functions of a module does not depend on positions. -/
theorem mapFunctions_unfiled (m : Module) (base : Int) :
    m.unfiled.mapFunctions base = ((m.mapFunctions base).1.unfiled, (m.mapFunctions base).2) := by
  cases hmain : m.main with
  | some main =>
    simp only [mapFunctions, unfiled, hmain, Option.map_some]
    rfl
  | none =>
    simp only [mapFunctions, unfiled, hmain, Option.map_none]
    rw [Pool.mapFrom_unfiled FunctionDef.unfiled]
    exact fun _ => rfl

/-- Giving handles the mappings of their functions does not depend on positions. -/
theorem mapHandles_unfiled (m : Module) : m.unfiled.mapHandles = m.mapHandles.unfiled := by
  have hfold (fs : List (Entry FunctionDef)) (p : Pool FunctionHandle) :
      (fs.map (Entry.unfiled FunctionDef.unfiled)).foldl
        (fun pool f => pool.remap f.record.handle f.mapping) (p.unfiled id) =
      (fs.foldl (fun pool f => pool.remap f.record.handle f.mapping) p).unfiled id := by
    induction fs generalizing p with
    | nil => rfl
    | cons f rest ih =>
      rw [List.map_cons, List.foldl_cons, List.foldl_cons, Pool.remap_unfiled, ih]
      rfl
  unfold mapHandles
  rw [internalFunctions_unfiled]
  simp only [unfiled, hfold]

/-- The handles without a body in the module are the same without positions. -/
theorem externalHandles_unfiled (m : Module) :
    m.unfiled.externalHandles = m.externalHandles.map (Entry.unfiled id) := by
  have hinternal : m.unfiled.internalFunctions.map (·.record.handle) =
      m.internalFunctions.map (·.record.handle) := by
    rw [internalFunctions_unfiled, List.map_map]
    rfl
  have hhandles : m.unfiled.functionHandles.toList = m.functionHandles.toList.map (Entry.unfiled id) :=
    Pool.toList_unfiled _
  simp only [externalHandles, hinternal, hhandles, List.filter_map]
  rfl

/-- Mapping the imports of a module does not depend on positions. -/
theorem mapImports_unfiled (m : Module) (base size : Int) :
    m.unfiled.mapImports base size = ((m.mapImports base size).1.unfiled, (m.mapImports base size).2) := by
  have hfold (hs : List (Entry FunctionHandle)) (p : Pool FunctionHandle) (base : Int) :
      (hs.map (Entry.unfiled id)).foldl (fun (laid : Pool FunctionHandle × Int) h =>
        (laid.1.remap h.index ⟨laid.2, size⟩, laid.2 + size)) (p.unfiled id, base) =
      ((hs.foldl (fun (laid : Pool FunctionHandle × Int) h =>
        (laid.1.remap h.index ⟨laid.2, size⟩, laid.2 + size)) (p, base)).1.unfiled id,
      (hs.foldl (fun (laid : Pool FunctionHandle × Int) h =>
        (laid.1.remap h.index ⟨laid.2, size⟩, laid.2 + size)) (p, base)).2) := by
    induction hs generalizing p base with
    | nil => rfl
    | cons h rest ih =>
      simp only [List.map_cons, List.foldl_cons, Pool.remap_unfiled]
      exact ih _ _
  unfold mapImports
  rw [externalHandles_unfiled]
  simp only [unfiled, hfold]

/-- The layout does not depend on where a module was read from. -/
theorem layOut_unfiled (config : Config) (m : Module) :
    m.unfiled.layOut config = ((m.layOut config).1.unfiled, (m.layOut config).2) := by
  simp only [layOut, mapData_unfiled, mapFunctions_unfiled, mapHandles_unfiled, mapImports_unfiled]
  rfl

/-! ### Publication -/

variable {m n : Module}

/-- The entries that are laid out as data are the same without positions. -/
theorem dataEntries_unfiled (m : Module) :
    m.unfiled.dataEntries = m.dataEntries.map (Entry.unfiled id) := by
  have hpool {α : Type} (make : α → Datum) (p : Pool α) :
      (p.unfiled id).toList.map (Entry.map make) = (p.toList.map (Entry.map make)).map (Entry.unfiled id) := by
    simp [Function.comp_def, Entry.map, Entry.unfiled]
  simp only [dataEntries, unfiled, hpool, List.map_append]

/-- Publishing the constants of a module does not depend on positions. -/
theorem publishData_of_unfiled (h : m.unfiled = n.unfiled) : m.publishData = n.publishData := by
  have hentries : m.dataEntries.map (Entry.unfiled id) = n.dataEntries.map (Entry.unfiled id) := by
    rw [← dataEntries_unfiled, h, dataEntries_unfiled]
  have hcontents : m.dataEntries.map (fun e => (e.mapping.start, e.record.bytes)) =
      n.dataEntries.map fun e => (e.mapping.start, e.record.bytes) :=
    map_congr_of_map hentries fun _ => rfl
  funext base stop host
  have hsymbols : m.dataEntries.foldl publishDatum host = n.dataEntries.foldl publishDatum host :=
    foldl_congr_of_map hentries (fun _ _ => rfl) host
  simp only [publishData, hcontents, hsymbols]

/-- Publishing the functions of a module does not depend on positions. -/
theorem publishCode_of_unfiled (h : m.unfiled = n.unfiled) : m.publishCode = n.publishCode := by
  have hentries := map_unfiled_internalFunctions h
  have hfunction : publishFunction m = publishFunction n := by
    funext host f
    simp only [publishFunction, (akin_of_unfiled h).agrees.nameOf]
  have hcontents : m.internalFunctions.map (fun f => (f.mapping.start, f.record.code.bytes)) =
      n.internalFunctions.map fun f => (f.mapping.start, f.record.code.bytes) :=
    map_congr_of_map hentries fun _ => rfl
  funext base stop host
  have hsymbols : m.internalFunctions.foldlM (publishFunction n) host =
      n.internalFunctions.foldlM (publishFunction n) host :=
    foldlM_congr_of_map hentries (fun _ _ => rfl) host
  simp only [publishCode, hfunction, hcontents, hsymbols]

/-- Publishing the functions elsewhere does not depend on positions. -/
theorem publishImports_of_unfiled (h : m.unfiled = n.unfiled) : m.publishImports = n.publishImports := by
  have hentries : m.externalHandles.map (Entry.unfiled id) = n.externalHandles.map (Entry.unfiled id) := by
    rw [← externalHandles_unfiled, h, externalHandles_unfiled]
  have himport : publishImport m = publishImport n := by
    funext host e
    simp only [publishImport, (akin_of_unfiled h).agrees.functionName]
  funext base stop host
  have hsymbols : m.externalHandles.foldlM (publishImport n) host =
      n.externalHandles.foldlM (publishImport n) host :=
    foldlM_congr_of_map hentries (fun _ _ => rfl) host
  simp only [publishImports, himport, hsymbols]

/-- What is published does not depend on where a module was read from. -/
theorem publish_of_unfiled (h : m.unfiled = n.unfiled) (config : Config) (bounds : Bounds) (host : Host) :
    m.publish config bounds host = n.publish config bounds host := by
  simp only [publish, publishData_of_unfiled h, publishCode_of_unfiled h, publishImports_of_unfiled h]

end Module

/-- The graph of a function. -/
theorem Analysis.graph_of_unfiled {a b : Analysis} (h : a.owner.unfiled = b.owner.unfiled)
    (name : String) : a.graph name = b.graph name := by
  unfold graph
  refine bind_congr_of_map (Module.selectFunctions_of_unfiled h name) fun fs => ?_
  cases fs with
  | nil => rfl
  | cons f rest => rfl

end MoveBytecode
