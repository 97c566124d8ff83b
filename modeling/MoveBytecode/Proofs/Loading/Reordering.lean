import MoveBytecode.Proofs.Format.Tables
import MoveBytecode.Proofs.Loading.Matching
import MoveBytecode.Proofs.Loading.Totality

/-!
# The order and the placement of the tables

Every kind of table has a holding of its own in a module, which only tables of this kind extend
(`Table.decode_eq`). What a run over a directory leaves in a holding is therefore what the tables of its
kind leave there one after the other (`Module.grown_of_foldlM`), wherever they are listed and placed.
-/

namespace MoveBytecode

open Reader

/-! ## Holdings -/

/-- What a module holds of the tables of a kind: the function of a script, or a pool. -/
def Holding : TableKind → Type
  | .main => Option (Entry FunctionDef)
  | kind => Pool (Contents FunctionDef kind)

/-- A holding without the positions of its entries. -/
def Holding.unfiled : {kind : TableKind} → Holding kind → Holding kind
  | .main, x => Option.map (Entry.unfiled FunctionDef.unfiled) x
  | .functionDefs, p => Pool.unfiled FunctionDef.unfiled p
  | .moduleHandles, p | .structHandles, p | .functionHandles, p | .addressPool, p | .stringPool, p
  | .bytearrayPool, p | .structDefs, p | .fieldDefs, p | .typeSignatures, p
  | .functionSignatures, p | .localSignatures, p => Pool.unfiled id p

namespace Module

/-- What a module holds of the tables of a kind. -/
def holding (m : Module) : (kind : TableKind) → Holding kind
  | .moduleHandles => m.moduleHandles
  | .structHandles => m.structHandles
  | .functionHandles => m.functionHandles
  | .addressPool => m.addresses
  | .stringPool => m.strings
  | .bytearrayPool => m.bytearrays
  | .main => m.main
  | .structDefs => m.structDefs
  | .fieldDefs => m.fieldDefs
  | .functionDefs => m.functionDefs
  | .typeSignatures => m.typeSignatures
  | .functionSignatures => m.functionSignatures
  | .localSignatures => m.localSignatures

/-- The module with another holding of the tables of a kind. -/
def hold (m : Module) : (kind : TableKind) → Holding kind → Module
  | .moduleHandles, x => { m with moduleHandles := x }
  | .structHandles, x => { m with structHandles := x }
  | .functionHandles, x => { m with functionHandles := x }
  | .addressPool, x => { m with addresses := x }
  | .stringPool, x => { m with strings := x }
  | .bytearrayPool, x => { m with bytearrays := x }
  | .main, x => { m with main := x }
  | .structDefs, x => { m with structDefs := x }
  | .fieldDefs, x => { m with fieldDefs := x }
  | .functionDefs, x => { m with functionDefs := x }
  | .typeSignatures, x => { m with typeSignatures := x }
  | .functionSignatures, x => { m with functionSignatures := x }
  | .localSignatures, x => { m with localSignatures := x }

/-- Two modules that may differ in their tables alone. -/
structure SameShell (m n : Module) : Prop where
  data : n.data = m.data
  sections : n.sections = m.sections
  kind : n.kind = m.kind
  info : n.info = m.info

/-- A module differs from itself in nothing. -/
theorem SameShell.refl (m : Module) : m.SameShell m := ⟨rfl, rfl, rfl, rfl⟩

/-- Differing in the tables alone goes on from one module to the next. -/
theorem SameShell.trans {m n o : Module} (h : m.SameShell n) (k : n.SameShell o) : m.SameShell o :=
  ⟨k.data.trans h.data, k.sections.trans h.sections, k.kind.trans h.kind, k.info.trans h.info⟩

/-- A module with another holding differs from the module in its tables alone. -/
theorem sameShell_hold (m : Module) (kind : TableKind) (x : Holding kind) :
    m.SameShell (m.hold kind x) := by
  cases kind <;> exact ⟨rfl, rfl, rfl, rfl⟩

/-- The holding that a module is given is the one that it has. -/
@[simp] theorem holding_hold (m : Module) (kind : TableKind) (x : Holding kind) :
    (m.hold kind x).holding kind = x := by
  cases kind <;> rfl

/-- A module that is given a holding keeps those of all other kinds. -/
theorem holding_hold_of_ne (m : Module) {kind other : TableKind} (x : Holding kind) (h : other ≠ kind) :
    (m.hold kind x).holding other = m.holding other := by
  cases kind <;> cases other <;> first | rfl | exact absurd rfl h

/-- Modules with the same holdings of the tables without code, apart from positions, are akin. -/
theorem akin_of_holding {m n : Module} (h : ∀ kind : TableKind, kind.holdsCode = false →
    (m.holding kind).unfiled = (n.holding kind).unfiled) : m.Akin n where
  moduleHandles := h .moduleHandles rfl
  structHandles := h .structHandles rfl
  functionHandles := h .functionHandles rfl
  addresses := h .addressPool rfl
  bytearrays := h .bytearrayPool rfl
  strings := h .stringPool rfl
  typeSignatures := h .typeSignatures rfl
  functionSignatures := h .functionSignatures rfl
  localSignatures := h .localSignatures rfl
  structDefs := h .structDefs rfl
  fieldDefs := h .fieldDefs rfl

/-- Modules with the same holdings, apart from positions, say the same. -/
theorem unfiled_of_holding {m n : Module}
    (h : ∀ kind, (m.holding kind).unfiled = (n.holding kind).unfiled) (hkind : m.kind = n.kind)
    (hinfo : m.info = n.info) : m.unfiled = n.unfiled := by
  have hakin := akin_of_holding fun kind _ => h kind
  have hfunctionDefs : m.functionDefs.unfiled FunctionDef.unfiled =
      n.functionDefs.unfiled FunctionDef.unfiled := h .functionDefs
  have hmain : m.main.map (Entry.unfiled FunctionDef.unfiled) =
      n.main.map (Entry.unfiled FunctionDef.unfiled) := h .main
  simp only [unfiled, hkind, hinfo, hmain, hfunctionDefs, hakin.moduleHandles, hakin.structHandles,
    hakin.functionHandles, hakin.addresses, hakin.bytearrays, hakin.strings, hakin.typeSignatures,
    hakin.functionSignatures, hakin.localSignatures, hakin.structDefs, hakin.fieldDefs]

end Module

/-! ## One table -/

namespace Table

/-- A holding extended by the table at a cursor. -/
def extend (m : Module) (c : Cursor) : (kind : TableKind) → Holding kind → Except Fault (Holding kind)
  | .main, x => do
    if Option.isSome x then throw .duplicateMain
    return some (← ((readMain m).runAt c).1)
  | .addressPool, p => do
    if c.available % addressLength ≠ 0 then throw (.addressPoolSize c.available)
    readInto c (reader m .addressPool) p
  | .moduleHandles, p => readInto c (reader m .moduleHandles) p
  | .structHandles, p => readInto c (reader m .structHandles) p
  | .functionHandles, p => readInto c (reader m .functionHandles) p
  | .stringPool, p => readInto c (reader m .stringPool) p
  | .bytearrayPool, p => readInto c (reader m .bytearrayPool) p
  | .structDefs, p => readInto c (reader m .structDefs) p
  | .fieldDefs, p => readInto c (reader m .fieldDefs) p
  | .functionDefs, p => readInto c (reader m .functionDefs) p
  | .typeSignatures, p => readInto c (reader m .typeSignatures) p
  | .functionSignatures, p => readInto c (reader m .functionSignatures) p
  | .localSignatures, p => readInto c (reader m .localSignatures) p

/-- A holding extended by a table of its kind. -/
def grow (m : Module) (kind : TableKind) (x : Holding kind) (s : Section) :
    Except Fault (Holding kind) := do
  extend m (← cursor m s) kind x

/-- Reading a table extends the holding of its kind, and that is all. -/
theorem decode_eq (m : Module) (s : Section) :
    decode m s = grow m s.kind (m.holding s.kind) s >>= fun x => pure (m.hold s.kind x) := by
  unfold decode grow
  rw [bind_assoc]
  refine bind_congr fun c => ?_
  obtain ⟨kind, offset, size⟩ := s
  cases kind with
  | main =>
    -- The table of a script is the only one that asks what the module holds already.
    by_cases hmain : m.main.isSome = true
    · have hextend : extend m c .main (m.holding .main) = .error .duplicateMain := if_pos hmain
      rw [hextend]
      exact if_pos hmain
    · have hextend : extend m c .main (m.holding .main) =
          ((readMain m).runAt c).1 >>= fun e => pure (some e) := if_neg hmain
      rw [hextend]
      refine (if_neg hmain).trans ?_
      cases ((readMain m).runAt c).1 with
      | error fault => rfl
      | ok e => rfl
  | addressPool =>
    by_cases hsize : c.available % addressLength ≠ 0
    · have hextend : extend m c .addressPool m.addresses = .error (.addressPoolSize c.available) :=
        if_pos hsize
      rw [show extend m c .addressPool (m.holding .addressPool) = _ from hextend]
      exact if_pos hsize
    · have hextend : extend m c .addressPool m.addresses = readInto c readAddress m.addresses :=
        if_neg hsize
      rw [show extend m c .addressPool (m.holding .addressPool) = _ from hextend]
      exact if_neg hsize
  | moduleHandles | structHandles | functionHandles | stringPool | bytearrayPool | structDefs
  | fieldDefs | typeSignatures | functionSignatures | localSignatures | functionDefs => rfl

/-- A second function of a script is refused, wherever it stands. -/
theorem extend_main_follows {m n : Module} (h : m.Akin n) {c d : Cursor} (hcd : c.Abreast d)
    {x y : Option (Entry FunctionDef)}
    (hxy : x.map (Entry.unfiled FunctionDef.unfiled) = y.map (Entry.unfiled FunctionDef.unfiled)) :
    Follows (fun x y : Holding .main => x.unfiled = y.unfiled) (extend m c .main x)
      (extend n d .main y) := by
  have hsome : x.isSome = y.isSome := by
    have hisSome := congrArg Option.isSome hxy
    simpa using hisSome
  intro x' hx
  by_cases hmain : x.isSome = true
  · have hrefused : extend m c .main x = .error .duplicateMain := if_pos hmain
    simp [hrefused] at hx
  · have hextend : extend m c .main x = ((readMain m).runAt c).1 >>= fun e => pure (some e) :=
      if_neg hmain
    rw [hextend] at hx
    obtain ⟨e, he, hx⟩ := bind_eq_ok.mp hx
    obtain rfl := pure_eq_ok.mp hx
    obtain ⟨e', k, hee, -, -, hrun⟩ :=
      matches_readMain h c d e _ hcd (runs_iff_runAt.mpr (Prod.ext he rfl))
    refine ⟨some e', ?_, congrArg some hee⟩
    have hextend' : extend n d .main y = ((readMain n).runAt d).1 >>= fun e => pure (some e) :=
      if_neg (hsome ▸ hmain)
    rw [hextend']
    exact bind_eq_ok.mpr ⟨e', congrArg Prod.fst (runs_iff_runAt.mp hrun), rfl⟩

/-- Cursors abreast extend a holding by the same entries, apart from positions. -/
theorem extend_follows {m n : Module} {kind : TableKind} (h : kind.holdsCode = true → m.Akin n)
    {c d : Cursor} (hcd : c.Abreast d) {x y : Holding kind} (hxy : x.unfiled = y.unfiled) :
    Follows (fun x y => x.unfiled = y.unfiled) (extend m c kind x) (extend n d kind y) := by
  cases kind with
  | main => exact extend_main_follows (h rfl) hcd hxy
  | addressPool =>
    by_cases hsize : c.available % addressLength ≠ 0
    · have hrefused : extend m c .addressPool x = .error (.addressPoolSize c.available) := if_pos hsize
      exact fun _ hx => by simp [hrefused] at hx
    · have hextend : extend m c .addressPool x = readInto c (reader m .addressPool) x := if_neg hsize
      have hextend' : extend n d .addressPool y = readInto d (reader n .addressPool) y :=
        if_neg (hcd.available ▸ hsize)
      rw [hextend, hextend']
      exact readInto_follows (matches_reader h) hxy hcd
  | moduleHandles | structHandles | functionHandles | stringPool | bytearrayPool | structDefs
  | fieldDefs | typeSignatures | functionSignatures | localSignatures | functionDefs =>
    exact readInto_follows (matches_reader h) hxy hcd

/-- Two tables of one kind with the same bytes, within their files. -/
structure SameBody (m : Module) (s : Section) (n : Module) (t : Section) : Prop where
  inside : s.offset + s.size ≤ m.data.size
  inside' : t.offset + t.size ≤ n.data.size
  bytes : m.data.window s.offset s.size = n.data.window t.offset t.size

/-- Growing by the same table leaves holdings that are equal but for positions so. -/
theorem grow_follows {m n : Module} {kind : TableKind} (h : kind.holdsCode = true → m.Akin n)
    {s t : Section} (hst : SameBody m s n t) {x y : Holding kind} (hxy : x.unfiled = y.unfiled) :
    Follows (fun x y => x.unfiled = y.unfiled) (grow m kind x s) (grow n kind y t) := by
  unfold grow
  rw [cursor_eq hst.inside, cursor_eq hst.inside']
  exact extend_follows h (Cursor.abreast_of_window hst.inside hst.inside' hst.bytes) hxy

/-- Tables with the same bytes, one after the other. -/
theorem foldlM_grow_follows {m n : Module} {kind : TableKind} (h : kind.holdsCode = true → m.Akin n)
    {l l' : List Section} (hl : List.Forall₂ (fun s t => SameBody m s n t) l l') {x y : Holding kind}
    (hxy : x.unfiled = y.unfiled) :
    Follows (fun x y => x.unfiled = y.unfiled) (l.foldlM (grow m kind) x)
      (l'.foldlM (grow n kind) y) := by
  induction hl generalizing x y with
  | nil =>
    intro x' hx
    obtain rfl := pure_eq_ok.mp hx
    exact ⟨y, rfl, hxy⟩
  | cons hst _ ih =>
    intro x'' hx
    rw [List.foldlM_cons] at hx ⊢
    obtain ⟨x', hgrow, hrest⟩ := bind_eq_ok.mp hx
    obtain ⟨y', hy', hxy'⟩ := grow_follows h hst hxy x' hgrow
    obtain ⟨y'', hy'', hxy''⟩ := ih hxy' x'' hrest
    exact ⟨y'', bind_eq_ok.mpr ⟨y', hy', hy''⟩, hxy''⟩

end Table

/-! ## All tables of a class -/

namespace Module

open Table

/-- The directory entries of a kind. -/
def ofKind (kind : TableKind) (l : List Section) : List Section := l.filter (·.kind == kind)

/-- Tables within the file, all of which hold code or none of which does. -/
structure Uniform (m : Module) (code : Bool) (l : List Section) : Prop where
  holdsCode : ∀ s ∈ l, s.kind.holdsCode = code
  inside : ∀ s ∈ l, s.offset + s.size ≤ m.data.size

variable {m m' n : Module} {code : Bool} {l : List Section}

/-- Tables other than the first are of one class if all are. -/
theorem Uniform.rest {s : Section} (h : m.Uniform code (s :: l)) : m.Uniform code l :=
  ⟨fun t ht => h.holdsCode t (List.mem_cons_of_mem _ ht), fun t ht => h.inside t (List.mem_cons_of_mem _ ht)⟩

/-- Whether tables are of one class depends on the data of the module only. -/
theorem Uniform.of_data (h : m.Uniform code l) (hdata : m'.data = m.data) : m'.Uniform code l :=
  ⟨h.holdsCode, hdata ▸ h.inside⟩

/-- Tables have the bodies that they have, also after others were read. -/
theorem Uniform.sameBody (h : m.Uniform code l) (hdata : m'.data = m.data) (kind : TableKind) :
    List.Forall₂ (fun s t => SameBody m s m' t) (ofKind kind l) (ofKind kind l) := by
  refine List.forall₂_same.mpr fun s hs => ?_
  have hinside := h.inside s (List.mem_filter.mp hs).1
  exact ⟨hinside, hdata ▸ hinside, by rw [hdata]⟩

/-- Tables of one class leave the holdings of the other as they are; modules that differ in tables with
code alone are akin. -/
theorem akin_hold {kind other : TableKind} (x : Holding kind) (h : kind.holdsCode = other.holdsCode) :
    other.holdsCode = true → m.Akin (m.hold kind x) := by
  intro hcode
  refine akin_of_holding fun k hk => ?_
  rw [holding_hold_of_ne]
  rintro rfl
  simp [hk, hcode] at h

/-- What a run over tables leaves: in every holding of their class, what the tables of its kind leave
there one after the other. -/
structure Grown (m : Module) (code : Bool) (l : List Section) (m' : Module) : Prop where
  shell : m.SameShell m'
  other : ∀ kind : TableKind, kind.holdsCode = !code → m'.holding kind = m.holding kind
  holding : ∀ kind : TableKind, kind.holdsCode = code →
    ∃ x, (ofKind kind l).foldlM (grow m kind) (m.holding kind) = .ok x ∧
      x.unfiled = (m'.holding kind).unfiled

/-- Every kind of table is read for itself. -/
theorem grown_of_foldlM (hl : m.Uniform code l) (h : l.foldlM Table.decode m = .ok m') :
    m.Grown code l m' := by
  induction l generalizing m with
  | nil =>
    obtain rfl := pure_eq_ok.mp h
    exact ⟨.refl m, fun _ _ => rfl, fun kind _ => ⟨_, rfl, rfl⟩⟩
  | cons s rest ih =>
    rw [List.foldlM_cons, decode_eq] at h
    obtain ⟨m₁, hdecode, hrest⟩ := bind_eq_ok.mp h
    obtain ⟨x, hgrow, hm₁⟩ := bind_eq_ok.mp hdecode
    obtain rfl := pure_eq_ok.mp hm₁
    have hshell := sameShell_hold m s.kind x
    have hcode := hl.holdsCode s List.mem_cons_self
    have hgrown := ih (hl.rest.of_data hshell.data) hrest
    refine ⟨hshell.trans hgrown.shell, fun kind hkind => ?_, fun kind hkind => ?_⟩
    · rw [hgrown.other kind hkind]
      refine holding_hold_of_ne m x ?_
      rintro rfl
      simp [hkind] at hcode
    · obtain ⟨y, hy, hyunfiled⟩ := hgrown.holding kind hkind
      -- The rest is read from the module as it was before, to the same entries.
      have hakin : kind.holdsCode = true → (m.hold s.kind x).Akin m := fun hk =>
        (akin_hold x (hcode.trans hkind.symm) hk).symm
      have hbodies := (hl.rest.of_data hshell.data).sameBody hshell.data.symm kind
      obtain ⟨z, hz, hzunfiled⟩ := foldlM_grow_follows hakin hbodies rfl y hy
      refine ⟨z, ?_, hzunfiled.symm.trans hyunfiled⟩
      by_cases heq : s.kind = kind
      · subst heq
        rw [holding_hold] at hz
        have hfilter : ofKind s.kind (s :: rest) = s :: ofKind s.kind rest := by simp [ofKind]
        rw [hfilter, List.foldlM_cons]
        exact bind_eq_ok.mpr ⟨x, hgrow, hz⟩
      · have hfilter : ofKind kind (s :: rest) = ofKind kind rest := by simp [ofKind, heq]
        rw [holding_hold_of_ne m x (Ne.symm heq)] at hz
        rwa [hfilter]

/-- Tables are read if those of every kind are, for themselves. -/
theorem exists_foldlM_decode (hl : m.Uniform code l)
    (h : ∀ kind : TableKind, kind.holdsCode = code →
      Answers ((ofKind kind l).foldlM (grow m kind) (m.holding kind))) :
    Answers (l.foldlM Table.decode m) := by
  induction l generalizing m with
  | nil => exact answers_pure m
  | cons s rest ih =>
    have hcode := hl.holdsCode s List.mem_cons_self
    have hfilter : ofKind s.kind (s :: rest) = s :: ofKind s.kind rest := by simp [ofKind]
    obtain ⟨z, hz⟩ := h s.kind hcode
    rw [hfilter, List.foldlM_cons] at hz
    obtain ⟨x, hx, hz⟩ := bind_eq_ok.mp hz
    have hshell := sameShell_hold m s.kind x
    rw [List.foldlM_cons, decode_eq]
    refine answers_bind_of_ok (bind_eq_ok.mpr ⟨x, hx, rfl⟩) (ih (hl.rest.of_data hshell.data) ?_)
    intro kind hkind
    -- The tables with code read what those without have left, which a table with code does not change.
    have hakin : kind.holdsCode = true → m.Akin (m.hold s.kind x) :=
      akin_hold x (hcode.trans hkind.symm)
    have hfollows {y y' : Holding kind} (hy : y.unfiled = y'.unfiled) :=
      foldlM_grow_follows hakin (hl.rest.sameBody hshell.data kind) hy
    by_cases heq : s.kind = kind
    · subst heq
      rw [holding_hold]
      exact (hfollows rfl z hz).imp fun _ => And.left
    · have hrest : ofKind kind (s :: rest) = ofKind kind rest := by simp [ofKind, heq]
      obtain ⟨w, hw⟩ := h kind hkind
      rw [hrest] at hw
      rw [holding_hold_of_ne m x (Ne.symm heq)]
      exact (hfollows rfl w hw).imp fun _ => And.left

/-- Two directories with the same bodies for every kind lead to the same holdings. -/
theorem foldlM_decode_follows {l' : List Section} (hl : m.Uniform code l) (hl' : n.Uniform code l')
    (hbodies : ∀ kind : TableKind, kind.holdsCode = code →
      List.Forall₂ (fun s t => SameBody m s n t) (ofKind kind l) (ofKind kind l'))
    (h : ∀ kind, (m.holding kind).unfiled = (n.holding kind).unfiled) :
    Follows (fun m' n' => m.SameShell m' ∧ n.SameShell n' ∧
      ∀ kind, (m'.holding kind).unfiled = (n'.holding kind).unfiled)
      (l.foldlM Table.decode m) (l'.foldlM Table.decode n) := by
  intro m' hm'
  have hgrown := grown_of_foldlM hl hm'
  have hfollows (kind : TableKind) (hkind : kind.holdsCode = code) :=
    foldlM_grow_follows (fun _ => akin_of_holding fun kind _ => h kind) (hbodies kind hkind) (h kind)
  -- The second directory answers kind by kind as the first does, so that as a whole it answers too.
  obtain ⟨n', hn'⟩ := exists_foldlM_decode hl' fun kind hkind => by
    obtain ⟨x, hx, -⟩ := hgrown.holding kind hkind
    obtain ⟨y, hy, -⟩ := hfollows kind hkind x hx
    exact ⟨y, hy⟩
  have hgrown' := grown_of_foldlM hl' hn'
  refine ⟨n', hn', hgrown.shell, hgrown'.shell, fun kind => ?_⟩
  by_cases hkind : kind.holdsCode = code
  · obtain ⟨x, hx, hxm⟩ := hgrown.holding kind hkind
    obtain ⟨y, hy, hxy⟩ := hfollows kind hkind x hx
    obtain ⟨z, hz, hzn⟩ := hgrown'.holding kind hkind
    obtain rfl := Except.ok.inj (hy.symm.trans hz)
    exact hxm.symm.trans (hxy.trans hzn)
  · have hother : kind.holdsCode = !code := by
      cases hc : code <;> simp_all
    rw [hgrown.other kind hother, hgrown'.other kind hother, h kind]

end Module

/-! ## Directories -/

namespace Directory

/-- A directory entry that is read lies within the data. -/
theorem inside_of_readSection {c c' : Cursor} {s : Section} (h : Runs readSection c s c') :
    c.Reaches c' ∧ s.offset + s.size ≤ c.data.size := by
  obtain ⟨byte, d, hbyte, h⟩ := runs_bind.mp h
  split at h
  · exact absurd h not_runs_throw
  · obtain ⟨offset, d₁, hoffset, h⟩ := runs_bind.mp h
    obtain ⟨size, d₂, hsize, h⟩ := runs_bind.mp h
    obtain ⟨_, _, hget, h⟩ := runs_bind.mp h
    obtain ⟨rfl, rfl⟩ := runs_get.mp hget
    have hreach := (advances_u8 _ _ _ hbyte).trans <| (composes_advances.u31 _ _ _ hoffset).trans <|
      composes_advances.u31 _ _ _ hsize
    dsimp only at h
    split at h
    · simp [not_runs_throw] at h
    · rename_i hinside
      obtain ⟨rfl, rfl⟩ := runs_pure.mp h
      rw [hreach.data] at hinside
      exact ⟨hreach, Nat.not_lt.mp hinside⟩

/-- The tables of a directory that was read are within the file. -/
theorem inside_of_readMany {count : Nat} {c c' : Cursor} {l : List Section}
    (h : Runs (readMany count) c l c') : ∀ s ∈ l, s.offset + s.size ≤ c.data.size := by
  induction count generalizing c l with
  | zero =>
    obtain ⟨rfl, -⟩ := runs_pure.mp h
    simp
  | succ count ih =>
    obtain ⟨s, d, hs, h⟩ := runs_bind.mp h
    obtain ⟨rest, d', hrest, h⟩ := runs_bind.mp h
    obtain ⟨rfl, rfl⟩ := runs_pure.mp h
    obtain ⟨hreach, hinside⟩ := inside_of_readSection hs
    exact List.forall_mem_cons.mpr ⟨hinside, hreach.data ▸ ih hrest⟩

end Directory

namespace Module

variable {m n : Module} {data data' : Bytes}

/-- The tables of a directory lie within the data, and none of them has been read. -/
theorem readDirectory_eq_ok (h : readDirectory data = .ok m) :
    ∃ magic sections, m = start data magic sections ∧
      ∀ s ∈ sections, s.offset + s.size ≤ data.size := by
  obtain ⟨magic, -, h⟩ := bind_eq_ok.mp h
  obtain ⟨c, hc, h⟩ := bind_eq_ok.mp h
  obtain ⟨sections, hsections, h⟩ := bind_eq_ok.mp h
  obtain rfl := pure_eq_ok.mp h
  obtain ⟨-, rfl, -⟩ := Cursor.inside_of_make hc
  obtain ⟨count, d, hcount, hmany⟩ := runs_bind.mp
    (runs_iff_runAt.mpr (Prod.ext hsections rfl) : Runs Directory.read c sections _)
  refine ⟨magic, sections, rfl, ?_⟩
  rw [← (advances_u8 _ _ _ hcount).data]
  exact Directory.inside_of_readMany hmany

/-- The kinds and the bytes of the tables of a binary, in the order of its directory. -/
def tableBodies (m : Module) : List (TableKind × Bytes) :=
  m.sections.map fun s => (s.kind, m.data.window s.offset s.size)

/-- Two lists of tables, one of which is a permutation of the other that keeps the order of the tables of
each kind. -/
structure Reorders (l l' : List (TableKind × Bytes)) : Prop where
  perm : l.Perm l'
  order : ∀ kind, l.filter (·.1 == kind) = l'.filter (·.1 == kind)

/-- Being a reordering does not depend on the order. -/
theorem Reorders.symm {l l' : List (TableKind × Bytes)} (h : Reorders l l') : Reorders l' l :=
  ⟨h.perm.symm, fun kind => (h.order kind).symm⟩

/-- The tables of a kind are the same in both directories. -/
theorem Reorders.sameBody (h : Reorders m.tableBodies n.tableBodies)
    (hm : ∀ s ∈ m.sections, s.offset + s.size ≤ m.data.size)
    (hn : ∀ s ∈ n.sections, s.offset + s.size ≤ n.data.size) (kind : TableKind) :
    List.Forall₂ (fun s t => Table.SameBody m s n t) (ofKind kind m.sections)
      (ofKind kind n.sections) := by
  have horder := h.order kind
  simp only [tableBodies, List.filter_map] at horder
  rw [← List.forall₂_eq_eq_eq, List.forall₂_map_left_iff, List.forall₂_map_right_iff] at horder
  refine List.forall₂_iff_zip.mpr ⟨horder.length_eq, fun {s t} hmem => ?_⟩
  obtain ⟨hs, ht⟩ := List.of_mem_zip hmem
  have hbody := (List.forall₂_iff_zip.mp horder).2 hmem
  exact ⟨hm s (List.mem_filter.mp hs).1, hn t (List.mem_filter.mp ht).1, congrArg Prod.snd hbody⟩

/-- The tables of a kind without code are all among those without code. -/
theorem ofKind_dataSections {kind : TableKind} (h : kind.holdsCode = false) (m : Module) :
    ofKind kind m.dataSections = ofKind kind m.sections := by
  unfold ofKind dataSections
  rw [List.filter_filter]
  refine List.filter_congr fun s _ => ?_
  by_cases hs : s.kind = kind <;> simp [hs, h]

/-- The tables of a kind with code are all among those with code. -/
theorem ofKind_codeSections {kind : TableKind} (h : kind.holdsCode = true) (m : Module) :
    ofKind kind m.codeSections = ofKind kind m.sections := by
  unfold ofKind codeSections
  rw [List.filter_filter]
  refine List.filter_congr fun s _ => ?_
  by_cases hs : s.kind = kind <;> simp [hs, h]

/-- What a binary is depends on its holdings alone. -/
theorem resolveKind_follows (h : m.unfiled = n.unfiled) :
    Follows (fun m' n' => m'.unfiled = n'.unfiled) m.resolveKind n.resolveKind := by
  have hmain : m.main.isSome = n.main.isSome := by
    have := congrArg (fun k => k.main.isSome) h
    simpa [unfiled] using this
  have hdefinitions : m.hasDefinitions = n.hasDefinitions := by
    have := congrArg (fun k => k.hasDefinitions) h
    simpa [unfiled, hasDefinitions] using this
  have hkind (kind : BinaryKind) : { m with kind := kind }.unfiled = { n with kind := kind }.unfiled :=
    congrArg (fun k : Module => { k with kind := kind }) h
  intro m' hm'
  unfold resolveKind at hm' ⊢
  rw [hmain, hdefinitions] at hm'
  split_ifs at hm' ⊢ with hscript hdefines
  all_goals
    obtain rfl := Except.ok.inj hm'
    exact ⟨_, rfl, hkind _⟩

/-- The tables without code are of one class. -/
theorem uniform_dataSections (h : ∀ s ∈ m.sections, s.offset + s.size ≤ m.data.size) :
    m.Uniform false m.dataSections where
  holdsCode := m.holdsCode_dataSections
  inside s hs := h s (List.mem_filter.mp hs).1

/-- The tables with code are of one class. -/
theorem uniform_codeSections (h : ∀ s ∈ m.sections, s.offset + s.size ≤ m.data.size) :
    m.Uniform true m.codeSections where
  holdsCode := m.holdsCode_codeSections
  inside s hs := h s (List.mem_filter.mp hs).1

/-- The tables without code are read first, and the references between their records are checked before
the tables with code are read, which look at them. -/
theorem readTables_follows (hm : ∀ s ∈ m.sections, s.offset + s.size ≤ m.data.size)
    (hn : ∀ s ∈ n.sections, s.offset + s.size ≤ n.data.size)
    (hbodies : Reorders m.tableBodies n.tableBodies)
    (h : ∀ kind, (m.holding kind).unfiled = (n.holding kind).unfiled) (hkind : m.kind = n.kind)
    (hinfo : m.info = n.info) :
    Follows (fun m' n' => m'.unfiled = n'.unfiled) m.readTables n.readTables := by
  intro m' hm'
  obtain ⟨m₁, hm₁, hm'⟩ := bind_eq_ok.mp hm'
  obtain ⟨⟨⟩, hreferences, hm'⟩ := bind_eq_ok.mp hm'
  obtain ⟨m₂, hm₂, hresolve⟩ := bind_eq_ok.mp hm'
  -- The tables without code.
  have hdata (kind : TableKind) (hk : kind.holdsCode = false) :
      List.Forall₂ (fun s t => Table.SameBody m s n t) (ofKind kind m.dataSections)
        (ofKind kind n.dataSections) := by
    rw [ofKind_dataSections hk, ofKind_dataSections hk]
    exact hbodies.sameBody hm hn kind
  obtain ⟨n₁, hn₁, hshell, hshell', hholding⟩ :=
    foldlM_decode_follows (uniform_dataSections hm) (uniform_dataSections hn) hdata h m₁ hm₁
  -- The tables with code, which are found in the same places.
  have hmInside : ∀ s ∈ m₁.sections, s.offset + s.size ≤ m₁.data.size := by
    rwa [hshell.sections, hshell.data]
  have hnInside : ∀ s ∈ n₁.sections, s.offset + s.size ≤ n₁.data.size := by
    rwa [hshell'.sections, hshell'.data]
  have hbodies₁ : Reorders m₁.tableBodies n₁.tableBodies := by
    unfold tableBodies
    rwa [hshell.sections, hshell.data, hshell'.sections, hshell'.data]
  have hcode (kind : TableKind) (hk : kind.holdsCode = true) :
      List.Forall₂ (fun s t => Table.SameBody m₁ s n₁ t) (ofKind kind m₁.codeSections)
        (ofKind kind n₁.codeSections) := by
    rw [ofKind_codeSections hk, ofKind_codeSections hk]
    exact hbodies₁.sameBody hmInside hnInside kind
  obtain ⟨n₂, hn₂, hshell₂, hshell₂', hholding₂⟩ :=
    foldlM_decode_follows (uniform_codeSections hmInside) (uniform_codeSections hnInside) hcode hholding
      m₂ hm₂
  have hunfiled : m₂.unfiled = n₂.unfiled := by
    refine unfiled_of_holding hholding₂ ?_ ?_
    · rw [hshell₂.kind, hshell.kind, hshell₂'.kind, hshell'.kind, hkind]
    · rw [hshell₂.info, hshell.info, hshell₂'.info, hshell'.info, hinfo]
  obtain ⟨n', hn', hsame⟩ := resolveKind_follows hunfiled m' hresolve
  have hakin : m₁.Akin n₁ := akin_of_holding fun kind _ => hholding kind
  rw [hakin.checkReferences] at hreferences
  exact ⟨n', bind_eq_ok.mpr ⟨n₁, hn₁, bind_eq_ok.mpr ⟨(), hreferences, bind_eq_ok.mpr ⟨n₂, hn₂, hn'⟩⟩⟩, hsame⟩

/-- Where a binary is decoded, one with the same tables in another order and at other places is, to a
module that says the same. -/
theorem decode_follows (hm : readDirectory data = .ok m) (hn : readDirectory data' = .ok n)
    (h : Reorders m.tableBodies n.tableBodies) :
    Follows (fun m' n' => m'.unfiled = n'.unfiled) (decode data) (decode data') := by
  obtain ⟨magic, sections, rfl, hinside⟩ := readDirectory_eq_ok hm
  obtain ⟨magic', sections', rfl, hinside'⟩ := readDirectory_eq_ok hn
  have hread := readTables_follows hinside hinside' h (fun kind => by cases kind <;> rfl) rfl rfl
  intro m' hm'
  obtain ⟨_, hstart, hm'⟩ := bind_eq_ok.mp hm'
  obtain rfl := Except.ok.inj (hm.symm.trans hstart)
  obtain ⟨n', hn', hsame⟩ := hread m' hm'
  exact ⟨n', bind_eq_ok.mpr ⟨_, hn, hn'⟩, hsame⟩

/-- Laying out modules that are equal but for positions leaves them so, with the same bounds. -/
theorem layOut_of_unfiled (h : m.unfiled = n.unfiled) (config : Config) :
    (m.layOut config).1.unfiled = (n.layOut config).1.unfiled ∧
      (m.layOut config).2 = (n.layOut config).2 := by
  have hlayOut := congrArg (layOut config) h
  rw [layOut_unfiled, layOut_unfiled] at hlayOut
  exact Prod.mk.inj hlayOut

/-- Where one of two reordered binaries is loaded, so is the other, and the modules are equal but for
positions. -/
theorem load_follows (hm : readDirectory data = .ok m) (hn : readDirectory data' = .ok n)
    (h : Reorders m.tableBodies n.tableBodies) (config : Config) :
    Follows (fun m' n' => m'.unfiled = n'.unfiled) (load config data) (load config data') := by
  intro m' hload
  obtain ⟨m₁, hm₁, hload⟩ := bind_eq_ok.mp hload
  obtain ⟨_, -, hload⟩ := bind_eq_ok.mp hload
  obtain rfl := pure_eq_ok.mp hload
  obtain ⟨n₁, hn₁, hsame⟩ := decode_follows hm hn h m₁ hm₁
  obtain ⟨text, htext⟩ := answers_dump hn₁ config
  exact ⟨_, bind_eq_ok.mpr ⟨n₁, hn₁, bind_eq_ok.mpr ⟨text, htext, rfl⟩⟩,
    (layOut_of_unfiled hsame config).1⟩

/-- The host is given the same layout. -/
theorem loadInto_follows (hm : readDirectory data = .ok m) (hn : readDirectory data' = .ok n)
    (h : Reorders m.tableBodies n.tableBodies) (config : Config) (host : Host) :
    Follows (fun a b => a.1.unfiled = b.1.unfiled ∧ a.2 = b.2) (loadInto config data host)
      (loadInto config data' host) := by
  rintro ⟨m', host'⟩ hload
  obtain ⟨m₁, hm₁, hload⟩ := bind_eq_ok.mp hload
  obtain ⟨_, -, hload⟩ := bind_eq_ok.mp hload
  obtain ⟨published, hpublish, hload⟩ := bind_eq_ok.mp hload
  obtain ⟨rfl, rfl⟩ := Prod.mk.inj (pure_eq_ok.mp hload)
  change (m₁.layOut config).1.publish config (m₁.layOut config).2 host = .ok published at hpublish
  obtain ⟨n₁, hn₁, hsame⟩ := decode_follows hm hn h m₁ hm₁
  obtain ⟨text, htext⟩ := answers_dump hn₁ config
  obtain ⟨hmodule, hbounds⟩ := layOut_of_unfiled hsame config
  rw [publish_of_unfiled hmodule, hbounds] at hpublish
  exact ⟨(_, published), bind_eq_ok.mpr ⟨n₁, hn₁, bind_eq_ok.mpr ⟨text, htext,
    bind_eq_ok.mpr ⟨published, hpublish, rfl⟩⟩⟩, hmodule, rfl⟩

end Module

end MoveBytecode
