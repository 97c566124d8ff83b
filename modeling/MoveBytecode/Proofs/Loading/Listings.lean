import MoveBytecode.Proofs.Flow.Depths
import MoveBytecode.Proofs.Loading.Contents
import MoveBytecode.Proofs.Loading.Lookups
import MoveBytecode.Proofs.Loading.Views
import MoveBytecode.Proofs.Text

/-!
# The listing in the log and the listing of what is loaded

A load that lists the tables for the log does so before the functions have addresses, and a branch is
listed with the address that it goes to. All other lines of a listing depend on records alone, so the
listing in the log is that of the module that is loaded exactly if every function with a branch starts
at address zero (`Module.loaded_listing`).
-/

namespace MoveBytecode

open Listing
open Text (Aligned AllAligned)

namespace Event

/-- The listing that an event reports, if it reports one. -/
def listing? : Event → Option String
  | tables text => some text
  | _ => none

end Event

namespace Module

/-! ## The events of a load -/

/-- Reading a function reports no listing. -/
theorem listing?_functionEvents (m : Module) (c : Cursor) :
    (functionEvents m c).filterMap Event.listing? = [] := by
  unfold functionEvents
  split
  · rfl
  · rw [List.filterMap_cons_none rfl]
    split
    · rfl
    · rw [List.filterMap_cons_none rfl, List.filterMap_map]
      exact List.filterMap_eq_nil_iff.mpr fun _ _ => rfl

/-- Reading functions reports no listing. -/
theorem listing?_functionsEvents (m : Module) (fuel : Nat) (c : Cursor) :
    (functionsEvents m fuel c).filterMap Event.listing? = [] := by
  induction fuel generalizing c with
  | zero => rfl
  | succ fuel ih =>
    unfold functionsEvents
    split
    · rfl
    · rw [List.filterMap_append, listing?_functionEvents, List.nil_append]
      split
      · exact ih _
      · rfl

/-- Reading a table reports no listing. -/
theorem listing?_tableEvents (m : Module) (s : Section) :
    (tableEvents m s).filterMap Event.listing? = [] := by
  unfold tableEvents
  rw [List.filterMap_cons_none rfl]
  split
  · rfl
  · split
    · exact listing?_functionsEvents m _ _
    · split
      · rfl
      · exact listing?_functionEvents m _
    · rfl

/-- Reading tables reports no listing. -/
theorem listing?_sectionEvents (l : List Section) (m : Module) :
    (sectionEvents l m).filterMap Event.listing? = [] := by
  induction l generalizing m with
  | nil => rfl
  | cons s rest ih =>
    unfold sectionEvents
    rw [List.filterMap_append, listing?_tableEvents, List.nil_append]
    split
    · exact ih _
    · rfl

/-- What is decoded is listed once if that is asked for, and nothing else is. -/
theorem listing?_decodeEvents {config : Config} {data : Bytes} {n : Module} {text : String}
    (h : decode data = .ok n) (hdump : config.dumpTables = true) (htext : n.showTables = .ok text) :
    (decodeEvents config data).filterMap Event.listing? = [text] := by
  obtain ⟨start, hstart, h⟩ := bind_eq_ok.mp h
  obtain ⟨tables, htables, h⟩ := bind_eq_ok.mp h
  obtain ⟨⟨⟩, hcheck, hcode⟩ := bind_eq_ok.mp h
  have hlisting : n.dump config = .ok (some text) := by
    rw [dump, if_pos hdump, htext]
    rfl
  simp only [decodeEvents, hstart, htables, hcheck, codeEvents, hcode, dumpEvents, hlisting,
    List.filterMap_append, listing?_sectionEvents, List.nil_append]
  rfl

/-- Publishing and what follows report no listing. -/
theorem listing?_events (config : Config) (data : Bytes) :
    (Analysis.events config data).filterMap Event.listing? =
      (decodeEvents config data).filterMap Event.listing? := by
  unfold Analysis.events
  rw [List.filterMap_append]
  split
  · simp
  · have hlayout : ∀ h : Host, (layoutEvents h).filterMap Event.listing? = [] := by
      intro h
      rw [layoutEvents, List.filterMap_map]
      exact List.filterMap_eq_nil_iff.mpr fun _ _ => rfl
    rw [List.filterMap_append, hlayout]
    simp [Event.listing?]

/-! ## Functions before their layout -/

/-- A function without addresses of its own. -/
def Unplaced (f : Entry FunctionDef) : Prop := f.mapping = .unplaced

/-- A function without addresses is the same without its mapping. -/
theorem Unplaced.unmapped_eq {f : Entry FunctionDef} (h : Unplaced f) : f.unmapped = f := by
  rw [Entry.unmapped, ← h]

/-- Decoding a table maps no function. -/
theorem unplaced_of_decode_table {m m' : Module} {s : Section} (h : Table.decode m s = .ok m')
    (hm : ∀ f ∈ m.functionEntries, Unplaced f) : ∀ f ∈ m'.functionEntries, Unplaced f := by
  cases hkind : s.kind.holdsCode with
  | false =>
    obtain ⟨-, hdefs, hmain, -⟩ := Table.decode_data hkind h
    rw [functionEntries, hdefs, hmain]
    exact hm
  | true =>
    intro f hf
    obtain ⟨c, -, ⟨p, hp, rfl⟩ | ⟨record, c', -, rfl⟩⟩ := Table.exists_of_decode_code hkind h
    · rcases List.mem_append.mp hf with hf | hf
      · obtain ⟨c', hrun⟩ := Table.runs_of_readInto hp
        refine Table.fill_keeps (Q := fun p _ => ∀ f ∈ p.toList, Unplaced f) ?_
          (fun f hf => hm f (List.mem_append_left _ hf)) hrun f hf
        intro p d a d' hp _ f hf
        rw [Pool.toList_add, List.mem_append, List.mem_singleton] at hf
        rcases hf with hf | rfl
        · exact hp f hf
        · rfl
      · exact hm f (List.mem_append_right _ hf)
    · rcases List.mem_append.mp hf with hf | hf
      · exact hm f (List.mem_append_left _ hf)
      · obtain rfl : f = _ := by simpa using hf
        rfl

/-- No function has addresses before the layout. -/
theorem unplaced_of_decode {data : Bytes} {m : Module} (h : decode data = .ok m) :
    ∀ f ∈ m.functionEntries, Unplaced f :=
  decode_invariant (I := fun n => ∀ f ∈ n.functionEntries, Unplaced f)
    (fun _ _ f (hf : f ∈ []) => absurd hf List.not_mem_nil)
    (fun _ _ _ hdecode hn => unplaced_of_decode_table hdecode hn) (fun _ _ hn => hn) h

/-- A script defines no functions besides its own. -/
theorem size_functionDefs_of_decode {data : Bytes} {m : Module} (h : decode data = .ok m)
    (hmain : m.main.isSome = true) : m.functionDefs.size = 0 := by
  obtain ⟨_, -, h⟩ := bind_eq_ok.mp h
  obtain ⟨_, -, h⟩ := bind_eq_ok.mp h
  obtain ⟨_, -, h⟩ := bind_eq_ok.mp h
  obtain ⟨o, -, h⟩ := bind_eq_ok.mp h
  obtain ⟨kind, rfl⟩ := exists_of_resolveKind h
  rw [resolveKind, if_pos hmain] at h
  split at h
  · simp at h
  · rename_i hnone
    simp only [hasDefinitions, Bool.or_eq_true, bne_iff_ne, not_or, not_not] at hnone
    exact hnone.1.1

/-! ## Listings line by line -/

/-- Two results that are texts with as many line breaks, which are equal exactly if `same`. -/
def Shown (same : Prop) (x y : Except Fault String) : Prop :=
  ∃ s t, x = .ok s ∧ y = .ok t ∧ Aligned same s t

/-- The same for two lists of results, one after the other. -/
def AllShown (same : Prop) (xs ys : List (Except Fault String)) : Prop :=
  ∃ ss ts, xs.mapM id = .ok ss ∧ ys.mapM id = .ok ts ∧ AllAligned same ss ts

/-- Equal results are shown alike. -/
theorem shown_of_eq {x y : Except Fault String} (hx : Answers x) (h : x = y) : Shown True x y := by
  obtain ⟨s, hs⟩ := hx
  exact ⟨s, s, hs, h ▸ hs, .refl s⟩

/-- Whether two results are shown alike may be said in another way. -/
theorem Shown.congr {same other : Prop} {x y : Except Fault String} (h : Shown same x y)
    (hiff : same ↔ other) : Shown other x y := by
  obtain ⟨s, t, hx, hy, halign⟩ := h
  exact ⟨s, t, hx, hy, halign.congr hiff⟩

/-- Empty lists are shown alike. -/
theorem allShown_nil : AllShown True [] [] := ⟨[], [], rfl, rfl, .nil⟩

/-- Two lists are shown alike iff their first results are and the others are. -/
theorem Shown.cons {same other : Prop} {x y : Except Fault String} {xs ys : List (Except Fault String)}
    (h : Shown same x y) (hrest : AllShown other xs ys) :
    AllShown (same ∧ other) (x :: xs) (y :: ys) := by
  obtain ⟨s, t, rfl, rfl, halign⟩ := h
  obtain ⟨ss, ts, hxs, hys, hall⟩ := hrest
  refine ⟨s :: ss, t :: ts, ?_, ?_, AllAligned.cons halign hall⟩
  · rw [List.mapM_cons, hxs]
    rfl
  · rw [List.mapM_cons, hys]
    rfl

/-- Whether two lists of results are shown alike may be said in another way. -/
theorem AllShown.congr {same other : Prop} {xs ys : List (Except Fault String)}
    (h : AllShown same xs ys) (hiff : same ↔ other) : AllShown other xs ys := by
  obtain ⟨ss, ts, hxs, hys, hall⟩ := h
  exact ⟨ss, ts, hxs, hys, hall.congr hiff⟩

/-- Two lists are shown alike iff the results for each element are. -/
theorem allShown_map {α : Type} {same : α → Prop} {f g : α → Except Fault String} {l : List α}
    (h : ∀ a ∈ l, Shown (same a) (f a) (g a)) :
    AllShown (∀ a ∈ l, same a) (l.map f) (l.map g) := by
  induction l with
  | nil => exact allShown_nil.congr (by simp)
  | cons a rest ih =>
    have hrest := ih fun b hb => h b (List.mem_cons_of_mem _ hb)
    exact ((h a List.mem_cons_self).cons hrest).congr (by simp)

/-- Two lists are shown alike iff their first parts are and the others are. -/
theorem AllShown.append {same other : Prop} {xs ys xs' ys' : List (Except Fault String)}
    (h : AllShown same xs ys) (h' : AllShown other xs' ys') :
    AllShown (same ∧ other) (xs ++ xs') (ys ++ ys') := by
  obtain ⟨ss, ts, hxs, hys, hall⟩ := h
  obtain ⟨ss', ts', hxs', hys', hall'⟩ := h'
  refine ⟨ss ++ ss', ts ++ ts', ?_, ?_, hall.append hall'⟩
  · rw [List.mapM_append, hxs, hxs']
    rfl
  · rw [List.mapM_append, hys, hys']
    rfl

/-- A text in front of both results does not change whether they are shown alike. -/
theorem Shown.append_left {same : Prop} {x y : Except Fault String} (front : String)
    (h : Shown same x y) : Shown same (do return front ++ (← x)) (do return front ++ (← y)) := by
  obtain ⟨s, t, rfl, rfl, halign⟩ := h
  exact ⟨_, _, rfl, rfl, halign.append_left front⟩

/-- A text made of lines that are shown one after the other. -/
theorem Shown.lines {same : Prop} {xs ys : List (Except Fault String)} (h : AllShown same xs ys)
    (back : String) (header : List String) (front : String) :
    Shown same
      (do return String.intercalate ("\n" ++ back) (header ++ (← xs.mapM id).map (front ++ ·)))
      (do return String.intercalate ("\n" ++ back) (header ++ (← ys.mapM id).map (front ++ ·))) := by
  obtain ⟨ss, ts, hxs, hys, hall⟩ := h
  refine ⟨_, _, by rw [hxs]; rfl, by rw [hys]; rfl, ?_⟩
  have hheader : AllAligned True header header := ⟨rfl, by simp⟩
  exact ((hheader.append (hall.map_append_left front)).congr (by simp)).intercalate back

section

variable {m n : Module}

/-- A branch is listed with the address that it goes to, and nothing else depends on the address at
which an instruction is listed. -/
theorem shown_showInstruction (hm : m.Closed) (h : m.Agrees n) {f : FunctionDef} (hf : f ∈ m.functions)
    {i : Instruction} (hi : i ∈ f.code.instructions) (a b : Int) :
    Shown (i.opcode.isBranch = true → a = b) (m.showInstruction i a) (n.showInstruction i b) := by
  rw [← h.showInstruction]
  have hclosed := hm.functions f hf
  by_cases hbranch : i.opcode.isBranch = true
  · have hkind := Opcode.isBranch_iff.mp hbranch
    have hsome := (hclosed.isSome i hi).mpr (by simp [hkind])
    obtain ⟨⟨kind, value⟩, ho⟩ := Option.isSome_iff_exists.mp hsome
    obtain rfl : kind = .branch := (hclosed.operand i hi _ ho).1.trans hkind
    have hshow (c : Int) : m.showInstruction i c =
        .ok (s!"[{i.depthBefore},{i.depthAfter}]   " ++ (i.opcode.mnemonic ++ (" " ++ ("0x" ++
          Text.hex (c + i.jump))))) := by
      simp [showInstruction, showOperand, ho, bind, Except.bind, pure, Except.pure, String.isEmpty_iff]
    refine ⟨_, _, hshow a, hshow b, ?_⟩
    have hhex := Aligned.hex (a + i.jump) (b + i.jump)
    refine ((((hhex.append_left _).append_left _).append_left _).append_left _).congr ?_
    simp [hbranch]
  · -- An operand that is no branch is shown without looking at the base.
    have hsame : m.showOperand i a = m.showOperand i b := by
      unfold showOperand
      cases ho : i.operand with
      | none => rfl
      | some o =>
        obtain ⟨kind, value⟩ := o
        have hkind : kind ≠ .branch := fun hkind =>
          hbranch (Opcode.isBranch_iff.mpr ((hclosed.operand i hi _ ho).1.symm.trans hkind))
        cases kind <;> first | rfl | exact absurd rfl hkind
    have hshow : m.showInstruction i a = m.showInstruction i b := by
      rw [showInstruction, hsame]
      rfl
    exact (shown_of_eq (hm.showInstruction hf hi a) hshow).congr (by simp [hbranch])

/-- A function whose branches, if there are any, are listed as if it started at address zero. -/
def Stationary (f : Entry FunctionDef) : Prop :=
  ∀ i ∈ f.record.code.instructions, i.opcode.isBranch = true → f.mapping.start = 0

/-- The text of a function whose handle and locals are known. -/
theorem showFunctionDef_eq {k : Module} {f : Entry FunctionDef} {tokens : List Token}
    {handle types : String} (hlocals : k.localsOf f.record = .ok tokens)
    (htypes : k.showTokens tokens = .ok types)
    (hhandle : (k.handleOf f.record >>= fun e => k.showFunctionHandle e.record) = .ok handle) :
    k.showFunctionDef f = do
      let flags := flagsText f.record.flags
      let header := if flags.isEmpty then handle else flags ++ " " ++ handle
      let lines ← (f.record.code.instructions.map fun i => do
        return (Text.decimalPadded 4 i.index ++ ": ") ++
          (← k.showInstruction i (f.mapping.start + i.offset))).mapM id
      return String.intercalate ("\n" ++ "")
        ([header, indent ++ s!"max_stack_size: {f.record.code.maxStack}",
          indent ++ ("locals: " ++ types)] ++ lines.map (indent ++ ·)) := by
  obtain ⟨e, he, hhandle⟩ := bind_eq_ok.mp hhandle
  rw [List.mapM_map, Function.id_comp, String.append_empty]
  unfold showFunctionDef showCode
  rw [he, hlocals]
  simp only [bind, Except.bind, hhandle, htypes]
  generalize (f.record.code.instructions.mapM _ : Except Fault (List String)) = lines
  cases lines <;> rfl

/-- A function is listed before its layout as afterwards iff it is stationary. -/
theorem shown_showFunctionDef (hm : m.Closed) (h : m.Agrees n) {f : Entry FunctionDef}
    (hf : f.record ∈ m.functions) :
    Shown (Stationary f) (m.showFunctionDef f.unmapped) (n.showFunctionDef f) := by
  obtain ⟨tokens, ht, hlocals⟩ := hm.localsOf hf
  obtain ⟨types, htypes⟩ := hm.showTokens (Closed.localTokens ht)
  obtain ⟨handle, hhandle⟩ : Answers (m.handleOf f.record >>= fun e => m.showFunctionHandle e.record) :=
    hm.answers_handleOf_bind hf fun _ hh => hm.showFunctionHandle hh
  have hhandle' : (n.handleOf f.record >>= fun e => n.showFunctionHandle e.record) = .ok handle := by
    rw [← hhandle, ← h.showFunctionHandle]
    exact (h.functionHandles.get_bind _ m.showFunctionHandle).symm
  rw [showFunctionDef_eq (k := m) (f := f.unmapped) hlocals htypes hhandle,
    showFunctionDef_eq (h.localsOf ▸ hlocals) (h.showTokens ▸ htypes) hhandle']
  refine (Shown.lines (allShown_map fun i hi =>
    (shown_showInstruction hm h hf hi _ _).append_left _) _ _ _).congr ?_
  refine forall_congr' fun i => forall_congr' fun _ => forall_congr' fun _ => ?_
  have hzero : f.unmapped.mapping.start = 0 := rfl
  rw [hzero]
  omega

/-! ## Pools -/

/-- The listing of a pool whose entries are shown one after the other. -/
theorem showPool_eq {α : Type} (p : Pool α) (print : Entry α → Except Fault String) :
    showPool p print = do
      let lines ← (p.toList.map fun e => do
        return (indent ++ s!"[{e.index}] ") ++
          (← withMargin (indent ++ indent) <$> print e)).mapM id
      return String.intercalate ("\n" ++ "") ([s!"{p.name} ({p.size}):"] ++ lines.map ("" ++ ·)) := by
  have hid : (fun line : String => "" ++ line) = id := funext fun _ => String.empty_append
  rw [List.mapM_map, Function.id_comp, String.append_empty, hid]
  simp only [List.map_id, bind_map_left]
  rfl

/-- Pools with the same entries but for their addresses are listed alike, by a printer that looks at
records. -/
theorem shown_pool {α : Type} {p q : Pool α} (h : p.Same q) (print : α → Except Fault String)
    {print' : α → Except Fault String} (hprint : print = print')
    (hp : ∀ e ∈ p.toList, Answers (print e.record)) :
    Shown True (showPool p fun e => print e.record) (showPool q fun e => print' e.record) := by
  subst hprint
  refine shown_of_eq (Closed.showPool hp) ?_
  have hlines (k : Pool α) (f : Entry α → Except Fault String) (hf : ∀ e, f e.unmapped = f e) :
      k.toList.mapM f = k.unmapped.mapM f := (mapM_map_of_forall Entry.unmapped hf k.toList).symm
  unfold showPool
  rw [hlines p _ fun _ => rfl, hlines q _ fun _ => rfl, h.1, h.2, h.size_eq]

/-- A margin does not change whether two results are shown alike. -/
theorem Shown.withMargin {same : Prop} {x y : Except Fault String} (margin : String)
    (h : Shown same x y) :
    Shown same (Listing.withMargin margin <$> x) (Listing.withMargin margin <$> y) := by
  obtain ⟨s, t, rfl, rfl, halign⟩ := h
  exact ⟨_, _, rfl, rfl, halign.withMargin margin⟩

/-- The definitions of functions are listed before their layout as afterwards iff all of them are
stationary. -/
theorem shown_functionDefs (hm : m.Closed) (h : m.Agrees n) (hdefs : m.functionDefs.Same n.functionDefs)
    (hunplaced : ∀ f ∈ m.functionDefs.toList, Unplaced f) :
    Shown (∀ f ∈ n.functionDefs.toList, Stationary f) (showPool m.functionDefs m.showFunctionDef)
      (showPool n.functionDefs n.showFunctionDef) := by
  have hself : m.functionDefs.toList.map Entry.unmapped = m.functionDefs.toList :=
    (List.map_congr_left fun f hf => (hunplaced f hf).unmapped_eq).trans (List.map_id' _)
  have hunmapped : m.functionDefs.toList = n.functionDefs.toList.map Entry.unmapped :=
    hself.symm.trans hdefs.2
  rw [showPool_eq, showPool_eq, hunmapped, List.map_map, hdefs.1, hdefs.size_eq]
  refine Shown.lines (allShown_map fun f hf => ?_) _ _ _
  have hrecord : f.record ∈ m.functions := by
    refine List.mem_append_left _ ?_
    rw [hdefs.records]
    exact List.mem_map_of_mem hf
  exact ((shown_showFunctionDef hm h hrecord).withMargin _).append_left _

/-- The tables are listed before the layout as afterwards iff all definitions of functions are
stationary. -/
theorem shown_listedPools (hm : m.Closed) (h : m.SameRecords n)
    (hdefs : m.functionDefs.Same n.functionDefs)
    (hunplaced : ∀ f ∈ m.functionDefs.toList, Unplaced f) :
    AllShown (∀ f ∈ n.functionDefs.toList, Stationary f)
      (m.listedPools ⟨fun p print => showPool p print⟩)
      (n.listedPools ⟨fun p print => showPool p print⟩) := by
  have hentries := hm.entries
  simp only [listedPools, List.forall_mem_cons] at hentries
  obtain ⟨h1, h2, h3, h4, h5, h6, h7, h8, h9, h10, h11, -⟩ := hentries
  have k := h.agrees
  refine ((shown_pool h.moduleHandles _ k.moduleFullName h1).cons <|
    (shown_pool h.structHandles _ k.showStructHandle h2).cons <|
    (shown_pool h.functionHandles _ k.showFunctionHandle h3).cons <|
    (shown_pool h.structDefs _ k.showStructDef h4).cons <|
    (shown_pool h.fieldDefs _ k.showFieldDef h5).cons <|
    (shown_pool h.typeSignatures _ k.showToken h6).cons <|
    (shown_pool h.functionSignatures _ k.showSignature h7).cons <|
    (shown_pool h.localSignatures _ k.showTokens h8).cons <|
    (shown_pool h.strings (fun s => .ok (Text.quoteJson s)) rfl h9).cons <|
    (shown_pool h.bytearrays (fun v => .ok (bytearrayText v)) rfl h10).cons <|
    (shown_pool h.addresses (fun v => .ok (addressText v)) rfl h11).cons <|
    (shown_functionDefs hm k hdefs hunplaced).cons allShown_nil).congr ?_
  simp

/-! ## The whole listing -/

/-- The function of a script as part of a listing. -/
def mainParts (m : Module) : List (Except Fault String) :=
  m.main.toList.map fun f => do return ("Main:\n" ++ indent) ++ (← withMargin indent <$> m.showFunctionDef f)

/-- The listing of a module is that of its tables and of the function of a script. -/
theorem showTables_eq (m : Module) :
    m.showTables = (· ++ "\n") <$> do
      let parts ← (m.listedPools ⟨fun p print => showPool p print⟩ ++ m.mainParts).mapM id
      return String.intercalate ("\n" ++ "\n") ([] ++ parts.map ("" ++ ·)) := by
  have hid : (fun line : String => "" ++ line) = id := funext fun _ => String.empty_append
  unfold showTables mainParts
  rw [List.mapM_append, hid]
  cases m.main with
  | none =>
    simp only [Option.toList_none, List.map_nil, List.mapM_nil, List.map_id, List.nil_append, map_bind,
      bind_assoc, pure_bind, map_pure]
    rfl
  | some main =>
    simp only [Option.toList_some, List.map_cons, List.map_nil, List.mapM_cons, List.mapM_nil, id,
      List.map_id, List.nil_append, map_bind, bind_assoc, pure_bind, map_pure, bind_map_left]
    rfl

/-- The function of a script is listed before its layout as afterwards iff it is stationary. -/
theorem shown_mainParts (hm : m.Closed) (h : m.Agrees n)
    (hmain : m.main.map Entry.unmapped = n.main.map Entry.unmapped)
    (hunplaced : ∀ f ∈ m.main.toList, Unplaced f) :
    AllShown (∀ f ∈ n.main.toList, Stationary f) m.mainParts n.mainParts := by
  have hunmapped : m.main.toList = n.main.toList.map Entry.unmapped := by
    have hself : m.main.toList.map Entry.unmapped = m.main.toList :=
      (List.map_congr_left fun f hf => (hunplaced f hf).unmapped_eq).trans (List.map_id' _)
    rw [← hself, ← Option.toList_map, hmain, Option.toList_map]
  rw [mainParts, mainParts, hunmapped, List.map_map]
  refine allShown_map fun f hf => ?_
  have hrecord : f.record ∈ m.functions := by
    rw [← map_record_functionEntries]
    refine List.mem_map.mpr ⟨f.unmapped, List.mem_append_right _ ?_, rfl⟩
    rw [hunmapped]
    exact List.mem_map_of_mem hf
  exact ((shown_showFunctionDef hm h hrecord).withMargin _).append_left _

/-- The listing of a module before its layout and behind it. -/
theorem shown_showTables (hm : m.Closed) (h : m.SameRecords n)
    (hdefs : m.functionDefs.Same n.functionDefs)
    (hmain : m.main.map Entry.unmapped = n.main.map Entry.unmapped)
    (hunplaced : ∀ f ∈ m.functionEntries, Unplaced f) :
    Shown (∀ f ∈ n.functionEntries, Stationary f) m.showTables n.showTables := by
  have hpools := shown_listedPools hm h hdefs fun f hf => hunplaced f (List.mem_append_left _ hf)
  have hscript := shown_mainParts hm h.agrees hmain fun f hf => hunplaced f (List.mem_append_right _ hf)
  rw [showTables_eq, showTables_eq]
  obtain ⟨s, t, hs, ht, halign⟩ := Shown.lines (hpools.append hscript) "\n" [] ""
  refine ⟨s ++ "\n", t ++ "\n", by rw [hs]; rfl, by rw [ht]; rfl, ?_⟩
  refine (halign.append_right "\n").congr ?_
  rw [functionEntries, List.forall_mem_append]

end

/-- A script has no functions besides its own. -/
theorem Loads.functionEntries_eq {config : Config} {data : Bytes} {m : Module}
    (h : Loads config data m) : m.functionEntries = m.internalFunctions := by
  obtain ⟨n, hn, rfl⟩ := h.exists_decode
  unfold functionEntries internalFunctions
  cases hmain : (n.layOut config).1.main with
  | none => simp
  | some main =>
    have hsome : n.main.isSome = true := by
      rw [← Option.isSome_map, ← unmapped_main_layOut config n, hmain]
      rfl
    have hsize := (same_functionDefs_layOut config n).size_eq.trans
      (size_functionDefs_of_decode hn hsome)
    have hnil : (n.layOut config).1.functionDefs.toList = [] := by
      rw [← List.length_eq_zero_iff, Pool.toList, Array.length_toList]
      exact hsize
    rw [hnil]
    rfl

/-- A load logs one listing, that of the module before its layout. -/
theorem Loads.exists_listings {config : Config} {data : Bytes} {m : Module} (h : Loads config data m)
    (hdump : config.dumpTables = true) :
    ∃ n logged returned, decode data = .ok n ∧ n.showTables = .ok logged ∧
      (decodeEvents config data).filterMap Event.listing? = [logged] ∧
      m.showTables = .ok returned ∧
      Aligned (∀ f ∈ m.internalFunctions, Stationary f) logged returned := by
  have hentries := h.functionEntries_eq
  obtain ⟨n, hn, rfl⟩ := h.exists_decode
  have hunplaced := unplaced_of_decode hn
  obtain ⟨logged, returned, hlogged, hreturned, halign⟩ :=
    shown_showTables (decoded_of_decode hn).1.closed (sameRecords_layOut config n).symm
      (same_functionDefs_layOut config n).symm (unmapped_main_layOut config n).symm hunplaced
  rw [hentries] at halign
  exact ⟨n, logged, returned, hn, hlogged, listing?_decodeEvents hn hdump hlogged, hreturned, halign⟩

/-- The one listing that a load logs is that of the module before its layout. It has as many lines as
the listing of the module that is loaded, and is equal to it exactly if no function with a branch
starts elsewhere than at address zero. -/
theorem loaded_listing {config : Config} {data : Bytes} {m : Module} (h : Loads config data m)
    (hdump : config.dumpTables = true) :
    ∃ n logged returned, decode data = .ok n ∧ n.showTables = .ok logged ∧
      (decodeEvents config data).filterMap Event.listing? = [logged] ∧
      (Analysis.events config data).filterMap Event.listing? = [logged] ∧
      m.showTables = .ok returned ∧ Text.breaks logged = Text.breaks returned ∧
      (logged = returned ↔ ∀ f ∈ m.internalFunctions, ∀ i ∈ f.record.code.instructions,
        i.opcode.isBranch = true → f.mapping.start = 0) := by
  obtain ⟨n, logged, returned, hn, hlogged, hevents, hreturned, halign⟩ := h.exists_listings hdump
  exact ⟨n, logged, returned, hn, hlogged, hevents, (listing?_events config data).trans hevents,
    hreturned, halign.breaks_eq, halign.eq_iff⟩

/-- The standard layout, with the tables listed in the log. -/
def listedConfig : Config := { Config.standard with dumpTables := true }

/-- This library, loaded with listings, has a branch in a function that does not start at address
zero. -/
theorem exists_branch_overPushSample : ∃ m, load listedConfig overPushSample = .ok m ∧
    ∃ f ∈ m.internalFunctions, ∃ i ∈ f.record.code.instructions, i.opcode.isBranch = true ∧
      f.mapping.start ≠ 0 := by
  have check : (load listedConfig overPushSample).toOption.any (fun m =>
      decide (∃ f ∈ m.internalFunctions, ∃ i ∈ f.record.code.instructions,
        i.opcode.isBranch = true ∧ f.mapping.start ≠ 0)) = true := by
    decide +kernel
  obtain ⟨m, hload, hcheck⟩ := exists_of_any_toOption check
  exact ⟨m, hload, of_decide_eq_true hcheck⟩

/-- The listing that is logged for this library is not the one that is shown of it. -/
theorem overPushSample_listing : ∃ m n logged returned, load listedConfig overPushSample = .ok m ∧
    listedConfig.dumpTables = true ∧ decode overPushSample = .ok n ∧ n.showTables = .ok logged ∧
    (decodeEvents listedConfig overPushSample).filterMap Event.listing? = [logged] ∧
    m.showTables = .ok returned ∧ logged ≠ returned := by
  obtain ⟨m, hload, f, hf, i, hi, hbranch, hstart⟩ := exists_branch_overPushSample
  obtain ⟨n, logged, returned, hn, hlogged, hevents, -, hreturned, -, hiff⟩ :=
    loaded_listing (.inl hload) rfl
  exact ⟨m, n, logged, returned, hload, rfl, hn, hlogged, hevents, hreturned,
    fun heq => hstart (hiff.mp heq f hf i hi hbranch)⟩

/-- The listing in the log need not be that of the module that is loaded. -/
theorem not_forall_listing_eq : ¬ ∀ (config : Config) (data : Bytes) (m : Module),
    config.dumpTables = true → Loads config data m → ∃ text,
      (decodeEvents config data).filterMap Event.listing? = [text] ∧ m.showTables = .ok text := by
  intro hall
  obtain ⟨m, hload, f, hf, i, hi, hbranch, hstart⟩ := exists_branch_overPushSample
  have hloads : Loads listedConfig overPushSample m := .inl hload
  obtain ⟨text, hlisted, htext⟩ := hall _ _ m rfl hloads
  obtain ⟨n, logged, returned, -, -, hevents, hreturned, halign⟩ := hloads.exists_listings rfl
  obtain rfl : logged = text := List.singleton_inj.mp (hevents.symm.trans hlisted)
  obtain rfl : returned = logged := Except.ok.inj (hreturned.symm.trans htext)
  exact hstart (halign.eq_iff.mp rfl f hf i hi hbranch)

end Module

end MoveBytecode
