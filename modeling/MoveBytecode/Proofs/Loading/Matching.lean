import MoveBytecode.Proofs.Format.Records
import MoveBytecode.Proofs.Loading.Contents
import MoveBytecode.Proofs.Loading.Readers

/-!
# Reading the same bytes at another place

Two cursors are abreast if their windows hold the same bytes from their positions on. Readers use the
position for nothing but places, so that from cursors abreast they end with the same records and move
over as many bytes (`Reader.Matches`), also where they belong to two modules with the same tables
without code. Tables are therefore read to the same entries, apart from their places.
-/

namespace MoveBytecode

namespace Cursor

/-- Two cursors with the same bytes ahead of them up to the ends of their windows. -/
structure Abreast (c d : Cursor) : Prop where
  inside : c.Inside
  inside' : d.Inside
  available : c.available = d.available
  byte : ∀ k < c.available, c.data[c.position + k]? = d.data[d.position + k]?

namespace Abreast

variable {c d : Cursor}

/-- Cursors stay abreast when they are moved over as many bytes. -/
theorem moved (h : c.Abreast d) {n : Nat} (hn : n ≤ c.available) : (c.moved n).Abreast (d.moved n) := by
  obtain ⟨⟨hc, hsize⟩, ⟨hd, hsize'⟩, havailable, hbyte⟩ := h
  simp only [Cursor.available] at havailable hn hbyte
  refine ⟨⟨?_, hsize⟩, ⟨?_, hsize'⟩, ?_, fun k hk => ?_⟩
  · simp only [moved_position, moved_stop]
    omega
  · simp only [moved_position, moved_stop]
    omega
  · simp only [Cursor.available, moved_position, moved_stop]
    omega
  · simp only [Cursor.available, moved_position, moved_stop] at hk
    have hahead := hbyte (n + k) (by omega)
    simpa only [moved_data, moved_position, Nat.add_assoc] using hahead

/-- Cursors abreast have the same bytes ahead of them. -/
theorem window (h : c.Abreast d) {n : Nat} (hn : n ≤ c.available) :
    c.data.window c.position n = d.data.window d.position n := by
  have hc : c.position + n ≤ c.data.size := by
    have := h.inside.1
    have := h.inside.2
    simp only [Cursor.available] at hn
    omega
  have hd : d.position + n ≤ d.data.size := by
    have := h.inside'.1
    have := h.inside'.2
    have := h.available
    simp only [Cursor.available] at this hn
    omega
  refine Array.ext (by rw [Body.size_window hc, Body.size_window hd]) fun k hk hk' => ?_
  rw [Body.size_window hc] at hk
  have hbyte := h.byte k (Nat.lt_of_lt_of_le hk hn)
  rw [Array.getElem?_eq_getElem (by omega), Array.getElem?_eq_getElem (by omega)] at hbyte
  simpa only [Bytes.window, Array.getElem_extract] using Option.some.inj hbyte

/-- Cursors abreast have the same byte ahead of them. -/
theorem head (h : c.Abreast d) (hn : 1 ≤ c.available) :
    c.data.getD c.position 0 = d.data.getD d.position 0 := by
  have hbyte := h.byte 0 hn
  rw [Nat.add_zero, Nat.add_zero] at hbyte
  rw [Array.getD_eq_getD_getElem?, Array.getD_eq_getD_getElem?, hbyte]

/-- What fits into one of the windows fits into the other. -/
theorem room (h : c.Abreast d) {n : Nat} (hn : n ≤ c.available) : d.position + n ≤ d.stop := by
  have := h.available
  have := h.inside'.1
  simp only [Cursor.available] at *
  omega

/-- Cursors abreast are both at their ends or both are not. -/
theorem atEnd (h : c.Abreast d) : c.atEnd = d.atEnd := by
  have := h.available
  simp only [Cursor.available, Cursor.atEnd] at this ⊢
  rw [decide_eq_decide]
  omega

end Abreast

/-- The windows of two tables with the same bytes. -/
theorem abreast_of_window {data data' : Bytes} {offset offset' size size' : Nat}
    (h : offset + size ≤ data.size) (h' : offset' + size' ≤ data'.size)
    (hbytes : data.window offset size = data'.window offset' size') :
    Abreast ⟨data, offset, offset, offset + size⟩ ⟨data', offset', offset', offset' + size'⟩ := by
  have hsize : size = size' := by rw [← Body.size_window h, hbytes, Body.size_window h']
  subst hsize
  refine ⟨⟨Nat.le_add_right _ _, h⟩, ⟨Nat.le_add_right _ _, h'⟩, ?_, fun k hk => ?_⟩
  · simp only [Cursor.available, Nat.add_sub_cancel_left]
  · simp only [Cursor.available, Nat.add_sub_cancel_left] at hk
    have hget := congrArg (fun bytes : Bytes => bytes[k]?) hbytes
    have hend : k < min (offset + size) data.size - offset := by omega
    have hend' : k < min (offset' + size) data'.size - offset' := by omega
    simpa only [Bytes.window, Array.getElem?_extract, hend, hend', if_true] using hget

end Cursor

namespace Reader

open Cursor

variable {α β γ δ : Type}

/-- From cursors abreast, where `r` ends with a value `s` ends with one that `R` relates to it, and both
move over as many bytes. -/
def Matches (R : α → β → Prop) (r : Reader α) (s : Reader β) : Prop :=
  ∀ c d a c', c.Abreast d → Runs r c a c' →
    ∃ b n, R a b ∧ n ≤ c.available ∧ c' = c.moved n ∧ Runs s d b (d.moved n)

variable {R : α → β → Prop}

/-- Returning values that are related matches. -/
theorem matches_pure {a : α} {b : β} (h : R a b) : Matches R (pure a) (pure b) := by
  intro c d a' c' _ hrun
  obtain ⟨rfl, rfl⟩ := runs_pure.mp hrun
  exact ⟨b, 0, h, Nat.zero_le _, rfl, runs_pure.mpr ⟨rfl, rfl⟩⟩

/-- Throwing a fault matches everything, as it ends with no value. -/
theorem matches_throw {fault : Fault} {s : Reader β} : Matches R (throw fault) s :=
  fun _ _ _ _ _ hrun => absurd hrun not_runs_throw

/-- Sequences match if their parts do. -/
theorem Matches.bind {S : γ → δ → Prop} {r : Reader α} {s : Reader β} {f : α → Reader γ}
    {g : β → Reader δ} (h : Matches R r s) (hf : ∀ a b, R a b → Matches S (f a) (g b)) :
    Matches S (r >>= f) (s >>= g) := by
  intro c d z c'' hcd hrun
  obtain ⟨a, c', ha, hz⟩ := runs_bind.mp hrun
  obtain ⟨b, n, hab, hn, rfl, hb⟩ := h c d a c' hcd ha
  obtain ⟨y, k, hzy, hk, rfl, hy⟩ := hf a b hab _ _ z c'' (hcd.moved hn) hz
  refine ⟨y, n + k, hzy, ?_, moved_moved _ _ _, runs_bind.mpr ⟨b, _, hb, ?_⟩⟩
  · simp only [Cursor.available, moved_position, moved_stop] at hn hk ⊢
    omega
  · rwa [moved_moved] at hy

/-- Positions differ, and nothing is said of them. -/
theorem matches_position : Matches (fun _ _ => True) position position := by
  intro c d p c' _ hrun
  obtain ⟨-, rfl⟩ := runs_position.mp hrun
  exact ⟨_, 0, trivial, Nat.zero_le _, rfl, runs_position.mpr ⟨rfl, rfl⟩⟩

/-- Results that are taken over match if the second follows the first. -/
theorem matches_ofExcept {x : Except Fault α} {y : Except Fault β} (h : Follows R x y) :
    Matches R (ofExcept x) (ofExcept y) := by
  intro c d a c' _ hrun
  obtain ⟨ha, rfl⟩ := runs_ofExcept.mp hrun
  obtain ⟨b, hb, hab⟩ := h a ha
  exact ⟨b, 0, hab, Nat.zero_le _, rfl, runs_ofExcept.mpr ⟨hb, rfl⟩⟩

/-- Reading a byte matches itself. -/
theorem matches_u8 : Matches Eq u8 u8 := by
  intro c d a c' hcd hrun
  obtain ⟨hlt, rfl, rfl⟩ := runs_u8.mp hrun
  have hone : 1 ≤ c.available := by
    simp only [Cursor.available]
    omega
  exact ⟨_, 1, rfl, hone, rfl, runs_u8.mpr ⟨hcd.room hone, hcd.head hone, rfl⟩⟩

/-- Reading bytes matches itself. -/
theorem matches_bytes (count : Int) : Matches Eq (bytes count) (bytes count) := by
  intro c d a c' hcd hrun
  obtain ⟨hzero, hle, rfl, rfl⟩ := runs_bytes.mp hrun
  have hn : count.toNat ≤ c.available := by
    simp only [Cursor.available]
    omega
  have hroom := hcd.room hn
  refine ⟨_, count.toNat, rfl, hn, rfl, runs_bytes.mpr ⟨hzero, ?_, hcd.window hn, rfl⟩⟩
  omega

/-- Matching itself is a property that composes. -/
theorem composes_matches : Composes fun _ r => Matches Eq r r where
  pure a := matches_pure rfl
  bind hr hf := hr.bind fun a _ hab => hab ▸ hf a
  throw _ := matches_throw
  throwAt _ := fun c d a c' _ hrun => by simp at hrun
  u8 := matches_u8
  bytes := matches_bytes

end Reader

open Reader

/-! ## Bodies -/

namespace Body

/-- Two frames of the same function, in modules with the same tables without code. -/
structure Frame.Akin (f g : Frame) : Prop where
  owner : f.owner.Akin g.owner
  name : f.name = g.name
  signature : f.signature = g.signature
  localCount : f.localCount = g.localCount

variable {f g : Frame}

/-- Akin frames check operands alike. -/
theorem Frame.Akin.checkOperand (h : f.Akin g) : checkOperand f = checkOperand g :=
  checkOperand_of_agrees h.owner.agrees h.localCount

/-- Akin frames give instructions the same effect on the stack. -/
theorem Frame.Akin.stackEffect (h : f.Akin g) : stackEffect f = stackEffect g :=
  stackEffect_of_agrees h.owner.agrees h.signature

/-- A frame in one module is the frame in the other. -/
theorem frame_follows {m n : Module} (h : m.Akin n) (handle locals : Nat) :
    Follows Frame.Akin (frame m handle locals) (frame n handle locals) := by
  intro f hf
  obtain ⟨e, signature, localTypes, name, he, hs, hl, hcount, hname, rfl⟩ := frame_eq_ok.mp hf
  obtain ⟨e', he', hentry⟩ := Pool.exists_get_of_unfiled h.functionHandles he
  obtain ⟨localTypes', hl', hlocals⟩ := Pool.exists_get_of_unfiled h.localSignatures hl
  have hrecord : e.record = e'.record := Entry.record_eq_of_unfiled hentry
  have htypes : localTypes.record = localTypes'.record := Entry.record_eq_of_unfiled hlocals
  refine ⟨⟨n, name, signature, localTypes'.record.length⟩, frame_eq_ok.mpr
    ⟨e', signature, localTypes', name, he', ?_, hl', ?_, ?_, rfl⟩, h, rfl, rfl, ?_⟩
  · rw [← hrecord, ← h.agrees.signatureOf, hs]
  · rw [← htypes]
    exact hcount
  · rw [← hrecord, ← h.agrees.functionName, hname]
  · rw [htypes]

/-- An instruction at the same distance from the start of the body is read to the same. -/
theorem readInstruction_abreast (h : f.Akin g) {c c' d : Cursor} (hcd : c.Abreast d)
    {base base' k index : Nat} (hc : c.position = base + k) (hd : d.position = base' + k)
    {i : Instruction} (hrun : Runs (readInstruction f base index) c i c') :
    ∃ n, n ≤ c.available ∧ c' = c.moved n ∧ Runs (readInstruction g base' index) d i (d.moved n) := by
  obtain ⟨byte, opcode, value, hbyte, hop, hvalue, hcheck, rfl⟩ := runs_readInstruction.mp hrun
  obtain ⟨hlt, rfl, -⟩ := runs_u8.mp hbyte
  have hone : 1 ≤ c.available := by
    simp only [Cursor.available]
    omega
  obtain ⟨_, n, rfl, hn, rfl, hvalue'⟩ :=
    composes_matches.operand _ _ _ _ _ (hcd.moved hone) hvalue
  have hle : 1 + n ≤ c.available := by
    simp only [Cursor.available, Cursor.moved_position, Cursor.moved_stop] at hone hn ⊢
    omega
  rw [Cursor.moved_moved] at hvalue hvalue' ⊢
  refine ⟨1 + n, hle, rfl, runs_readInstruction.mpr
    ⟨c.data.getD c.position 0, opcode, value, ?_, hop, hvalue', ?_, ?_⟩⟩
  · exact runs_u8.mpr ⟨hcd.room hone, hcd.head hone, rfl⟩
  · rw [← h.checkOperand]
    exact hcheck
  · -- The bytes are the same, and so is the distance.
    have hraw := hcd.window hle
    simp only [Cursor.moved_data, Cursor.moved_position, Nat.add_sub_cancel_left, hraw]
    rw [hc, hd, Nat.add_sub_cancel_left, Nat.add_sub_cancel_left]

/-- An instruction at the same distance and depth is read to the same. -/
theorem step_abreast (h : f.Akin g) {c c' d : Cursor} (hcd : c.Abreast d)
    {base base' k index depth : Nat} (hc : c.position = base + k) (hd : d.position = base' + k)
    {i : Instruction} (hrun : Runs (step f base index depth) c i c') :
    ∃ n, n ≤ c.available ∧ c' = c.moved n ∧ Runs (step g base' index depth) d i (d.moved n) := by
  simp only [step, runs_bind, runs_ofExcept] at hrun ⊢
  obtain ⟨j, e, hj, ⟨pops, pushes⟩, _, ⟨heffect, rfl⟩, hrest⟩ := hrun
  obtain ⟨n, hn, rfl, hj'⟩ := readInstruction_abreast h hcd hc hd hj
  rw [h.stackEffect] at heffect
  simp only at hrest
  split at hrest
  · exact absurd hrest not_runs_throw
  · rename_i hpops
    obtain ⟨rfl, rfl⟩ := runs_pure.mp hrest
    refine ⟨n, hn, rfl, j, _, hj', (pops, pushes), _, ⟨heffect, rfl⟩, ?_⟩
    simp only [if_neg hpops]
    exact runs_pure.mpr ⟨rfl, rfl⟩

/-- A scan without a fault is the same scan at another place. -/
theorem scan_abreast (h : f.Akin g) {base base' k count depth : Nat} {done : Array Instruction}
    {c c' d : Cursor} {s : Scan} (hcd : c.Abreast d) (hc : c.position = base + k)
    (hd : d.position = base' + k) (hscan : scan f base count done depth c = (s, c'))
    (hs : s.fault = none) :
    ∃ n, n ≤ c.available ∧ c' = c.moved n ∧ scan g base' count done depth d = (s, d.moved n) := by
  induction count generalizing done depth c d k with
  | zero =>
    simp only [scan, Prod.mk.injEq] at hscan
    obtain ⟨rfl, rfl⟩ := hscan
    exact ⟨0, Nat.zero_le _, rfl, rfl⟩
  | succ count ih =>
    rw [scan] at hscan
    rcases hstep : (step f base done.size depth).runAt c with ⟨fault | i, next⟩
    · simp only [hstep, Prod.mk.injEq] at hscan
      obtain ⟨rfl, -⟩ := hscan
      simp at hs
    · simp only [hstep] at hscan
      -- Both cursors have moved over the instruction, so that they are at one distance again.
      obtain ⟨n, hn, rfl, hstep'⟩ := step_abreast h hcd hc hd (runs_iff_runAt.mpr hstep)
      have hc' : (c.moved n).position = base + (k + n) := by
        rw [Cursor.moved_position, hc, Nat.add_assoc]
      have hd' : (d.moved n).position = base' + (k + n) := by
        rw [Cursor.moved_position, hd, Nat.add_assoc]
      obtain ⟨l, hl, rfl, hscan'⟩ := ih (hcd.moved hn) hc' hd' hscan
      refine ⟨n + l, ?_, Cursor.moved_moved _ _ _, ?_⟩
      · simp only [Cursor.available, Cursor.moved_position, Cursor.moved_stop] at hn hl ⊢
        omega
      · rw [scan, runs_iff_runAt.mp hstep', ← Cursor.moved_moved]
        exact hscan'

/-- A body is read to the same instructions. -/
theorem matches_read (h : f.Akin g) (count : Nat) : Matches Eq (read f count) (read g count) := by
  intro c d is c' hcd hrun
  simp only [read, runs_bind, runs_get, runs_set, runs_ofExcept] at hrun ⊢
  obtain ⟨_, _, ⟨rfl, rfl⟩, _, _, rfl, hfinish, rfl⟩ := hrun
  rcases hs : scan f c.position count #[] 0 c with ⟨s, c'⟩
  rw [hs] at hfinish
  obtain ⟨hfault, hzero, hmap⟩ := finish_eq_ok.mp hfinish
  obtain ⟨n, hn, rfl, hs'⟩ := scan_abreast h hcd (Nat.add_zero _).symm (Nat.add_zero _).symm hs hfault
  rw [h.name] at hmap
  refine ⟨is, n, rfl, hn, rfl, _, _, ⟨rfl, rfl⟩, ⟨⟩, _, rfl, ?_⟩
  rw [hs']
  exact ⟨finish_eq_ok.mpr ⟨hfault, hzero, hmap⟩, rfl⟩

end Body

/-! ## Records and tables -/

namespace Table

variable {m n : Module}

/-- A record without the positions in it, which only functions have. -/
def bare : (kind : TableKind) → Contents FunctionDef kind → Contents FunctionDef kind
  | .functionDefs, f | .main, f => FunctionDef.unfiled f
  | _, record => record

/-- In akin modules reading the header of a function matches. -/
theorem matches_readFunctionHeader (h : m.Akin n) :
    Matches Eq (readFunctionHeader m) (readFunctionHeader n) := by
  have hhandles (index : Int) :
      m.functionHandles.containsIndex index = n.functionHandles.containsIndex index := by
    simp only [Pool.containsIndex, Pool.size_eq h.functionHandles]
  have hlocals (index : Int) :
      m.localSignatures.containsIndex index = n.localSignatures.containsIndex index := by
    simp only [Pool.containsIndex, Pool.size_eq h.localSignatures]
  unfold readFunctionHeader
  simp only [hhandles, hlocals]
  refine composes_matches.bind composes_matches.varu16 fun handle => ?_
  refine composes_matches.bind composes_matches.u8 fun flags => ?_
  refine composes_matches.bind composes_matches.varu16 fun maxStack => ?_
  refine composes_matches.bind composes_matches.varu16 fun locals => ?_
  refine composes_matches.bind (composes_matches.unsigned 2) fun count => ?_
  split
  · exact matches_throw
  · split
    · exact matches_throw
    · exact matches_pure rfl

/-- A function is read to the same function, apart from where its body starts. -/
theorem matches_readFunction (h : m.Akin n) :
    Matches (fun f g => f.unfiled = g.unfiled) (readFunction m) (readFunction n) := by
  refine (matches_readFunctionHeader h).bind fun header _ heq => ?_
  subst heq
  refine matches_position.bind fun start start' _ => ?_
  refine (matches_ofExcept (Body.frame_follows h _ _)).bind fun f g hfg => ?_
  refine (Body.matches_read hfg _).bind fun is _ heq => ?_
  subst heq
  exact matches_pure rfl

/-- The readers of the records of a table; only those of functions look at a module. -/
theorem matches_reader {kind : TableKind} (h : kind.holdsCode = true → m.Akin n) :
    Matches (fun a b => bare kind a = bare kind b) (reader m kind) (reader n kind) := by
  cases hkind : kind.holdsCode with
  | false =>
    have hsame : reader m kind = reader n kind := by
      cases kind with
      | functionDefs | main => simp [TableKind.holdsCode] at hkind
      | moduleHandles | structHandles | functionHandles | addressPool | stringPool | bytearrayPool
      | structDefs | fieldDefs | typeSignatures | functionSignatures | localSignatures => rfl
    rw [hsame]
    intro c d a c' hcd hrun
    obtain ⟨b, k, rfl, hrest⟩ := composes_matches.reader n hkind c d a c' hcd hrun
    exact ⟨a, k, rfl, hrest⟩
  | true =>
    cases kind with
    | functionDefs | main => exact matches_readFunction (h hkind)
    | moduleHandles | structHandles | functionHandles | addressPool | stringPool | bytearrayPool
    | structDefs | fieldDefs | typeSignatures | functionSignatures | localSignatures =>
      simp [TableKind.holdsCode] at hkind

/-- The function of a script is read to the same function, apart from its position. -/
theorem matches_readMain (h : m.Akin n) :
    Matches (fun e e' => e.unfiled FunctionDef.unfiled = e'.unfiled FunctionDef.unfiled)
      (readMain m) (readMain n) := by
  intro c d e c' hcd hrun
  obtain ⟨f, hf, rfl⟩ := runs_readMain_iff.mp hrun
  obtain ⟨g, k, hfg, hk, rfl, hg⟩ := matches_readFunction h c d f _ hcd hf
  refine ⟨_, k, ?_, hk, rfl, runs_readMain_iff.mpr ⟨g, hg, rfl⟩⟩
  simp only [Entry.unfiled, Cursor.moved_position, Nat.add_sub_cancel_left, hfg]

variable {α : Type} {u : α → α} {read read' : Reader α} {p q : Pool α}

/-- Pools that are equal but for positions stay so when equal records are added at any position. -/
theorem unfiled_add (h : p.unfiled u = q.unfiled u) {start start' size : Int} {a b : α} (hab : u a = u b) :
    (p.add ⟨start, size⟩ a).unfiled u = (q.add ⟨start', size⟩ b).unfiled u := by
  have hname := Pool.name_eq h
  have hsize := Pool.size_eq h
  have hentries : p.entries.map (Entry.unfiled u) = q.entries.map (Entry.unfiled u) :=
    congrArg Pool.entries h
  simp only [Pool.unfiled, Pool.add, Array.map_push, hname, hsize, hentries, Entry.unfiled, hab]

/-- Records are read into pools to the same entries, apart from their positions. -/
theorem matches_fill (hread : Matches (fun a b => u a = u b) read read') (fuel : Nat)
    (h : p.unfiled u = q.unfiled u) :
    Matches (fun p q => p.unfiled u = q.unfiled u) (fill read fuel p) (fill read' fuel q) := by
  induction fuel generalizing p q with
  | zero => exact matches_pure h
  | succ fuel ih =>
    intro c d p' c' hcd hrun
    simp only [fill, runs_bind, runs_atEnd] at hrun ⊢
    obtain ⟨_, _, ⟨rfl, rfl⟩, hrun⟩ := hrun
    rw [hcd.atEnd] at hrun
    split at hrun
    · rename_i hend
      obtain ⟨rfl, rfl⟩ := runs_pure.mp hrun
      refine ⟨q, 0, h, Nat.zero_le _, rfl, _, _, ⟨rfl, rfl⟩, ?_⟩
      rw [if_pos hend]
      exact runs_pure.mpr ⟨rfl, rfl⟩
    · rename_i hend
      simp only [runs_bind, runs_position] at hrun
      obtain ⟨_, _, ⟨rfl, rfl⟩, a, _, ha, _, _, ⟨rfl, rfl⟩, hrun⟩ := hrun
      obtain ⟨b, k, hab, hk, rfl, hb⟩ := hread c d a _ hcd ha
      -- Both records have the same number of bytes, so that their entries differ in position alone.
      have hadd : (p.add ⟨c.position, k⟩ a).unfiled u = (q.add ⟨d.position, k⟩ b).unfiled u :=
        unfiled_add h hab
      rw [Cursor.moved_position, Nat.add_sub_cancel_left] at hrun
      obtain ⟨q', l, hq, hl, rfl, hfill⟩ := ih hadd _ _ _ _ (hcd.moved hk) hrun
      rw [Cursor.moved_moved] at hfill
      refine ⟨q', k + l, hq, ?_, Cursor.moved_moved _ _ _, _, _, ⟨rfl, rfl⟩, ?_⟩
      · simp only [Cursor.available, Cursor.moved_position, Cursor.moved_stop] at hk hl ⊢
        omega
      · rw [if_neg hend]
        simp only [runs_bind, runs_position]
        refine ⟨_, _, ⟨rfl, rfl⟩, b, _, hb, _, _, ⟨rfl, rfl⟩, ?_⟩
        rwa [Cursor.moved_position, Nat.add_sub_cancel_left]

/-- Reading a table into pools that are equal but for positions leaves them so, from wherever it is
read. -/
theorem readInto_follows (hread : Matches (fun a b => u a = u b) read read')
    (h : p.unfiled u = q.unfiled u) {c d : Cursor} (hcd : c.Abreast d) :
    Follows (fun p q => p.unfiled u = q.unfiled u) (readInto c read p) (readInto d read' q) := by
  intro p' hp
  obtain ⟨c', hrun⟩ := runs_of_readInto hp
  obtain ⟨q', k, hpq, -, -, hq⟩ := matches_fill hread _ h c d p' c' hcd hrun
  rw [hcd.available] at hq
  exact ⟨q', congrArg Prod.fst (runs_iff_runAt.mp hq), hpq⟩

end Table

end MoveBytecode
