import Mathlib.Algebra.Order.BigOperators.Group.List
import Mathlib.Algebra.Order.Group.Nat
import MoveBytecode.Proofs.Loading.Mapping
import MoveBytecode.Proofs.Loading.Reordering

/-!
# How much code a binary holds

The bodies of a table are read one behind the other, so that they have no more bytes together than the
table. A directory has at most 255 tables, each of less than 2^31 bytes. Tables may overlap, but even so
the code of a binary that is loaded in the standard layout ends far below 2^64, whatever its bytes are.
-/

namespace MoveBytecode

open Reader (advances_u8 composes_advances runs_iff_runAt)

/-- How many bytes bodies have together. -/
def codeSize (fs : List FunctionDef) : Nat := (fs.map (·.code.size)).sum

/-- The bytes of bodies are counted part by part. -/
@[simp] theorem codeSize_append (fs gs : List FunctionDef) :
    codeSize (fs ++ gs) = codeSize fs + codeSize gs := by
  rw [codeSize, List.map_append, List.sum_append]
  rfl

/-! ## Tables -/

namespace Table

/-- A body has no more bytes than its record. -/
theorem size_of_readFunction {m : Module} {c c' : Cursor} {f : FunctionDef} (hc : c.Inside)
    (hdata : c.data = m.data) (h : Runs (readFunction m) c f c') :
    c.position + f.code.size ≤ c'.position ∧ c.Reaches c' := by
  obtain ⟨hentry, hreach⟩ := holdsEntry_of_readFunction hc hdata h
  refine ⟨?_, hreach⟩
  have hstart := (hentry 0).start
  have hstop := (hentry 0).stop
  have hle := hreach.le
  simp only [Extent.stop, CodeUnit.stop] at hstart hstop
  omega

/-- The bodies that a table adds have no more bytes together than were left of it. -/
theorem codeSize_of_readInto {m : Module} {pool pool' : Pool FunctionDef} {c : Cursor} (hc : c.Inside)
    (hdata : c.data = m.data) (h : readInto c (readFunction m) pool = .ok pool') :
    codeSize pool'.records ≤ codeSize pool.records + c.available := by
  obtain ⟨c', hrun⟩ := runs_of_readInto h
  -- What was added so far has no more bytes than were read.
  let Q (p : Pool FunctionDef) (d : Cursor) : Prop :=
    c.Reaches d ∧ codeSize p.records + c.position ≤ codeSize pool.records + d.position
  have hkeep : Q pool' c' := by
    refine fill_keeps (Q := Q) ?_ ⟨.refl c, Nat.le_refl _⟩ hrun
    rintro p d f d' ⟨hreach, hp⟩ hf
    obtain ⟨hsize, hmoved⟩ := size_of_readFunction (hreach.inside hc) (hreach.data.trans hdata) hf
    refine ⟨hreach.trans hmoved, ?_⟩
    have hadd : (p.add ⟨d.position, (d'.position - d.position : Nat)⟩ f).records =
        p.records ++ [f] := by
      rw [Pool.records, Pool.toList_add, List.map_append]
      rfl
    have hone : codeSize [f] = f.code.size := by simp [codeSize]
    rw [hadd, codeSize_append, hone]
    omega
  obtain ⟨hreach, hcode⟩ := hkeep
  have hend := (hreach.inside hc).1
  rw [hreach.stop] at hend
  rw [Cursor.available]
  have := hreach.le
  omega

/-- The cursor of a directory entry has as many bytes as the entry says. -/
theorem available_of_cursor {m : Module} {s : Section} {c : Cursor} (h : cursor m s = .ok c) :
    c.available = s.size := by
  unfold cursor Cursor.make at h
  simp only [Option.getD_some] at h
  split at h
  · simp at h
  · obtain rfl := Except.ok.inj h
    simp only [Cursor.available]
    omega

/-- A table with code adds no more code than it has bytes. -/
theorem codeSize_decode {m m' : Module} {s : Section} (hkind : s.kind.holdsCode = true)
    (h : decode m s = .ok m') : codeSize m'.functions ≤ codeSize m.functions + s.size := by
  obtain ⟨c, hc, ⟨p, hp, rfl⟩ | ⟨record, c', hrecord, rfl⟩⟩ := exists_of_decode_code hkind h
  all_goals
    obtain ⟨hinside, hdata, -⟩ := Cursor.inside_of_make hc
    rw [← available_of_cursor hc]
  · have hcode := codeSize_of_readInto hinside hdata hp
    simp only [Module.functions, codeSize_append]
    omega
  · obtain ⟨hsize, hreach⟩ := size_of_readFunction hinside hdata hrecord
    -- The record was read within the window, so that its body is no longer than what was left of it.
    have hend := (hreach.inside hinside).1
    rw [hreach.stop] at hend
    have hone (place : Extent) : codeSize (Option.map (·.record)
        (some (⟨0, place, .unplaced, record⟩ : Entry FunctionDef))).toList = record.code.size := by
      simp [codeSize]
    simp only [Module.functions, codeSize_append, hone, Cursor.available]
    omega

/-- Decoding a table leaves the directory as it is. -/
theorem sections_decode {m m' : Module} {s : Section} (h : decode m s = .ok m') :
    m'.sections = m.sections := by
  rw [decode_eq] at h
  obtain ⟨x, -, h⟩ := bind_eq_ok.mp h
  obtain rfl := pure_eq_ok.mp h
  exact (Module.sameShell_hold m s.kind x).sections

end Table

namespace Module

/-- Tables with code hold no more bytes of bodies than the tables are long. -/
theorem codeSize_foldlM_decode {l : List Section} {m m' : Module}
    (hl : ∀ s ∈ l, s.kind.holdsCode = true) (h : l.foldlM Table.decode m = .ok m') :
    codeSize m'.functions ≤ codeSize m.functions + (l.map (·.size)).sum := by
  induction l generalizing m with
  | nil =>
    obtain rfl := pure_eq_ok.mp h
    exact Nat.le_refl _
  | cons s rest ih =>
    rw [List.foldlM_cons] at h
    obtain ⟨n, hn, h⟩ := bind_eq_ok.mp h
    obtain ⟨hs, hrest⟩ := List.forall_mem_cons.mp hl
    have hone := Table.codeSize_decode hs hn
    have hothers := ih hrest h
    rw [List.map_cons, List.sum_cons]
    omega

/-- Decoding tables leaves the directory as it is. -/
theorem sections_foldlM_decode {l : List Section} {m m' : Module}
    (h : l.foldlM Table.decode m = .ok m') : m'.sections = m.sections :=
  foldlM_invariant (I := fun n : Module => n.sections = m.sections)
    (fun _ _ _ _ hdecode hn => (Table.sections_decode hdecode).trans hn) h rfl

/-- The code that is read has no more bytes than the tables of the directory together. -/
theorem codeSize_of_readTables {m m' : Module} (hfunctions : m.functions = [])
    (h : m.readTables = .ok m') : codeSize m'.functions ≤ (m.sections.map (·.size)).sum := by
  obtain ⟨n, o, kind, hn, -, ho, rfl⟩ := exists_of_readTables h
  obtain ⟨-, hdefs, hmain, -, -⟩ := foldlM_decode_data m.holdsCode_dataSections hn
  have hnone : n.functions = [] := by
    rw [functions, hdefs, hmain]
    exact hfunctions
  have hcode : codeSize o.functions ≤ codeSize n.functions + (n.codeSections.map (·.size)).sum :=
    codeSize_foldlM_decode n.holdsCode_codeSections ho
  have hsections : (n.codeSections.map (·.size)).sum ≤ (m.sections.map (·.size)).sum := by
    rw [codeSections, sections_foldlM_decode hn]
    exact (List.filter_sublist.map _).sum_le_sum fun _ _ => Nat.zero_le _
  have hsame : ({ o with kind := kind } : Module).functions = o.functions := rfl
  rw [hnone] at hcode
  have hempty : codeSize [] = 0 := rfl
  rw [hsame]
  omega

end Module

/-! ## Directories -/

namespace Directory

/-- A table has fewer than 2 ^ 31 bytes. -/
theorem size_of_readSection {c c' : Cursor} {s : Section} (h : Runs readSection c s c') :
    s.size < 2 ^ 31 := by
  obtain ⟨byte, d, hbyte, h⟩ := runs_bind.mp h
  split at h
  · exact absurd h not_runs_throw
  · obtain ⟨offset, d₁, hoffset, h⟩ := runs_bind.mp h
    obtain ⟨size, d₂, hsize, h⟩ := runs_bind.mp h
    obtain ⟨_, _, -, h⟩ := runs_bind.mp h
    obtain ⟨value, d₃, -, hsize⟩ := runs_bind.mp hsize
    split at hsize
    · exact absurd hsize not_runs_throw
    · obtain ⟨rfl, -⟩ := runs_pure.mp hsize
      dsimp only at h
      split at h
      · simp [not_runs_throw] at h
      · obtain ⟨rfl, -⟩ := runs_pure.mp h
        dsimp only
        omega

/-- The tables of `count` directory entries have less than `count * 2^31` bytes together. -/
theorem sum_size_of_readMany {count : Nat} {c c' : Cursor} {l : List Section}
    (h : Runs (readMany count) c l c') : (l.map (·.size)).sum ≤ count * 2 ^ 31 := by
  induction count generalizing c l with
  | zero =>
    obtain ⟨rfl, -⟩ := runs_pure.mp h
    simp
  | succ count ih =>
    obtain ⟨s, d, hs, h⟩ := runs_bind.mp h
    obtain ⟨rest, d', hrest, h⟩ := runs_bind.mp h
    obtain ⟨rfl, rfl⟩ := runs_pure.mp h
    have hone := size_of_readSection hs
    have hothers := ih hrest
    rw [List.map_cons, List.sum_cons]
    omega

end Directory

namespace Module

/-- A module whose directory was read has no functions yet, and its tables have together at most 255
times 2 ^ 31 bytes. -/
theorem sum_size_of_readDirectory {data : Bytes} {m : Module} (h : readDirectory data = .ok m) :
    m.functions = [] ∧ (m.sections.map (·.size)).sum ≤ 255 * 2 ^ 31 := by
  obtain ⟨magic, -, h⟩ := bind_eq_ok.mp h
  obtain ⟨c, hc, h⟩ := bind_eq_ok.mp h
  obtain ⟨sections, hsections, h⟩ := bind_eq_ok.mp h
  obtain rfl := pure_eq_ok.mp h
  obtain ⟨count, d, -, hmany⟩ := runs_bind.mp
    (runs_iff_runAt.mpr (Prod.ext hsections rfl) : Runs Directory.read c sections _)
  refine ⟨rfl, Nat.le_trans (Directory.sum_size_of_readMany hmany) ?_⟩
  exact Nat.mul_le_mul_right _ (Nat.le_of_lt_succ count.toNat_lt)

/-- A loaded binary has less than `255 * 2^31` bytes of code. -/
theorem Loads.codeSize_le {config : Config} {data : Bytes} {m : Module} (h : Loads config data m) :
    (m.internalFunctions.map fun f => f.record.code.size).sum ≤ 255 * 2 ^ 31 := by
  obtain ⟨n, hn, rfl⟩ := h.exists_decode
  obtain ⟨start, hstart, hn⟩ := bind_eq_ok.mp hn
  obtain ⟨hnone, hsections⟩ := sum_size_of_readDirectory hstart
  have hcode := codeSize_of_readTables hnone hn
  have hrecords : (n.layOut config).1.functions = n.functions := by
    have hunmapped := congrArg (List.map (·.record)) (unmapped_functionEntries_layOut config n)
    simpa [Function.comp_def, map_record_functionEntries] using hunmapped
  -- A script has its `main` alone as a function with a body.
  have hinternal : ((n.layOut config).1.internalFunctions.map fun f => f.record.code.size).sum ≤
      codeSize (n.layOut config).1.functions := by
    rw [codeSize, ← map_record_functionEntries, List.map_map]
    exact ((internalFunctions_sublist _).map _).sum_le_sum fun _ _ => Nat.zero_le _
  rw [hrecords] at hinternal
  omega

/-- In the standard layout, all code is mapped to addresses of 64 bits. -/
theorem Loads.mapping_bounds {data : Bytes} {m : Module} (h : Loads .standard data m)
    {f : Entry FunctionDef} (hf : f ∈ m.internalFunctions) :
    0 ≤ f.mapping.start ∧ f.mapping.start + f.record.code.size < 2 ^ 64 := by
  obtain ⟨-, hstart, hstop⟩ := h.mapping hf
  have hcode := h.codeSize_le
  have hbase : (Config.standard).codeBase = 0x10000000 := rfl
  omega

end Module

end MoveBytecode
