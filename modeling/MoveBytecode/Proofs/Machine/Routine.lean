import MoveBytecode.Proofs.Format.Assembly
import MoveBytecode.Proofs.Loading.Capacity
import MoveBytecode.Proofs.Machine.Simulation

/-!
# Lifted routines run like their functions

Everything that a simulation needs of a routine is had of any routine that is lifted from a binary in the
standard layout: a lift of all opcodes leaves no block out, the depths of the listing are the heights of
the symbolic stack, and the addresses of the code fit into 64 bits. So the routine runs like the
function, over runs of any length and for every meaning of the operations.
-/

namespace MoveBytecode

open Lift
open Progress (Matches)

namespace Converter

/-- The instructions that a lift of a function lowers, in the order of the listing. -/
def rows (c : Converter) (f : Entry FunctionDef) (w : Workspace) : List Lowering :=
  (c.visits f w).flatMap (·.lowerings)

variable {m : Module} {target : RoutineRef} {w w' : Workspace} {l : Lifted}

section

variable {c : Converter} {frame : Frame} {s : State} {config : Config} {data : Bytes} {b : Body.Frame}
  {start : Nat}

/-- A lift from a loaded binary is one run over the listing, as no block is left out. -/
theorem Lifts.runs_listing (h : c.Lifts w l frame s) (hload : Module.Loads config data c.owner)
    (hremoved : c.removed = []) (hagrees : Agrees frame b)
    (hsound : Body.Sound b c.owner.data start l.function.record.code.instructions) :
    (∃ t, Runs (lowerAll frame
      (Placed.run l.function.mapping.start l.function.record.code.instructions) #[]) s l.steps t) ∧
    c.rows l.function w = lowerings frame
      (Placed.run l.function.mapping.start l.function.record.code.instructions) s := by
  have hvars : s.stack.vars = [] := by
    rw [(opened_of_runs h.opened).stack]
    rfl
  obtain ⟨t, hblocks⟩ := h.blocks
  -- The blocks cut the listing into pieces, so that lifting them in turn lifts the listing.
  have hinstructions : (Graph.ofFunction l.function).blocks.flatMap (·.instructions) =
      l.function.record.code.instructions := Graph.flatMap_instructions_build
  have hplaced : (Graph.ofFunction l.function).blocks.flatMap Block.placed =
      Placed.run l.function.mapping.start l.function.record.code.instructions :=
    Graph.flatMap_placed_build
  have hscan : Body.Scanned b c.owner.data start
      ([] ++ (Graph.ofFunction l.function).blocks.flatMap (·.instructions) ++ []) := by
    rw [List.nil_append, List.append_nil, hinstructions]
    exact hsound.scanned
  obtain ⟨hrun, hlowerings⟩ := runs_lowerAll_of_liftBlocks hagrees h.wellFormed hscan
    (fun _ hblock => spares_of_opened h.opened h.function hload hremoved hblock) (by rw [hvars]; rfl)
    hblocks
  rw [hplaced] at hrun hlowerings
  exact ⟨⟨t, hrun⟩, by rw [rows, h.visits, hlowerings]⟩

/-- A routine that is lifted from a loaded binary has a row for each instruction. -/
theorem Lifts.rows (h : c.Lifts w l frame s) (hload : Module.Loads config data c.owner)
    (hremoved : c.removed = []) (hagrees : Agrees frame b)
    (hsound : Body.Sound b c.owner.data start l.function.record.code.instructions) :
    Rows frame (Placed.run l.function.mapping.start l.function.record.code.instructions) []
      (c.rows l.function w) l.steps.toList [] := by
  obtain ⟨⟨t, hrun⟩, hrows⟩ := h.runs_listing hload hremoved hagrees hsound
  obtain ⟨hplaced, hlinked, new, hnew, hyields⟩ := runs_lowerAll h.wellFormed hrun
  obtain rfl : l.steps.toList = new := by simpa using hnew
  have hvars : s.stack.vars = [] := by
    rw [(opened_of_runs h.opened).stack]
    rfl
  rw [hvars, ← hrows] at hlinked
  rw [← hrows] at hplaced hyields
  have hlisted : Rows frame (Placed.run l.function.mapping.start
      l.function.record.code.instructions) [] (c.rows l.function w) l.steps.toList t.stack.vars :=
    ⟨hplaced, hlinked, hyields⟩
  -- Nothing is left on the stack, as the listing is balanced.
  have hbody : (c.rows l.function w).map (·.placed.instruction) =
      l.function.record.code.instructions := hlisted.map_instruction
  have hscan : Body.Scanned b c.owner.data start
      ([] ++ (c.rows l.function w).map (·.placed.instruction) ++ []) := by
    rw [List.nil_append, List.append_nil, hbody]
    exact hsound.scanned
  obtain ⟨hlength, -⟩ := length_of_linked hagrees hscan hlisted.yields hlisted.linked rfl
  rw [List.nil_append, hbody, hsound.balanced, List.length_eq_zero_iff] at hlength
  rw [hlength] at hlisted
  exact hlisted

end

/-- A routine that is lifted from a loaded binary is a translation, if the code is mapped to addresses
of 64 bits. -/
theorem exists_translation_of_bounds {config : Config} {data : Bytes}
    (hload : Module.Loads config data m)
    (hbounds : ∀ f ∈ m.internalFunctions,
      0 ≤ f.mapping.start ∧ f.mapping.start + f.record.code.size < 2 ^ 64)
    (hlift : Runs ((Converter.mk m []).lift target) w l w') :
    ∃ frame b, Body.frame m l.function.record.handle l.function.record.code.locals = .ok b ∧
      Translation l frame b m.data l.function.record.code.start l.function.mapping.start
        l.function.record.code.instructions ((Converter.mk m []).rows l.function w) := by
  obtain ⟨frame, s, h⟩ := runs_lift hlift
  obtain ⟨b, hb, hagrees, hsound⟩ := h.sound hload
  have hopen := opened_of_runs h.opened
  obtain ⟨hstart, hstop⟩ := hbounds _ h.function
  refine ⟨frame, b, hb, h.rows hload rfl hagrees hsound, hagrees, hsound,
    fun index v hv => hopen.name_of_getElem? hv, ?_, hstart, hstop, ?_⟩
  · obtain ⟨tokens, htokens, hnames⟩ := hopen.locals
    obtain ⟨_, _, localTypes, _, -, -, hlocals, -, -, rfl⟩ := Body.frame_eq_ok.mp hb
    obtain ⟨e, he, htokens⟩ := bind_eq_ok.mp htokens
    obtain rfl := pure_eq_ok.mp htokens
    obtain rfl := Except.ok.inj (hlocals.symm.trans he)
    simpa using congrArg List.length hnames
  · rw [hopen.owner]
    exact hload.decoded.1.addresses

/-- A routine that is lifted from a binary in the standard layout is a translation. -/
theorem exists_translation {data : Bytes} (hload : Module.Loads .standard data m)
    (hsize : (m.internalFunctions.map fun f => f.record.code.size).sum < 0x10000000)
    (hlift : Runs ((Converter.mk m []).lift target) w l w') :
    ∃ frame b, Body.frame m l.function.record.handle l.function.record.code.locals = .ok b ∧
      Translation l frame b m.data l.function.record.code.start l.function.mapping.start
        l.function.record.code.instructions ((Converter.mk m []).rows l.function w) := by
  refine exists_translation_of_bounds hload (fun f hf => ?_) hlift
  obtain ⟨-, hstart, hstop⟩ := hload.mapping hf
  have hbase : (Config.standard).codeBase = 0x10000000 := rfl
  omega

/-- The standard layout maps all code to addresses of 64 bits, however much there is of it. -/
theorem exists_translation_of_loads {data : Bytes} (hload : Module.Loads .standard data m)
    (hlift : Runs ((Converter.mk m []).lift target) w l w') :
    ∃ frame b, Body.frame m l.function.record.handle l.function.record.code.locals = .ok b ∧
      Translation l frame b m.data l.function.record.code.start l.function.mapping.start
        l.function.record.code.instructions ((Converter.mk m []).rows l.function w) :=
  exists_translation_of_bounds hload (fun _ hf => hload.mapping_bounds hf) hlift

/-- A routine that is lifted from a binary in the standard layout runs like its function, if branches
are taken with an empty stack only: whatever the operations mean and the locals hold, after any number
of steps of the function there is a number of steps of the routine after which both are in step or have
left in the same way, and every run of the routine goes on to such a point. -/
theorem routine_in_step {data : Bytes} (hload : Module.Loads .standard data m)
    (hsize : (m.internalFunctions.map fun f => f.record.code.size).sum < 0x10000000)
    (hlift : Runs ((Converter.mk m []).lift target) w l w')
    (hflat : FlatBranches l.function.record.code.instructions) {V : Type} (I : Interpretation V) :
    ∃ b, Body.frame m l.function.record.handle l.function.record.code.locals = .ok b ∧
      ∀ (locals : List V) (env : Form.Env V), locals.length = b.localCount →
        (∀ (index : Nat) (v : V), locals[index]? = some v → env (.localVar index) = v) →
        (∀ n, ∃ count,
          Matches (InStep l ((Converter.mk m []).rows l.function w) b.localCount)
            (runFor (Bytecode.step I b l.function.mapping.start l.function.record.code.instructions) n
              ⟨0, [], locals⟩)
            (runFor (Form.step I l) count ⟨0, env⟩)) ∧
        ∀ k, ∃ n count, k ≤ count ∧
          Matches (InStep l ((Converter.mk m []).rows l.function w) b.localCount)
            (runFor (Bytecode.step I b l.function.mapping.start l.function.record.code.instructions) n
              ⟨0, [], locals⟩)
            (runFor (Form.step I l) count ⟨0, env⟩) := by
  obtain ⟨frame, b, hb, h⟩ := exists_translation hload hsize hlift
  refine ⟨b, hb, fun locals env hlength henv => ?_⟩
  have hsimulates := simulates I h hflat
  have hstart : InStep l ((Converter.mk m []).rows l.function w) b.localCount ⟨0, [], locals⟩
      ⟨0, env⟩ := by
    refine ⟨Nat.zero_le _, by simp [Lifted.position], by rw [h.varsAt_zero]; rfl, ?_⟩
    apply List.ext_getElem
    · simp [hlength]
    · intro index hindex _
      rw [List.getElem_map, List.getElem_range]
      exact (henv index _ (List.getElem?_eq_getElem hindex)).symm
  -- A step of the function is followed by steps of the routine; as the routine rests at most once for
  -- each instruction of the listing, no run of it is passed over.
  refine ⟨fun n => ?_, fun k => ?_⟩
  · obtain ⟨count, hmatches, -⟩ := matches_runFor hsimulates n hstart
    exact ⟨count, hmatches⟩
  · refine exists_runFor_of_matches hsimulates (fun s t hst => ?_) k hstart
    rw [← h.length_steps]
    exact hst.next_le

/-- A script that counts a local down: `LD_CONST 2`, `ST_LOC 0`, and from instruction 2 on `MOVE_LOC 0`,
`LD_CONST 1`, `SUB`, `ST_LOC 0`, `COPY_LOC 0`, `LD_CONST 0`, `GT`, `BR_TRUE 2` and `RET`. -/
def countdownSample : Bytes :=
  Format.assemble .libra [
    ⟨.moduleHandles, [0, 0]⟩, ⟨.functionHandles, [0, 1, 0]⟩, ⟨.addressPool, List.replicate 32 0⟩,
    ⟨.stringPool, [6, 0x3C, 0x53, 0x45, 0x4C, 0x46, 0x3E, 1, 0x66]⟩,
    ⟨.functionSignatures, [2, 0, 0]⟩, ⟨.localSignatures, [3, 1, 2]⟩,
    ⟨.main,
      [0, 0, 2, 0, 11, 0] ++
        [0x06, 2, 0, 0, 0, 0, 0, 0, 0] ++ [0x0D, 0] ++
        [0x0C, 0] ++ [0x06, 1, 0, 0, 0, 0, 0, 0, 0] ++ [0x17] ++ [0x0D, 0] ++
        [0x0B, 0] ++ [0x06, 0, 0, 0, 0, 0, 0, 0, 0] ++ [0x24] ++ [0x03, 2, 0] ++ [0x02]⟩]

/-- Integers as values: all numbers but zero are true, and what has no translation yields zero. -/
def integers : Interpretation Int where
  number n := n
  truth v := v != 0
  negate v := if v = 0 then 1 else 0
  combine op v w :=
    match op with
    | .sub => v - w
    | .greater => if w < v then 1 else 0
    | _ => 0
  result _ _ _ := 0
  truth_negate v := by by_cases h : v = 0 <;> simp [h]

/-- The countdown of this script is in step with the routine that it is lifted to, from the start and for
every number of steps. -/
theorem countdownSample_in_step : ∃ (m : Module) (h : Host) (l : Lifted) (w' : Workspace)
    (b : Body.Frame),
    Module.loadInto .standard countdownSample .new = .ok (m, h) ∧
    Runs ((Converter.mk m []).lift (.hosted 0)) (.ofHost h) l w' ∧ b.localCount = 1 ∧
    ∀ n, ∃ count,
      Matches (InStep l ((Converter.mk m []).rows l.function (.ofHost h)) b.localCount)
        (runFor (Bytecode.step integers b l.function.mapping.start
          l.function.record.code.instructions) n ⟨0, [], [7]⟩)
        (runFor (Form.step integers l) count ⟨0, fun _ => 7⟩) := by
  have check : liftPasses countdownSample (fun m _ l =>
      (Body.frame m l.function.record.handle l.function.record.code.locals).toOption.any fun b =>
        decide ((m.internalFunctions.map fun f => f.record.code.size).sum < 0x10000000 ∧
          FlatBranches l.function.record.code.instructions ∧ b.localCount = 1)) = true := by
    decide +kernel
  obtain ⟨m, h, l, w', hload, hlift, hcheck⟩ := exists_of_liftPasses check
  simp only [Option.any_eq_true, decide_eq_true_eq] at hcheck
  obtain ⟨b, hb, hsize, hflat, hcount⟩ := hcheck
  obtain ⟨b', hb', hrun⟩ := routine_in_step (.inr ⟨.new, h, hload⟩) hsize hlift hflat integers
  rw [hb'] at hb
  obtain rfl := Option.some.inj hb
  obtain ⟨hforward, -⟩ := hrun [7] (fun _ => 7) hcount.symm (by
    intro index v hv
    exact (List.mem_singleton.mp (List.mem_of_getElem? hv)).symm)
  exact ⟨m, h, l, w', b', hload, hlift, hcount, hforward⟩

end Converter

end MoveBytecode
