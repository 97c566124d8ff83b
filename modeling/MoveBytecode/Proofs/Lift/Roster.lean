import MoveBytecode.Proofs.Lift.Workspace

/-!
# Conversions and the roster

Work on a host brings prototypes, classes, types and events, and leaves its roster as it is, however it
ends. So in every workspace that work on an analysis can leave (`Analysis.Reaches`), and in every state
in which an instruction is lowered there, names and addresses lead to the routines to which they led
after loading.
-/

namespace MoveBytecode

namespace Lift

variable {α : Type}

/-- The roster of the host of a workspace. -/
def Workspace.roster (w : Workspace) : List (Int × Nat) × Array Routine := w.host.roster

/-- The roster of the host while a routine is lifted. -/
def State.roster (s : State) : List (Int × Nat) × Array Routine := s.toWorkspace.roster

/-- Nothing that lifting does to a workspace changes the roster. -/
theorem durable_roster (c : List (Int × Nat) × Array Routine) :
    Durable fun w => w.roster = c where
  event _ _ h := h
  types _ _ _ h := h
  moveTypes _ h := h
  routine w number _ hf h := (Host.roster_updateRoutine w.host number hf).trans h
  classes _ _ h := h

/-- What keeps every durable property of the host leaves the roster as it is. -/
theorem leaves_roster {x : HostM α} (h : ∀ {I : Workspace → Prop}, Durable I → Preserves I x) :
    Leaves Workspace.roster x :=
  leaves_iff_preserves.mpr fun c => h (durable_roster c)

/-- What is put together from parts of lifts leaves the roster as it is. -/
theorem leaves_state_roster (m : Module) {x : LiftM α}
    (h : ∀ {P : ∀ α : Type, LiftM α → Prop}, Pervades m P → P α x) : Leaves State.roster x :=
  leaves_iff_preserves.mpr fun c => h ((durable_roster c).lasting.pervades m)

/-- Preparing a lift leaves the roster alone. -/
theorem leaves_prepare : Leaves Workspace.roster prepare := leaves_roster Durable.prepare

/-- Assigning prototypes leaves the roster alone. -/
theorem leaves_assignPrototypes (m : Module) : Leaves Workspace.roster (assignPrototypes m) :=
  leaves_roster fun hI => hI.lasting.assignPrototypes m

/-- Opening a function leaves the roster alone. -/
theorem leaves_openFunction (m : Module) (removed : List Opcode) (f : Entry FunctionDef) :
    Leaves State.roster (openFunction m removed f) :=
  leaves_state_roster m fun hP => hP.openFunction removed f

/-- A lift leaves the roster alone. -/
theorem leaves_lift (c : Converter) (target : RoutineRef) :
    Leaves Workspace.roster (c.lift target) :=
  leaves_roster fun hI => hI.lasting.lift c target

/-! ## The course of a lift -/

/-- All instructions are lowered with the same roster. -/
theorem roster_of_mem_lowerings {f : Frame} {ps : List Placed} {s : State} {low : Lowering}
    (h : low ∈ lowerings f ps s) : low.before.roster = s.roster := by
  induction ps generalizing s with
  | nil => simp [lowerings] at h
  | cons p rest ih =>
    have hleaves : (outcome (lowerAt f p) s).2.roster = s.roster :=
      leaves_state_roster f.owner (fun hP => hP.lowerAt rfl p) s
    rw [lowerings] at h
    split at h
    · rename_i step t hrun
      rw [hrun] at hleaves
      rcases List.mem_cons.mp h with rfl | h
      · rfl
      · exact (ih h).trans hleaves
    · rw [List.mem_singleton.mp h]

/-- A block is entered with the roster that there was. -/
theorem roster_entered (m : Module) (b : Block) (s : State) : (entered b s).roster = s.roster := by
  unfold entered
  split
  · rfl
  · exact leaves_state_roster m (fun hP => hP.enterBlock _) s

/-- All blocks are visited with the same roster. -/
theorem roster_of_mem_visits {f : Frame} {blocks : List Block} {s : State} {v : Visit}
    {low : Lowering} (hv : v ∈ visits f s blocks) (hlow : low ∈ v.lowerings) :
    low.before.roster = s.roster := by
  induction blocks generalizing s with
  | nil => simp [visits] at hv
  | cons b rest ih =>
    rcases List.mem_cons.mp hv with rfl | hv
    · exact (roster_of_mem_lowerings hlow).trans (roster_entered f.owner b s)
    · exact (ih hv).trans (leaves_state_roster f.owner (fun hP => hP.liftBlock rfl b #[]) s)

end Lift

open Lift

/-- The workspaces that work on an analysis can leave, whether or not it ends with a fault. -/
inductive Analysis.Reaches (a : Analysis) : Workspace → Prop where
  | start : a.Reaches (.ofHost a.host)
  | prepare {w : Workspace} : a.Reaches w → a.Reaches (outcome prepare w).2
  | assign {w : Workspace} : a.Reaches w → a.Reaches (outcome (assignPrototypes a.owner) w).2
  | lift {w : Workspace} (removed : List Opcode) (target : RoutineRef) :
    a.Reaches w → a.Reaches (outcome ((Converter.mk a.owner removed).lift target) w).2
  | refine {w : Workspace} (l : Lifted) (graph : Option Graph) :
    a.Reaches w → a.Reaches (outcome (Lift.refine l graph) w).2
  | rebuild {w : Workspace} (className : String) :
    a.Reaches w → a.Reaches (outcome (a.owner.rebuild className) w).2

/-- What loading leaves and lifting keeps holds of every workspace that work on an analysis can leave. -/
theorem Analysis.Reaches.durable {a : Analysis} {w : Workspace} (h : a.Reaches w)
    {I : Workspace → Prop} (hI : Durable I) (hstart : I (.ofHost a.host)) : I w := by
  induction h with
  | start => exact hstart
  | prepare _ ih => exact hI.prepare _ ih
  | assign _ ih => exact hI.lasting.assignPrototypes _ _ ih
  | lift removed target _ ih => exact hI.lasting.lift _ target _ ih
  | refine l graph _ ih => exact hI.refine l graph _ ih
  | rebuild className _ ih => exact hI.rebuild _ className _ ih

/-- Work on an analysis leaves the roster of its host as it is. -/
theorem Analysis.Reaches.roster {a : Analysis} {w : Workspace} (h : a.Reaches w) :
    w.host.roster = a.host.roster := h.durable (durable_roster _) rfl

end MoveBytecode
