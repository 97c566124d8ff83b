import MoveBytecode.Analysis
import MoveBytecode.Proofs.Host.Directory
import MoveBytecode.Proofs.Lift.Conversion
import MoveBytecode.Proofs.Lift.Lifting
import MoveBytecode.Proofs.Lift.Types

/-!
# What lifting does to a workspace

Lifting a routine records events, adds types and gives routines prototypes; a conversion may also enter the
Move types and group routines into classes. Nothing else of a workspace changes. A property that survives
each of these (`Lasting`, `Durable`) is therefore kept by every lift and by every conversion, however they
end (`Lasting.lift`, `Durable.rebuild`).
-/

namespace MoveBytecode.Lift

variable {α : Type} {I : Workspace → Prop}

/-- A property of workspaces that survives what lifting a routine does to one. -/
structure Lasting (I : Workspace → Prop) : Prop where
  event : ∀ w e, I w → I { w with events := w.events.push e }
  types : ∀ w types, w.host.types.Grows types → I w → I { w with host := { w.host with types } }
  prototype : ∀ w number p, I w →
    I { w with host := w.host.updateRoutine number fun r => { r with prototype := some p } }

/-- A property of workspaces that survives all that conversions do to one. -/
structure Durable (I : Workspace → Prop) : Prop where
  event : ∀ w e, I w → I { w with events := w.events.push e }
  types : ∀ w types, w.host.types.Grows types → I w → I { w with host := { w.host with types } }
  moveTypes : ∀ w, I w → I { w with host := w.host.withMoveTypes }
  /-- A routine may get a prototype or a class. -/
  routine : ∀ w number (f : Routine → Routine), (∀ r, (f r).bare = r.bare) → I w →
    I { w with host := w.host.updateRoutine number f }
  classes : ∀ w classes, I w → I { w with host := { w.host with classes } }

/-- What survives all that conversions do survives a lift. -/
theorem Durable.lasting (hI : Durable I) : Lasting I where
  event := hI.event
  types := hI.types
  prototype w number _ := hI.routine w number _ fun _ => rfl

/-- Taking over a result preserves everything. -/
theorem preserves_ofExcept {σ : Type} {J : σ → Prop} (r : Except Fault α) :
    Preserves J (ofExcept r : ExceptT Fault (StateM σ) α) := by
  cases r with
  | ok a => exact preserves_pure a
  | error e => exact preserves_throw e

/-- What is done on the host preserves what is said of the workspace while a routine is lifted. -/
theorem preserves_onHost {x : HostM α} (hx : Preserves I x) :
    Preserves (I ∘ State.toWorkspace) (onHost x) := by
  intro s hs
  rw [outcome_onHost]
  exact hx s.toWorkspace hs

/-- What runs on a routine preserves a property of the workspace that it preserves meanwhile. -/
theorem preserves_onRoutine {x : LiftM α} (hx : Preserves (I ∘ State.toWorkspace) x) :
    Preserves I (onRoutine x) := by
  intro w hw
  rw [outcome_onRoutine]
  exact hx (fresh w) hw

/-! ## Rebuilds -/

/-- A lift that is recorded rather than thrown preserves what the lift and the record do. -/
theorem preserves_liftOrRecord {m : Module} {number : Nat}
    (hlift : Preserves I ((Converter.mk m []).lift (.hosted number)))
    (hnote : ∀ e, Preserves I (note e)) : Preserves I (m.liftOrRecord number) := by
  refine preserves_get.bind fun _ => Preserves.tryCatch ?_ fun fault => ?_
  · exact hlift.bind fun _ => preserves_pure _
  · split
    · exact (hnote _).bind fun _ => preserves_pure _
    · exact preserves_throw _

/-- What is kept by all parts of a rebuild is kept by the rebuild. -/
theorem preserves_rebuild {m : Module} {className : String} (hprepare : Preserves I prepare)
    (hlift : ∀ number, Preserves I (m.liftOrRecord number))
    (hclasses : ∀ w classes, I w → I { w with host := { w.host with classes } })
    (hgroup : ∀ number, Preserves I (Module.group className number))
    (hnote : ∀ e, Preserves I (note e)) : Preserves I (m.rebuild className) := by
  unfold Module.rebuild
  split
  · exact preserves_pure _
  · refine preserves_get.bind fun _ => ?_
    split
    · exact preserves_throw _
    · refine hprepare.bind fun _ => preserves_get.bind fun _ =>
        (preserves_mapM hlift _).bind fun _ w hw => ?_
      rw [outcome_bind, outcome_get]
      dsimp only
      unfold Host.addClass
      split
      · exact hw
      · -- The rest is done on the host with the class.
        refine Preserves.bind (preserves_forM hgroup _) (fun _ => ?_)
          { w with host := { w.host with classes := w.host.classes ++ [⟨className, []⟩] } }
          (hclasses w _ hw)
        exact (hnote _).bind fun _ => preserves_pure _

/-! ## Lifts -/

namespace Lasting

/-- Noting an event preserves a lasting property. -/
theorem note (hI : Lasting I) (e : Event) : Preserves I (note e) :=
  preserves_modify fun w h => hI.event w e h

/-- What grows the types at most preserves a lasting property. -/
theorem onTypes (hI : Lasting I) {x : TypeM α} (hx : ∀ r : TypeRegistry, r.Grows (outcome x r).2) :
    Preserves I (onTypes x) := by
  intro w hw
  rw [outcome_onTypes]
  exact hI.types w _ (hx w.host.types) hw

/-- Making a prototype preserves a lasting property. -/
theorem prototypeOf (hI : Lasting I) (m : Module) (signature : FunctionSignature) :
    Preserves I (prototypeOf m signature) := by
  refine (hI.onTypes fun r => Typing.grows_prototypeOf m signature r).bind fun _ => ?_
  split
  · exact (hI.note _).bind fun _ => preserves_pure _
  · exact preserves_pure _

/-- Providing a routine with a prototype preserves a lasting property. -/
theorem ensurePrototype (hI : Lasting I) (m : Module) (number : Nat)
    (signature : FunctionSignature) : Preserves I (ensurePrototype m number signature) := by
  refine preserves_get.bind fun w => ?_
  split
  · exact (hI.prototypeOf m signature).bind fun p =>
      preserves_modify fun w h => hI.prototype w number p h
  · exact preserves_pure _

/-- Assigning a prototype to a routine preserves a lasting property. -/
theorem assignPrototype (hI : Lasting I) (m : Module) (number : Nat) :
    Preserves I (assignPrototype m number) := by
  refine preserves_get.bind fun w => ?_
  split
  · refine (preserves_ofExcept _).bind fun found => ?_
    cases found with
    | none => exact preserves_pure _
    | some h => exact (preserves_ofExcept _).bind fun _ => hI.ensurePrototype m number _
  · exact preserves_pure _

/-- Assigning prototypes to all routines preserves a lasting property. -/
theorem assignPrototypes (hI : Lasting I) (m : Module) : Preserves I (assignPrototypes m) :=
  preserves_get.bind fun _ => preserves_forM (hI.assignPrototype m) _

/-- What lasts is kept by all parts of a lift. -/
theorem pervades (hI : Lasting I) (m : Module) :
    Pervades m fun _ x => Preserves (I ∘ State.toWorkspace) x where
  pure := preserves_pure
  bind := Preserves.bind
  throw := preserves_throw
  tryCatch := Preserves.tryCatch
  look _ h := preserves_get.bind h
  change _ _ _ := preserves_modify fun _ h => h
  record e := preserves_modify fun s h => hI.event s.toWorkspace e h
  typing token := preserves_onHost (hI.onTypes fun r => Typing.grows_typeOf m token r)
  prototype number _ signature _ := preserves_onHost (hI.ensurePrototype m number signature)

/-- A lift preserves a lasting property. -/
theorem lift (hI : Lasting I) (c : Converter) (target : RoutineRef) :
    Preserves I (c.lift target) := by
  refine preserves_get.bind fun w => (preserves_ofExcept _).bind fun found => ?_
  cases found with
  | none => exact preserves_throw _
  | some f =>
    refine (hI.assignPrototypes _).bind fun _ =>
      (preserves_onRoutine ((hI.pervades _).liftFunction _ f)).bind fun _ =>
      preserves_get.bind fun _ => ?_
    split
    · exact preserves_pure _
    · exact preserves_throw _

/-- A lift that is recorded rather than thrown preserves a lasting property. -/
theorem liftOrRecord (hI : Lasting I) (m : Module) (number : Nat) :
    Preserves I (m.liftOrRecord number) := preserves_liftOrRecord (hI.lift _ _) hI.note

end Lasting

/-! ## Conversions -/

namespace Durable

/-- Preparing a lift preserves a durable property. -/
theorem prepare (hI : Durable I) : Preserves I prepare :=
  preserves_modify fun w h => hI.moveTypes w h

/-- Moving a routine to a class preserves a durable property. -/
theorem group (hI : Durable I) (className : String) (number : Nat) :
    Preserves I (Module.group className number) :=
  preserves_modify fun w h => hI.routine { w with host := w.host.addMethod className number } number
    _ (fun _ => rfl) (hI.classes w _ h)

/-- Rebuilding a module preserves a durable property. -/
theorem rebuild (hI : Durable I) (m : Module) (className : String) :
    Preserves I (m.rebuild className) :=
  preserves_rebuild hI.prepare (hI.lasting.liftOrRecord m) hI.classes (hI.group className)
    hI.lasting.note

/-- Refining a routine preserves a durable property. -/
theorem refine (hI : Durable I) (l : Lifted) (graph : Option Graph) :
    Preserves I (Lift.refine l graph) :=
  preserves_get.bind fun _ => (hI.lasting.note _).bind fun _ => preserves_pure _

end Durable

end MoveBytecode.Lift
