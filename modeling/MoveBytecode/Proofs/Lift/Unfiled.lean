import MoveBytecode.Proofs.Lift.Conversion
import MoveBytecode.Proofs.Loading.Reordering

/-!
# Lifting apart from the file

A lift looks at names, signatures, records and addresses, and never at where an entry was read from. Two
modules that say the same (`Module.unfiled`) are therefore lifted to the same routines: each lowering
is the same computation for frames that are akin (`Frame.Akin.lower`), and so are blocks, routines and
the views made of them. With the tables of a binary in another order or at other places, everything
that is shown of it stays (`Analysis.ofBytes_reordered`).
-/

namespace MoveBytecode

open Lift

variable {σ α β : Type}

/-! ## Results up to a part that does not matter -/

/-- What does not look at the part of a value that `u` takes away goes on in the same way. -/
theorem ofExcept_bind_congr {u : α → α} {x y : Except Fault α} (h : u <$> x = u <$> y)
    {f : α → ExceptT Fault (StateM σ) β} (hf : ∀ a, f (u a) = f a) :
    Lift.ofExcept x >>= f = Lift.ofExcept y >>= f := by
  have hmap (z : Except Fault α) : Lift.ofExcept z >>= f = Lift.ofExcept (u <$> z) >>= f := by
    cases z with
    | error fault => rfl
    | ok a =>
      change pure a >>= f = pure (u a) >>= f
      rw [pure_bind, pure_bind, hf]
  rw [hmap x, hmap y, h]

/-- Changing the value of a computation leaves its faults and its final state. -/
theorem outcome_map (u : α → β) (x : ExceptT Fault (StateM σ) α) (s : σ) :
    outcome (u <$> x) s = (u <$> (outcome x s).1, (outcome x s).2) := by
  rw [map_eq_pure_bind, outcome_bind]
  rcases outcome x s with ⟨_ | a, t⟩
  · rfl
  · rfl

/-! ## Types -/

namespace Module.Akin

variable {m n : Module}

/-- Akin modules make the same structures for their struct handles. -/
theorem structureOf (h : m.Akin n) : Typing.structureOf m = Typing.structureOf n := by
  funext handle
  simp only [Typing.structureOf, h.agrees.structHostName]

/-- Akin modules convert tokens to the same types. -/
theorem typeOf (h : m.Akin n) : Typing.typeOf m = Typing.typeOf n := by
  funext token
  induction token with
  | reference mutable target ih => simp only [Typing.typeOf, ih]
  | struct handle => simp only [Typing.typeOf, h.structureOf]
  | bool | integer | string | address | bytearray | anyReference mutable | anyStruct => rfl

/-- Akin modules make the same prototypes of signatures. -/
theorem prototypeOf (h : m.Akin n) : Lift.prototypeOf m = Lift.prototypeOf n := by
  funext signature
  simp only [Lift.prototypeOf, Typing.prototypeOf, Typing.typesOf, h.typeOf]

/-- Akin modules provide routines with the same prototypes. -/
theorem ensurePrototype (h : m.Akin n) : Lift.ensurePrototype m = Lift.ensurePrototype n := by
  funext number signature
  simp only [Lift.ensurePrototype, h.prototypeOf]

/-- Akin modules assign the same prototypes. -/
theorem assignPrototypes (h : m.Akin n) : Lift.assignPrototypes m = Lift.assignPrototypes n := by
  have hassign : Lift.assignPrototype m = Lift.assignPrototype n := by
    funext number
    simp only [Lift.assignPrototype, h.ensurePrototype, h.agrees.signatureOf]
    refine bind_congr fun w => ?_
    split
    · refine ofExcept_bind_congr (h.handleNamed? _) fun found => ?_
      cases found with
      | none => rfl
      | some e => rfl
    · rfl
  simp only [Lift.assignPrototypes, hassign]

end Module.Akin

/-! ## Lowerings -/

namespace Lift.Frame

/-- Two frames of the same function, in modules with the same tables without code. -/
structure Akin (f g : Frame) : Prop where
  owner : f.owner.Akin g.owner
  handle : f.function.record.handle = g.function.record.handle
  localTypes : f.localTypes = g.localTypes
  locals : f.locals = g.locals
  removed : f.removed = g.removed

namespace Akin

variable {f g : Frame}

/-- In akin frames tokens are converted to the same types. -/
theorem typeOf (h : f.Akin g) : Lift.typeOf f = Lift.typeOf g := by
  funext token
  simp only [Lift.typeOf, h.owner.typeOf]

/-- In akin frames tokens are pushed alike. -/
theorem push (h : f.Akin g) : Lift.push f = Lift.push g := by
  funext token
  simp only [Lift.push, h.typeOf]

/-- In akin frames tokens are pushed and assigned alike. -/
theorem pushAssign (h : f.Akin g) : Lift.pushAssign f = Lift.pushAssign g := by
  funext token source
  simp only [Lift.pushAssign, h.push]

/-- In akin frames an instruction names the same local. -/
theorem localVar (h : f.Akin g) : Lift.localVar f = Lift.localVar g := by
  funext i
  simp only [Lift.localVar, h.locals]

/-- In akin frames an instruction names a local of the same type. -/
theorem localType (h : f.Akin g) : Lift.localType f = Lift.localType g := by
  funext i
  simp only [Lift.localType, h.localTypes]

/-- In akin frames an instruction names the same struct. -/
theorem structOf (h : f.Akin g) : Lift.structOf f = Lift.structOf g := by
  funext i
  refine bind_congr fun index => ?_
  exact ofExcept_bind_congr (Pool.map_unfiled_get h.owner.structDefs _) fun _ => rfl

/-- In akin frames a return is lowered alike. -/
theorem lowerReturn (h : f.Akin g) : Lift.lowerReturn f = Lift.lowerReturn g := by
  simp only [Lift.lowerReturn, Module.handleOf, h.owner.agrees.signatureOf, h.handle]
  exact ofExcept_bind_congr (Pool.map_unfiled_get h.owner.functionHandles _) fun _ => rfl

/-- In akin frames a call is lowered alike. -/
theorem lowerCall (h : f.Akin g) : Lift.lowerCall f = Lift.lowerCall g := by
  have hcallee : callee f = callee g := by
    funext e address
    simp only [callee, h.owner.agrees.functionName]
  funext i address
  simp only [Lift.lowerCall, hcallee, h.owner.agrees.signatureOf, h.owner.ensurePrototype, h.push]
  refine bind_congr fun index => ?_
  exact ofExcept_bind_congr (Pool.map_unfiled_get h.owner.functionHandles _) fun _ => rfl

/-- In akin frames the borrowing of a field is lowered alike. -/
theorem lowerBorrowField (h : f.Akin g) : Lift.lowerBorrowField f = Lift.lowerBorrowField g := by
  funext i address
  simp only [Lift.lowerBorrowField, h.owner.agrees.fieldType, h.push]
  refine bind_congr fun index => ?_
  refine Eq.trans (bind_congr fun field => bind_congr fun reference => ?_)
    (ofExcept_bind_congr (Pool.map_unfiled_get h.owner.fieldDefs _) fun _ => rfl)
  exact ofExcept_bind_congr (Pool.map_unfiled_get h.owner.strings _) fun _ => rfl

/-- In akin frames an unpacking is lowered alike. -/
theorem lowerUnpack (h : f.Akin g) : Lift.lowerUnpack f = Lift.lowerUnpack g := by
  funext i address
  simp only [Lift.lowerUnpack, h.structOf, h.owner.agrees.fieldType, h.push]
  refine bind_congr fun d => bind_congr fun value => ?_
  refine ofExcept_bind_congr (h.owner.fieldsOf d) fun fields => ?_
  rw [mapM_map_of_forall (Entry.unfiled id)]
  exact fun _ => rfl

/-- Every instruction is lowered in the same way. -/
theorem lower (h : f.Akin g) : Lift.lower f = Lift.lower g := by
  funext i address
  have hconstant : lowerConstant f = lowerConstant g := by
    funext token mapping
    simp only [lowerConstant, h.pushAssign]
  simp only [Lift.lower, lowerCopy, lowerMove, lowerStore, lowerNot, lowerBinary, lowerBorrowLocal,
    lowerBorrowGlobal, lowerRead, lowerPack, lowerMoveFrom, lowerLedger, hconstant, h.push, h.pushAssign,
    h.localVar, h.localType, h.structOf, h.lowerReturn, h.lowerCall, h.lowerBorrowField, h.lowerUnpack]
  -- Only the constants are left: they are looked up in a pool, for their record or their address.
  split
  all_goals
    first
    | rfl
    | exact bind_congr fun _ => ofExcept_bind_congr (Pool.map_unfiled_get h.owner.addresses _) fun _ => rfl
    | exact bind_congr fun _ => ofExcept_bind_congr (Pool.map_unfiled_get h.owner.strings _) fun _ => rfl
    | exact bind_congr fun _ => ofExcept_bind_congr (Pool.map_unfiled_get h.owner.bytearrays _) fun _ => rfl

/-! ## Blocks -/

/-- In akin frames placed instructions are lowered alike. -/
theorem lowerAt (h : f.Akin g) : Lift.lowerAt f = Lift.lowerAt g := by
  have hsupported : lowerSupported f = lowerSupported g := by
    funext p
    simp only [lowerSupported, h.removed, h.lower]
  have hreport : reportFault f = reportFault g := by
    funext p fault
    simp only [reportFault, h.owner.agrees.showInstruction]
  funext p
  simp only [Lift.lowerAt, hsupported, hreport]

/-- In akin frames instructions are lowered alike one after the other. -/
theorem lowerAll (h : f.Akin g) : Lift.lowerAll f = Lift.lowerAll g := by
  funext ps
  induction ps with
  | nil => rfl
  | cons p rest ih =>
    funext done
    simp only [Lift.lowerAll, h.lowerAt, ih]

/-- In akin frames blocks are lifted alike one after the other. -/
theorem liftBlocks (h : f.Akin g) : Lift.liftBlocks f = Lift.liftBlocks g := by
  have hblock : liftBlock f = liftBlock g := by
    funext b done
    simp only [liftBlock, h.lowerAll]
  funext bs
  induction bs with
  | nil => rfl
  | cons b rest ih =>
    funext done failed
    simp only [Lift.liftBlocks, hblock, ih]

/-- In akin frames parameters have the same variables. -/
theorem paramVars (h : f.Akin g) : Lift.paramVars f = Lift.paramVars g := by
  funext index tokens
  induction tokens generalizing index with
  | nil => rfl
  | cons token rest ih => simp only [Lift.paramVars, paramVar, h.typeOf, ih]

end Akin

end Lift.Frame

/-! ## Routines -/

/-- A lifted routine without the position of its function. -/
def Lift.Lifted.unfiled (l : Lifted) : Lifted :=
  { l with function := l.function.unfiled FunctionDef.unfiled }

namespace Lift

variable {m n : Module}

/-- Akin modules declare the same variables for locals. -/
theorem declareLocals_of_akin (h : m.Akin n) : declareLocals m = declareLocals n := by
  funext index tokens
  induction tokens generalizing index with
  | nil => rfl
  | cons token rest ih => simp only [declareLocals, h.typeOf, ih]

/-- A function is lifted to the same routine, wherever it was read from. -/
theorem liftFunction_of_akin (h : m.Akin n) (removed : List Opcode) {f g : Entry FunctionDef}
    (hfg : f.unfiled FunctionDef.unfiled = g.unfiled FunctionDef.unfiled) :
    (fun lifted routine => (lifted routine).unfiled) <$> liftFunction m removed f =
      (fun lifted routine => (lifted routine).unfiled) <$> liftFunction n removed g := by
  have hgraph : Graph.ofFunction f = Graph.ofFunction g := by
    change Graph.ofFunction (f.unfiled FunctionDef.unfiled) = Graph.ofFunction (g.unfiled FunctionDef.unfiled)
    rw [hfg]
  have hhandle : f.record.handle = g.record.handle := congrArg (fun e => e.record.handle) hfg
  have hlocals : f.record.code.locals = g.record.code.locals :=
    congrArg (fun e => e.record.code.locals) hfg
  have hlocalsOf : m.localsOf f.record = n.localsOf g.record := by
    rw [h.agrees.localsOf]
    simp only [Module.localsOf, hlocals]
  have hframe (localTypes : List Token) (locals : List Var) :
      Frame.Akin ⟨m, f, localTypes.toArray, locals.toArray, removed⟩
        ⟨n, g, localTypes.toArray, locals.toArray, removed⟩ := ⟨h, hhandle, rfl, rfl, rfl⟩
  simp only [liftFunction, openFunction, bind_assoc, pure_bind, map_bind, map_pure, hlocalsOf,
    declareLocals_of_akin h, hgraph, Module.handleOf, hhandle, h.agrees.signatureOf, Lifted.unfiled, hfg]
  refine bind_congr fun _ => bind_congr fun localTypes => bind_congr fun locals => ?_
  simp only [(hframe localTypes locals).liftBlocks, (hframe localTypes locals).paramVars,
    (hframe localTypes locals).typeOf]
  refine bind_congr fun lifted => ?_
  exact ofExcept_bind_congr (Pool.map_unfiled_get h.functionHandles _) fun _ => rfl

/-- Changing the value of what runs on a routine may be done inside or outside. -/
theorem map_onRoutine (u : α → β) (x : LiftM α) : u <$> onRoutine x = onRoutine (u <$> x) := by
  funext w
  change outcome (u <$> onRoutine x) w = outcome (onRoutine (u <$> x)) w
  rw [outcome_map, outcome_onRoutine, outcome_onRoutine, outcome_map]

end Lift

variable {m n : Module}

/-- Modules that are equal but for positions are lifted alike, up to the position of the function. -/
theorem Converter.lift_of_unfiled (h : m.unfiled = n.unfiled) (removed : List Opcode) (target : RoutineRef) :
    Lifted.unfiled <$> (Converter.mk m removed).lift target =
      Lifted.unfiled <$> (Converter.mk n removed).lift target := by
  have hakin := Module.akin_of_unfiled h
  -- What is done with a function that is found.
  have hfound (k : Module) (hk : k.Akin n) (f g : Entry FunctionDef)
      (hfg : f.unfiled FunctionDef.unfiled = g.unfiled FunctionDef.unfiled)
      {rest : (Routine → Lifted) → HostM Lifted}
      (hrest : ∀ lifted, rest (fun routine => (lifted routine).unfiled) = rest lifted) :
      onRoutine (liftFunction k removed f) >>= rest = onRoutine (liftFunction n removed g) >>= rest := by
    refine bind_congr_of_map (u := fun lifted routine => (lifted routine).unfiled) ?_ hrest
    rw [map_onRoutine, map_onRoutine, liftFunction_of_akin hk removed hfg]
  simp only [Converter.lift, map_bind, hakin.assignPrototypes]
  refine bind_congr fun w => ?_
  refine Eq.trans (bind_congr fun found => ?_)
    (ofExcept_bind_congr (Module.functionNamed?_of_unfiled h _) fun found => ?_)
  · cases found with
    | none => rfl
    | some f =>
      simp only [map_bind]
      refine bind_congr fun _ => hfound m hakin f f rfl fun lifted => ?_
      refine bind_congr fun w' => ?_
      cases target.resolve? w'.host with
      | none => rfl
      | some routine => rfl
  · cases found with
    | none => rfl
    | some f =>
      simp only [Option.map_some, map_bind]
      refine bind_congr fun _ => ?_
      refine hfound n (.refl n) (f.unfiled FunctionDef.unfiled) f rfl fun lifted => ?_
      refine bind_congr fun w' => ?_
      cases target.resolve? w'.host with
      | none => rfl
      | some routine => rfl

namespace Analysis

/-- Modules that are equal but for positions lift a function alike, up to its position. -/
theorem liftAt_of_unfiled (h : m.unfiled = n.unfiled) (f : Entry FunctionDef) :
    Lifted.unfiled <$> liftAt m f = Lifted.unfiled <$> liftAt n f := by
  simp only [liftAt, map_bind]
  refine bind_congr fun w => ?_
  split
  · exact Converter.lift_of_unfiled h [] _
  · rfl

variable {a b : Analysis}

/-- The routines of an analysis do not depend on where it was read from. -/
theorem lift_of_unfiled (h : a.owner.unfiled = b.owner.unfiled) (name : String) :
    List.map Lifted.unfiled <$> a.lift name = List.map Lifted.unfiled <$> b.lift name := by
  have hmapM (m : Module) (fs : List (Entry FunctionDef)) :
      List.map Lifted.unfiled <$> fs.mapM (liftAt m) = fs.mapM fun f => Lifted.unfiled <$> liftAt m f := by
    induction fs with
    | nil => rfl
    | cons f rest ih =>
      rw [List.mapM_cons, List.mapM_cons, map_bind, ← ih, bind_map_left]
      simp only [map_bind, bind_map_left, map_pure, List.map_cons]
  simp only [lift, map_bind, hmapM, liftAt_of_unfiled h]
  refine bind_congr fun _ => ?_
  refine ofExcept_bind_congr (Module.selectFunctions_of_unfiled h name) fun fs => ?_
  rw [mapM_map_of_forall (Entry.unfiled FunctionDef.unfiled)]
  exact fun _ => rfl

/-- Modules that are equal but for positions have the same lifted text. -/
theorem ir_of_unfiled (h : a.owner.unfiled = b.owner.unfiled) (name : String) : a.ir name = b.ir name := by
  unfold ir
  refine bind_congr_of_map (lift_of_unfiled h name) fun ls => ?_
  rw [List.map_map]
  rfl

/-- Two analyses that agree in all but where their binaries were read from: their modules say the same, they
have the same host, and everything that is shown of functions is the same. -/
structure Agree (a b : Analysis) : Prop where
  owner : a.owner.unfiled = b.owner.unfiled
  host : a.host = b.host
  disassembly : ∀ name, a.owner.disassembly name = b.owner.disassembly name
  graph : ∀ name, a.graph name = b.graph name
  ir : ∀ name, a.run (a.ir name) = b.run (b.ir name)

/-- Analyses whose modules are equal but for positions, on the same host, agree. -/
theorem agree_of_unfiled (h : a.owner.unfiled = b.owner.unfiled) (hhost : a.host = b.host) : a.Agree b where
  owner := h
  host := hhost
  disassembly := Module.disassembly_of_unfiled h
  graph := graph_of_unfiled h
  ir name := by rw [ir_of_unfiled h, run, run, hhost]

/-- Where one of two reordered binaries is loaded, so is the other, and the analyses agree. -/
theorem ofBytes_follows {data data' : Bytes} (hm : Module.readDirectory data = .ok m)
    (hn : Module.readDirectory data' = .ok n) (h : Module.Reorders m.tableBodies n.tableBodies)
    (config : Config) : Follows Agree (ofBytes config data) (ofBytes config data') := by
  intro a ha
  obtain ⟨⟨owner, host⟩, hload, ha⟩ := bind_eq_ok.mp ha
  obtain rfl := pure_eq_ok.mp ha
  obtain ⟨⟨owner', host'⟩, hload', howner, hhost⟩ := Module.loadInto_follows hm hn h config .new _ hload
  exact ⟨⟨owner', host'⟩, bind_eq_ok.mpr ⟨_, hload', rfl⟩, agree_of_unfiled howner hhost⟩

/-- A loaded module depends on the contents of the tables alone: for two binaries whose headers and
directories are read, with the same tables up to an order that keeps those of each kind in order, and
wherever the tables stand, both loads fail or both succeed, and what they lead to agrees in all but the
places in the file. -/
theorem ofBytes_reordered {data data' : Bytes} (hm : Module.readDirectory data = .ok m)
    (hn : Module.readDirectory data' = .ok n) (h : Module.Reorders m.tableBodies n.tableBodies)
    (config : Config) :
    Together (fun m' n' => m'.unfiled = n'.unfiled) (Module.load config data) (Module.load config data') ∧
      Together Agree (ofBytes config data) (ofBytes config data') :=
  ⟨together_of_follows (Module.load_follows hm hn h config) (Module.load_follows hn hm h.symm config),
    together_of_follows (ofBytes_follows hm hn h config) (ofBytes_follows hn hm h.symm config)⟩

/-! ### An example -/

/-- A script whose texts stand in two tables. -/
def orderedSample : Bytes :=
  Format.assemble .libra [
    ⟨.moduleHandles, [0, 0]⟩, ⟨.functionHandles, [0, 1, 0]⟩, ⟨.addressPool, List.replicate 32 0⟩,
    ⟨.stringPool, [6, 0x3C, 0x53, 0x45, 0x4C, 0x46, 0x3E]⟩, ⟨.stringPool, [1, 0x66]⟩,
    ⟨.functionSignatures, [2, 0, 0]⟩, ⟨.localSignatures, [3, 0]⟩,
    ⟨.main, [0, 0, 1, 0, 3, 0] ++ [0x09] ++ [0x01] ++ [0x02]⟩]

/-- The same script with its function first, the other magic text, and a byte behind the tables. -/
def reorderedSample : Bytes :=
  Format.assemble .diem [
    ⟨.main, [0, 0, 1, 0, 3, 0] ++ [0x09] ++ [0x01] ++ [0x02]⟩,
    ⟨.stringPool, [6, 0x3C, 0x53, 0x45, 0x4C, 0x46, 0x3E]⟩, ⟨.localSignatures, [3, 0]⟩,
    ⟨.addressPool, List.replicate 32 0⟩, ⟨.stringPool, [1, 0x66]⟩,
    ⟨.functionSignatures, [2, 0, 0]⟩, ⟨.functionHandles, [0, 1, 0]⟩, ⟨.moduleHandles, [0, 0]⟩] ++ #[0]

/-- These two binaries are reorderings of each other, are both loaded, and agree. -/
theorem reorderedSample_agree : ∃ m n a b, Module.readDirectory orderedSample = .ok m ∧
    Module.readDirectory reorderedSample = .ok n ∧ Module.Reorders m.tableBodies n.tableBodies ∧
    ofBytes .standard orderedSample = .ok a ∧ ofBytes .standard reorderedSample = .ok b ∧
    a.owner.magic ≠ b.owner.magic ∧ a.Agree b := by
  have directories : (Module.readDirectory orderedSample).toOption.any (fun m =>
      (Module.readDirectory reorderedSample).toOption.any fun n =>
        decide (m.tableBodies.Perm n.tableBodies ∧ ∀ kind ∈ TableKind.all,
          m.tableBodies.filter (·.1 == kind) = n.tableBodies.filter (·.1 == kind))) = true := by
    decide +kernel
  have loads : (ofBytes .standard orderedSample).toOption.any (fun a =>
      (ofBytes .standard reorderedSample).toOption.any fun b =>
        decide (a.owner.magic ≠ b.owner.magic)) = true := by
    decide +kernel
  obtain ⟨m, hm, hdirectories⟩ := exists_of_any_toOption directories
  obtain ⟨n, hn, hdirectories⟩ := exists_of_any_toOption hdirectories
  obtain ⟨hperm, horder⟩ := of_decide_eq_true hdirectories
  obtain ⟨a, ha, hloads⟩ := exists_of_any_toOption loads
  obtain ⟨b, hb, hmagic⟩ := exists_of_any_toOption hloads
  have hreorders : Module.Reorders m.tableBodies n.tableBodies :=
    ⟨hperm, fun kind => horder kind kind.mem_all⟩
  have hagree := (ofBytes_reordered hm hn hreorders .standard).2
  rw [ha, hb] at hagree
  cases hagree with
  | values hagree => exact ⟨m, n, a, b, hm, hn, hreorders, ha, hb, of_decide_eq_true hmagic, hagree⟩

end Analysis

end MoveBytecode
