import MoveBytecode.Event
import MoveBytecode.Load.Basic

/-!
# Events of a load

What a load reports, in order: each table before it is read, each function with its instructions,
the listing of the tables, and the segments that were published. A load that fails has reported what
happened up to the fault. The events are worked out beside the load, from the same readers.
-/

namespace MoveBytecode.Module

/-- The events of reading a function. -/
def functionEvents (m : Module) (c : Cursor) : List Event :=
  match (Table.readFunctionHeader m).runAt c with
  | (.error _, _) => []
  | (.ok header, c) =>
    .readingBody c.position header.handle header.maxStack header.locals header.count ::
      match Body.frame m header.handle header.locals with
      | .error _ => []
      | .ok frame =>
        let (s, _) := Body.scan frame c.position header.count #[] 0 c
        .readingFunction frame.name frame.signature.params.length frame.signature.returns.length ::
          s.instructions.toList.map .readInstruction

/-- The events of reading functions until no byte is left. -/
def functionsEvents (m : Module) : (fuel : Nat) → Cursor → List Event
  | 0, _ => []
  | fuel + 1, c =>
    if c.atEnd then []
    else
      functionEvents m c ++
        match (Table.readFunction m).runAt c with
        | (.ok _, next) => functionsEvents m fuel next
        | (.error _, _) => []

/-- The events of reading a table. -/
def tableEvents (m : Module) (s : Section) : List Event :=
  .readingTable s.kind s.offset s.size ::
    match Table.cursor m s with
    | .error _ => []
    | .ok c =>
      match s.kind with
      | .functionDefs => functionsEvents m c.available c
      | .main => if m.main.isSome then [] else functionEvents m c
      | _ => []

/-- The events of reading tables one after the other. -/
def sectionEvents : List Section → Module → List Event
  | [], _ => []
  | s :: rest, m =>
    tableEvents m s ++
      match Table.decode m s with
      | .ok m => sectionEvents rest m
      | .error _ => []

/-- The events of the listing of the tables. -/
def dumpEvents (config : Config) (m : Module) : List Event :=
  match m.dump config with
  | .ok (some text) => [.tables text]
  | _ => []

/-- The events of reading the tables with code and of what follows. -/
def codeEvents (config : Config) (m : Module) : List Event :=
  sectionEvents m.codeSections m ++
    match m.codeSections.foldlM Table.decode m >>= resolveKind with
    | .ok m => dumpEvents config m
    | .error _ => []

/-- The events of a load up to the layout. -/
def decodeEvents (config : Config) (data : Bytes) : List Event :=
  match readDirectory data with
  | .error _ => []
  | .ok m =>
    sectionEvents m.dataSections m ++
      match m.dataSections.foldlM Table.decode m with
      | .error _ => []
      | .ok m =>
        match m.checkReferences with
        | .error _ => []
        | .ok _ => codeEvents config m

/-- The events of looking at a header: a version that is not read is worth a warning. -/
def headerEvents (data : Bytes) : List Event :=
  match Header.check data with
  | .error (.versionUnsupported major minor) =>
    [.versionRefused (.versionUnsupported major minor)]
  | _ => []

/-- The events of publishing a layout into a host. -/
def layoutEvents (h : Host) : List Event :=
  h.segments.map fun s => .segment s.name s.base s.stop

end MoveBytecode.Module
