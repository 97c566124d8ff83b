import MoveBytecode.Config
import MoveBytecode.Host.Basic
import MoveBytecode.Module.Names

/-!
# Layout

A loaded module is mapped into three runs of addresses: the constants, the function bodies, and one
slot for every function elsewhere. `Module.layOut` gives every entry its addresses;
`Module.publish` records segments, symbols and bytes in a host.
-/

namespace MoveBytecode

/-- The entries one behind the other from `base` on, and the address behind the last. -/
def Entry.mapFrom {α : Type} (size : α → Nat) (base : Int) (entries : List (Entry α)) :
    Array (Entry α) × Int :=
  entries.foldl
    (fun (placed, address) e =>
      let bytes := size e.record
      (placed.push { e with mapping := ⟨address, bytes⟩ }, address + bytes))
    (#[], base)

/-- The pool with its entries one behind the other from `base` on, and the address behind the
last. -/
def Pool.mapFrom {α : Type} (size : α → Nat) (base : Int) (p : Pool α) : Pool α × Int :=
  let (entries, stop) := Entry.mapFrom size base p.toList
  ({ p with entries }, stop)

namespace Module

/-- The module with its constants mapped from `base` on, and the address behind the last. -/
def mapData (m : Module) (base : Int) : Module × Int :=
  let (addresses, next) := m.addresses.mapFrom (fun v => (Datum.address v).bytes.size) base
  let (bytearrays, next) := m.bytearrays.mapFrom (fun v => (Datum.bytearray v).bytes.size) next
  let (strings, next) := m.strings.mapFrom (fun v => (Datum.text v).bytes.size) next
  ({ m with addresses, bytearrays, strings }, next)

/-- The module with its functions mapped from `base` on, and the address behind the last. -/
def mapFunctions (m : Module) (base : Int) : Module × Int :=
  match m.main with
  | some main =>
    let size := main.record.code.size
    ({ m with main := some { main with mapping := ⟨base, size⟩ } }, base + size)
  | none =>
    let (functionDefs, stop) := m.functionDefs.mapFrom (·.code.size) base
    ({ m with functionDefs }, stop)

/-- The module with the handle of each function at the addresses of that function. -/
def mapHandles (m : Module) : Module :=
  { m with
    functionHandles :=
      m.internalFunctions.foldl (fun pool f => pool.remap f.record.handle f.mapping)
        m.functionHandles }

/-- The module with slots of `size` addresses from `base` on for the handles that have no function
here, and the address behind the last. -/
def mapImports (m : Module) (base size : Int) : Module × Int :=
  let (functionHandles, stop) :=
    m.externalHandles.foldl
      (fun (pool, address) h => (pool.remap h.index ⟨address, size⟩, address + size))
      (m.functionHandles, base)
  ({ m with functionHandles }, stop)

/-- The addresses behind the constants, the functions and the slots. -/
structure Bounds where
  data : Int
  code : Int
  imports : Int
  deriving DecidableEq, Repr

/-- The module with the addresses that a configuration gives it. -/
def layOut (config : Config) (m : Module) : Module × Bounds :=
  let (m, data) := m.mapData config.dataBase
  let (m, code) := m.mapFunctions config.codeBase
  let (m, imports) := m.mapHandles.mapImports config.importsBase config.pointerSize
  let info : ImageInfo :=
    { wordSize := config.pointerSize * 8, entryPoint := config.codeBase }
  ({ m with info := some info }, ⟨data, code, imports⟩)

/-! ## Publication -/

/-- The host with the segment `[base, stop)` and the contents that fall into it; an empty segment
leaves no trace. -/
def publishSegment (name : String) (base stop : Int) (contents : List (Int × Bytes)) (h : Host) :
    Except Fault Host :=
  if stop ≤ base then .ok h
  else
    contents.foldlM
      (fun h (address, bytes) => if bytes.isEmpty then .ok h else h.write address bytes)
      (h.addSegment (.make name .unplaced base (stop - base) Segment.allAccess))

/-- The host with the symbol of a constant; an empty one has none. -/
def publishDatum (h : Host) (e : Entry Datum) : Host :=
  if e.mapping.size = 0 then h
  else
    (h.addSymbol .variable Symbol.noFlag e.index "" e.mapping.start e.mapping.size
      (some (e.record.elementType ++ s!"[{e.mapping.size}]"))).2

/-- The host with the constants. -/
def publishData (m : Module) (base stop : Int) (h : Host) : Except Fault Host :=
  publishSegment ".data" base stop
    (m.dataEntries.map fun e => (e.mapping.start, e.record.bytes))
    (m.dataEntries.foldl publishDatum h)

/-- The host with the symbol of a function. -/
def publishFunction (m : Module) (h : Host) (f : Entry FunctionDef) : Except Fault Host := do
  let name ← m.nameOf f.record
  return (h.addSymbol .function Symbol.contiguous f.index name f.mapping.start f.mapping.size
    none).2

/-- The host with the functions. -/
def publishCode (m : Module) (base stop : Int) (h : Host) : Except Fault Host := do
  let h ← m.internalFunctions.foldlM (publishFunction m) h
  publishSegment ".code" base stop
    (m.internalFunctions.map fun f => (f.mapping.start, f.record.code.bytes)) h

/-- The host with the symbol of a function elsewhere. -/
def publishImport (m : Module) (h : Host) (e : Entry FunctionHandle) : Except Fault Host := do
  let name ← m.functionName e.record
  return (h.addSymbol .pointer Symbol.imported e.index name e.mapping.start e.mapping.size
    none).2

/-- The host with the functions elsewhere. -/
def publishImports (m : Module) (base stop : Int) (h : Host) : Except Fault Host := do
  let h ← m.externalHandles.foldlM (publishImport m) h
  publishSegment ".imports" base stop [] h

/-- The host with a module that has been laid out. -/
def publish (config : Config) (bounds : Bounds) (m : Module) (h : Host) : Except Fault Host := do
  let h ← m.publishData config.dataBase bounds.data h.withMoveTypes
  let h ← m.publishCode config.codeBase bounds.code h
  m.publishImports config.importsBase bounds.imports h

end Module

end MoveBytecode
