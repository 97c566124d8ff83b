import MoveBytecode.Flow.Basic
import MoveBytecode.Pool
import MoveBytecode.Record
import Std.Data.TreeSet

/-!
# Control flow graphs

The instructions of a function are cut into basic blocks: a block starts at the first instruction,
at every target of an instruction that ends a block, and behind every such instruction. Blocks are
labelled by their addresses and joined by the flow of their last instructions.
-/

namespace MoveBytecode

/-- A run of instructions that is entered only at its start and left only at its end. -/
structure Block where
  label : String
  address : Int
  instructions : List Instruction
  successors : List String
  predecessors : List String
  deriving DecidableEq, Repr

/-- The label of the block at an address. -/
def blockLabel (address : Int) : String := "loc_" ++ Text.hex address

namespace Block

/-- The instructions of a block at their addresses. -/
def placed (b : Block) : List Placed := Placed.run b.address b.instructions

/-- The addresses of the instructions of a block. -/
def addresses (b : Block) : List Int := b.placed.map (·.address)

/-- The last instruction of a block. -/
def last? (b : Block) : Option Instruction := b.instructions.getLast?

/-- The address behind a block. -/
def stop (b : Block) : Int := b.address + Instruction.totalSize b.instructions

/-- A list of labels, which may be empty. -/
def labelsText (labels : List String) : String :=
  if labels.isEmpty then "(none)" else String.intercalate ", " labels

/-- The lines of a block: its edges, its instructions with their stack depths, and an empty line. -/
def lines (b : Block) : List String :=
  s!"[{b.label}]  preds={labelsText b.predecessors}  succs={labelsText b.successors}" ::
    b.placed.map (fun p =>
      s!"  {Text.hexPadded 8 p.address}  [{p.instruction.depthBefore}," ++
        s!"{p.instruction.depthAfter}]  {p.instruction.text}") ++ [""]

end Block

/-- Basic blocks, each under its label, and the label that control enters at. -/
structure Graph where
  blocks : List Block
  entry : String
  deriving DecidableEq, Repr

namespace Graph

/-- The graph without blocks. -/
def empty : Graph := ⟨[], ""⟩

/-- The block with this label. -/
def block? (g : Graph) (label : String) : Option Block :=
  g.blocks.find? (·.label == label)

/-- The block that starts at an address. -/
def blockAt? (g : Graph) (address : Int) : Option Block :=
  g.block? (blockLabel address)

/-- A graph as text. -/
def text (g : Graph) : String :=
  String.intercalate "\n" (g.blocks.flatMap Block.lines)

/-- The graph with one more block; it takes the place of a block with the same label. -/
def put (g : Graph) (b : Block) : Graph :=
  if (g.block? b.label).isSome then
    { g with blocks := g.blocks.map fun c => if c.label == b.label then b else c }
  else { g with blocks := g.blocks ++ [b] }

/-! ## Building a graph -/

/-- The targets of the instructions that end blocks. -/
def leaders (run : List Placed) : List Int :=
  run.flatMap fun p => if p.flow.breaksBlock then p.flow.targets else []

/-- Puts an instruction in front of the blocks of those behind it: a block of its own, if it ends a
block or a target follows, and the start of the first of those blocks otherwise. -/
def prepend (isLeader : Int → Bool) (p : Placed) (blocks : List (List Placed)) :
    List (List Placed) :=
  match blocks with
  | (next :: others) :: rest =>
    if p.flow.breaksBlock || isLeader next.address then [p] :: (next :: others) :: rest
    else (p :: next :: others) :: rest
  | _ => [p] :: blocks

/-- The instructions of a run, cut into blocks. -/
def cut (run : List Placed) : List (List Placed) :=
  let targets := Std.TreeSet.ofList (leaders run)
  run.foldr (prepend targets.contains) []

/-- Putting an instruction in front of the blocks puts it in front of all their instructions. -/
theorem flatten_prepend (isLeader : Int → Bool) (p : Placed) (blocks : List (List Placed)) :
    (prepend isLeader p blocks).flatten = p :: blocks.flatten := by
  unfold prepend
  split
  · split <;> simp
  · simp

/-- The blocks of a run have its instructions in order. -/
theorem flatten_foldr_prepend (isLeader : Int → Bool) (run : List Placed) :
    (run.foldr (prepend isLeader) []).flatten = run := by
  induction run with
  | nil => rfl
  | cons p rest ih => rw [List.foldr_cons, flatten_prepend, ih]

/-- Cutting loses no instruction and keeps their order. -/
theorem flatten_cut (run : List Placed) : (cut run).flatten = run :=
  flatten_foldr_prepend _ run

/-- Putting an instruction in front of blocks makes no block empty. -/
theorem nil_notMem_prepend (isLeader : Int → Bool) (p : Placed) {blocks : List (List Placed)}
    (h : [] ∉ blocks) : [] ∉ prepend isLeader p blocks := by
  unfold prepend
  split
  · split <;> simp_all
  · simpa using h

/-- No block of a run is empty. -/
theorem nil_notMem_foldr_prepend (isLeader : Int → Bool) (run : List Placed) :
    [] ∉ run.foldr (prepend isLeader) [] := by
  induction run with
  | nil => simp
  | cons p rest ih => exact nil_notMem_prepend isLeader p ih

/-- Every block of a cut has an instruction. -/
theorem nil_notMem_cut (run : List Placed) : [] ∉ cut run :=
  nil_notMem_foldr_prepend _ run

/-- Where control may go after a block, as far as a block starts there. -/
def edges (isStart : Int → Bool) (block : List Placed) : List Int :=
  match block.getLast? with
  | none => []
  | some p => (p.flow.targets.filter isStart).eraseDups

/-- The address of a block. -/
def startOf (block : List Placed) : Int :=
  (block.head?.map (·.address)).getD 0

/-- The blocks of a cut with the edges between them. -/
def join (cut : List (List Placed)) : List Block :=
  let starts := Std.TreeSet.ofList (cut.map startOf)
  let outgoing := cut.map fun block => (startOf block, edges starts.contains block)
  (cut.zip outgoing).map fun (block, start, targets) =>
    { label := blockLabel start
      address := start
      instructions := block.map (·.instruction)
      successors := targets.map blockLabel
      predecessors :=
        (outgoing.filter fun (_, targets) => targets.contains start).map (blockLabel ·.1) }

/-- The graph of a run of instructions, the first of which is at `base`. -/
def build (instructions : List Instruction) (base : Int) : Graph :=
  if instructions.isEmpty then empty
  else ⟨join (cut (Placed.run base instructions)), blockLabel base⟩

/-- The graph of a function. -/
def ofFunction (f : Entry FunctionDef) : Graph :=
  build f.record.code.instructions f.mapping.start

end Graph

end MoveBytecode
