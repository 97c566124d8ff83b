import MoveBytecode.Flow.Graph

/-!
# Flowcharts

A control flow graph in the notation of Mermaid flowcharts: a node for each block with its
instructions, a line for each edge, and a colour for the entry. The two edges of a conditional
branch are marked by the truth value that takes them.
-/

namespace MoveBytecode.Mermaid

/-- How many lines a node has at most. -/
def maxLines : Nat := 20

/-- A character of a node's text; those with a meaning in the notation are spelt out. -/
def escapeChar : Char → List Char
  | '"' => "#quot;".toList
  | '<' => "#lt;".toList
  | '>' => "#gt;".toList
  | c => [c]

/-- The text of a node. -/
def escape (text : String) : String :=
  String.ofList (text.toList.flatMap escapeChar)

/-- The lines of a node; of too many, the first ones and the last are kept. -/
def collapse (lines : List String) : List String :=
  if lines.length ≤ maxLines then lines
  else
    let kept := maxLines - 2
    lines.take kept ++
      [s!"... ({lines.length - kept - 1} more)"] ++ lines.getLast?.toList

/-- The brackets of a node: round for the entry and for returns, curly for conditional branches,
square for all others. -/
def brackets (b : Block) (isEntry : Bool) : String × String :=
  if isEntry || b.last?.any (·.opcode == .ret) then ("([\"", "\"])")
  else if b.last?.any (·.opcode.isConditionalBranch) then ("\x7b\"", "\"\x7d")
  else ("[\"", "\"]")

/-- The line of a node. -/
def node (b : Block) (isEntry : Bool) : String :=
  let lines := collapse (b.instructions.map fun i => escape i.text)
  let body := if lines.isEmpty then "(empty)" else String.intercalate "<br/>" lines
  let (opening, closing) := brackets b isEntry
  "    " ++ b.label ++ opening ++ "<b>" ++ b.label ++ "</b><br/>" ++ body ++ closing

/-- The line of an edge with a mark. -/
def markedEdge (source mark target : String) : String :=
  "    " ++ source ++ " -->|\"" ++ mark ++ "\"| " ++ target

/-- The line of an edge. -/
def plainEdge (source target : String) : String :=
  "    " ++ source ++ " --> " ++ target

/-- The lines of the edges of a block. A conditional branch with two successors has the one taken on
truth first: its target is its second successor, and `BR_FALSE` goes there on falsehood. -/
def edges (b : Block) : List String :=
  match b.last?, b.successors with
  | some last, [next, target] =>
    if last.opcode == .brTrue then
      [markedEdge b.label "T" target, markedEdge b.label "F" next]
    else if last.opcode == .brFalse then
      [markedEdge b.label "T" next, markedEdge b.label "F" target]
    else b.successors.map (plainEdge b.label)
  | _, _ => b.successors.map (plainEdge b.label)

/-- The line that colours the entry. -/
def style (entry : String) : List String :=
  if entry.isEmpty then [] else ["    style " ++ entry ++ " fill:#28a745,color:#fff"]

/-- A control flow graph as a flowchart. -/
def render (g : Graph) : String :=
  String.intercalate "\n"
    ("flowchart TD" :: (g.blocks.map fun b => node b (b.label == g.entry)) ++
      (g.blocks.flatMap edges ++ style g.entry))

end MoveBytecode.Mermaid
