import MoveBytecode.Analysis
import MoveBytecode.FileTree
import MoveBytecode.Text.Digit

/-!
# The command line

One file, at most one view of it, the name of a function, and whether to log. Options may be cut
short where only one option begins so; those of one letter may be joined, the last of them to its
value. The whole run is a function of the arguments and of the files there are.
-/

namespace MoveBytecode.CommandLine

/-- The options. -/
inductive Switch where
  | view (v : View)
  | function
  | verbose
  | help
  deriving DecidableEq, Repr

/-- The options by their spellings. -/
def spellings : List (String × Switch) :=
  [("-h", .help), ("--help", .help), ("--tables", .view .tables), ("--disasm", .view .disassembly),
    ("--cfg", .view .graph), ("--mermaid", .view .flowchart), ("--ir", .view .ir),
    ("--source", .view .source), ("--stats", .view .stats), ("--function", .function),
    ("-f", .function), ("--verbose", .verbose), ("-v", .verbose)]

/-- What the arguments ask for. -/
structure Request where
  file : Option String := none
  view : Option View := none
  function : String := ""
  verbose : Bool := false
  deriving DecidableEq, Repr

/-- Why there is no request: the arguments make no sense, or help was asked for. -/
inductive Refusal where
  | usage
  | help
  deriving DecidableEq, Repr

/-- The exit code of a refusal. -/
def Refusal.exit : Refusal → Nat
  | .usage => 2
  | .help => 0

/-! ## Words -/

/-- An argument by its form: an option, spelled with one dash or two, with what is joined to it, an
unknown option, the mark behind which there are no options, or anything else. -/
inductive Word where
  | known (option : Switch) (isLong : Bool) (joined : Option String)
  | unknown
  | mark
  | plain (text : String)
  deriving DecidableEq, Repr

/-- The text before and behind the first equals sign. -/
def splitEquals (text : List Char) : Option (List Char × List Char) :=
  match text.dropWhile (· ≠ '=') with
  | [] => none
  | _ :: behind => some (text.takeWhile (· ≠ '='), behind)

/-- The options that a word may be short for, with what is joined to each. A word with two dashes is
the beginning of an option's spelling; one with one dash is a letter with its value joined. -/
def candidates (word : List Char) : List Word :=
  match word with
  | '-' :: '-' :: _ =>
    let (start, joined) := match splitEquals word with
      | some (start, behind) => (start, some (String.ofList behind))
      | none => (word, none)
    (spellings.filter fun (s, _) => start.isPrefixOf s.toList).map fun (_, o) =>
      .known o true joined
  | dash :: letter :: joined =>
    (spellings.filter fun (s, _) => s.toList = [dash, letter]).map fun (_, o) =>
      .known o false (some (String.ofList joined))
  | _ => []

/-- Whether a word is spelled with two dashes. -/
def startsLong : List Char → Bool
  | '-' :: '-' :: _ => true
  | _ => false

/-- A text without the line break at its end. -/
def chomp (text : List Char) : List Char :=
  if text.getLast? = some '\n' then text.dropLast else text

/-- Whether a text is a number with a minus sign, in the digits of any script; a line break may
follow. -/
def isNegativeNumber (text : List Char) : Bool :=
  match chomp text with
  | '-' :: number =>
    match number.dropWhile Text.isDecimal with
    | [] => !number.isEmpty
    | '.' :: fraction => !fraction.isEmpty && fraction.all Text.isDecimal
    | _ => false
  | _ => false

/-- The form of an argument in front of the mark. -/
def classify (text : String) : Except Refusal Word :=
  let word := text.toList
  match word with
  | '-' :: _ :: _ =>
    match spellings.lookup text with
    | some option => .ok (.known option (startsLong word) none)
    | none =>
      let exact := (splitEquals word).bind fun (name, behind) =>
        (spellings.lookup (String.ofList name)).map fun option =>
          Word.known option (startsLong name) (some (String.ofList behind))
      match exact with
      | some w => .ok w
      | none =>
        match candidates word with
        | [w] => .ok w
        | _ :: _ :: _ => .error .usage
        | [] =>
          if isNegativeNumber word || word.contains ' ' then .ok (.plain text) else .ok .unknown
  | _ => .ok (.plain text)

/-- The forms of the arguments; behind the mark there are no options. -/
def words : List String → Except Refusal (List Word)
  | [] => .ok []
  | "--" :: rest => .ok (.mark :: rest.map .plain)
  | text :: rest => do
    let w ← classify text
    return w :: (← words rest)

/-! ## Requests -/

/-- The options of a word, and the value joined to the last of them. -/
structure Letters where
  options : List Switch
  value : Option String

/-- The options of a word of joined letters, the first of which is given: those in front of the last
take no value, and the last takes what is left. -/
def unjoin (option : Switch) : (joined : List Char) → Except Refusal Letters
  | [] => .ok ⟨[option], none⟩
  | letter :: rest =>
    if option = .function then .ok ⟨[option], some (String.ofList (letter :: rest))⟩
    else
      match spellings.lookup (String.ofList ['-', letter]) with
      | none => .error .usage
      | some next => do
        let letters ← unjoin next rest
        return { letters with options := option :: letters.options }

/-- The options of an option with what is joined to it: a value, or, behind an option of one letter
that takes none, more letters. -/
def optionsOf (option : Switch) (isLong : Bool) : (joined : Option String) → Except Refusal Letters
  | none => .ok ⟨[option], none⟩
  | some text =>
    if option = .function then .ok ⟨[option], some text⟩
    else if isLong || text.isEmpty then .error .usage
    else unjoin option text.toList

/-- The name that a joined value gives; the mark gives none. -/
def nameOf (value : String) : String := if value = "--" then "" else value

/-- The request with one more option; two views exclude each other. -/
def Request.put (r : Request) (option : Switch) (value : String) : Except Refusal Request :=
  match option with
  | .help => .error .help
  | .verbose => .ok { r with verbose := true }
  | .function => .ok { r with function := value }
  | .view v =>
    match r.view with
    | none => .ok { r with view := some v }
    | some w => if v = w then .ok r else .error .usage

/-- What has been read so far, and whether there were arguments that mean nothing. -/
structure Reading where
  request : Request
  surplus : Bool

/-- Reads words one after the other. The first plain word is the file, with a mark beside it. -/
def readWords : List Word → Reading → Except Refusal Reading
  | [], r => .ok r
  | .unknown :: rest, r => readWords rest { r with surplus := true }
  | .mark :: rest, r =>
    match rest, r.request.file with
    | .plain _ :: _, none => readWords rest r
    | _, _ => readWords rest { r with surplus := true }
  | .plain text :: rest, r =>
    match r.request.file with
    | some _ => readWords rest { r with surplus := true }
    | none =>
      let r := { r with request := { r.request with file := some text } }
      match rest with
      | .mark :: behind => readWords behind r
      | rest => readWords rest r
  | .known option isLong joined :: rest, r => do
    let letters ← optionsOf option isLong joined
    let put (value : String) := letters.options.foldlM (fun q o => q.put o value) r.request
    if letters.options.getLast? = some .function && letters.value.isNone then
      match rest with
      | .plain text :: behind => readWords behind { r with request := ← put text }
      | _ => .error .usage
    else readWords rest { r with request := ← put (nameOf (letters.value.getD "")) }

/-- A request whose file is given. -/
structure Complete where
  file : String
  view : View
  function : String
  verbose : Bool
  deriving DecidableEq, Repr

/-- The request that arguments make: a file has to be given, and nothing may be left over. -/
def parse (arguments : List String) : Except Refusal Complete := do
  let r ← readWords (← words arguments) ⟨{}, false⟩
  match r.request.file with
  | none => throw .usage
  | some file =>
    if r.surplus then throw .usage
    return ⟨file, r.request.view.getD .disassembly, r.request.function, r.request.verbose⟩

/-! ## Runs -/

/-- What a run leaves behind. -/
structure Outcome where
  exit : Nat
  output : String
  errors : String
  deriving DecidableEq, Repr

/-- An event as a line: those of a verbose run name the part of the program that reports them. -/
def eventLine (verbose : Bool) (e : Event) : String :=
  if verbose then e.channel ++ ": " ++ e.text else e.text

/-- The lines of events: warnings and errors, and in a verbose run also what goes on. -/
def logLines (verbose : Bool) (events : List Event) : List String :=
  (events.filter (·.reaches (if verbose then .info else .warning))).map (eventLine verbose)

/-- The text of the view that a request asks for, or the fault, and the events. -/
def render (r : Complete) (file : Except Fault Bytes) : Except Fault String × List Event :=
  match file with
  | .error fault => (.error fault, [])
  | .ok data =>
    if Header.identify data then r.view.ofBytes .standard data r.function
    else (.error (.notABinary r.file), Module.headerEvents data)

/-- Whether the command line reports a fault of this class and exits. -/
def reports (k : FaultKind) : Bool :=
  k.isAnalysis || k == .invalidValue || k == .fileSystem

/-- Texts as lines. -/
def unlines (lines : List String) : String :=
  String.join (lines.map (· ++ "\n"))

/-- A run on a request, where `files` are the contents under a path: the text goes to the output, and
a fault to the errors behind the log. A fault of a class that is not reported ends the run. -/
def serve (files : String → Except Fault Bytes) (r : Complete) : Except Fault Outcome :=
  let (result, events) := render r (files r.file)
  let log := logLines r.verbose events
  match result with
  | .ok text => .ok ⟨0, text ++ "\n", unlines log⟩
  | .error fault =>
    if reports fault.kind then .ok ⟨1, "", unlines (log ++ ["error: " ++ fault.message])⟩
    else .error fault

end MoveBytecode.CommandLine
