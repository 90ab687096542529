import Concordance.CommandLine.Arguments
import Concordance.CommandLine.Files
import Concordance.Config.File
import Concordance.Engine.Storage
import Concordance.Json.Value

/-!
# Commands

There are three commands. `build` indexes a text file, each line as a document, and
stores the snapshot; `search` answers a query from a snapshot; `info` describes a
snapshot. Arguments that make no request end with status 2, a command that fails
with status 1, and one that ends in a fault with status 101. A command that runs out of
memory is stopped and has no status.

## Implementation notes

A command runs over the operations of `Files`, in any monad that has them.
-/

namespace Concordance.CommandLine

inductive Command where
  | build (input output : String) (config? : Option String) (skipSpan? : Option UInt64)
  | search (snapshot : String) (terms : List String) (count? : Option UInt64)
      (isPhrase snippets : Bool)
  | info (snapshot : String)
  deriving DecidableEq, Repr

/-- What some arguments ask for. -/
inductive Request where
  | command (command : Command)
  | help
  | version
  deriving DecidableEq, Repr

namespace Request

def configFlag : Flag := ⟨"config", some 'c', .path⟩
def skipSpanFlag : Flag := ⟨"skip-span", none, .number⟩
def countFlag : Flag := ⟨"n-results", some 'n', .number⟩
def phraseFlag : Flag := ⟨"phrase", none, .nothing⟩
def snippetsFlag : Flag := ⟨"snippets", none, .nothing⟩

/-- The command that sorted arguments make, or the help they ask for. -/
def ofArguments? (arguments : Arguments) (command? : Option Command) : Option Request :=
  if arguments.has .help then some help else command?.map command

def parseBuild? (arguments : List String) : Option Request := do
  let arguments ← Arguments.scan ⟨[configFlag, skipSpanFlag], [.path, .path], none⟩ arguments
  ofArguments? arguments <|
    match arguments.positional with
    | [input, output] =>
      some (.build input output (arguments.value? configFlag) (arguments.number? skipSpanFlag))
    | _ => none

def parseSearch? (arguments : List String) : Option Request := do
  let arguments ←
    Arguments.scan ⟨[countFlag, phraseFlag, snippetsFlag], [.path], some .text⟩ arguments
  ofArguments? arguments <|
    match arguments.positional with
    | snapshot :: term :: terms =>
      some (.search snapshot (term :: terms) (arguments.number? countFlag)
        (arguments.has phraseFlag) (arguments.has snippetsFlag))
    | _ => none

def parseInfo? (arguments : List String) : Option Request := do
  let arguments ← Arguments.scan ⟨[], [.path], none⟩ arguments
  ofArguments? arguments <|
    match arguments.positional with
    | [snapshot] => some (.info snapshot)
    | _ => none

/-- The names of the commands, and of the one that explains them. -/
def commandNames : List String := ["build", "search", "info", "help"]

/-- What some arguments ask for; none if they make no request. -/
def parse? : List String → Option Request
  | "build" :: arguments => parseBuild? arguments
  | "search" :: arguments => parseSearch? arguments
  | "info" :: arguments => parseInfo? arguments
  | ["help"] => some help
  | ["help", name] => if name ∈ commandNames then some help else none
  | text :: _ =>
    match Shape.ofText text with
    | .long "help" none => some help
    | .short 'h' _ => some help
    | .long "version" none => some version
    | .short 'V' _ => some version
    | _ => none
  | [] => none

end Request

/-- How to ask for a command. -/
def usage : String :=
  "build <input> <output> [--config <file>] [--skip-span <number>]\n"
    ++ "search <snapshot> <term>... [--n-results <number>] [--phrase] [--snippets]\n"
    ++ "info <snapshot>"

/-- Why a command failed. -/
def complaint : SearchError → String
  | .serialization => "The content is not what the command reads."
  | .io => "A file cannot be read or written, or is no text."
  | .fault .outOfMemory => "The memory is used up."
  | error => error.message?.getD "A value is out of its range."

/-- The status of a command that failed; none if it was stopped. -/
def failureStatus? : SearchError → Option UInt32
  | .fault .outOfMemory => none
  | .fault _ => some 101
  | _ => some 1

/-- How a request ended: the status unless it was stopped, the values it prints, the text it
prints for its reader in their place, and the complaint it makes apart from what it prints. -/
structure Outcome where
  status? : Option UInt32
  printed : List Json.Value
  text? : Option String
  complaint? : Option String

namespace Outcome

/-- A command that printed these values. -/
def values (printed : List Json.Value) : Outcome := ⟨some 0, printed, none, none⟩

/-- A request for a text. -/
def text (text : String) : Outcome := ⟨some 0, [], some text, none⟩

/-- A request that failed. -/
def failure (status? : Option UInt32) (complaint : String) : Outcome :=
  ⟨status?, [], none, some complaint⟩

end Outcome

/-- The lines of a file, where `line` holds the bytes of the first one so far, the last one
first. A line ends at a line feed, and a carriage return before that belongs to the end. -/
def linesFrom (line : List UInt8) : List UInt8 → List (List UInt8)
  | [] => if line.isEmpty then [] else [line.reverse]
  | 0x0a :: rest =>
    let ended :=
      match line with
      | 0x0d :: start => start
      | start => start
    ended.reverse :: linesFrom [] rest
  | byte :: rest => linesFrom (byte :: line) rest

/-- The texts of the lines of a file. -/
def documents (bytes : Bytes) : Except SearchError (List String) :=
  (linesFrom [] bytes.toList).mapM fun line =>
    match String.fromUTF8? ⟨line.toArray⟩ with
    | some text => .ok text
    | none => .error .io

/-- The engine with texts as further documents. -/
def addDocuments (engine : Engine) (texts : List String) : Except SearchError Engine :=
  let (result, engine) := engine.addTexts texts
  result.map fun _ => engine

/-- An answer as a value to print. -/
def answerValue (answers : List Answer) : Json.Value :=
  let span (span : Span) : Json.Value :=
    .array [.natural span.start.toNat, .natural span.stop.toNat]
  .object [("entries", .array (answers.map fun answer => .object [
    ("doc_id", .natural answer.docId.toNat),
    ("score", .number answer.score),
    ("highlights", .array (answer.highlights.map fun row => .array (row.map span)))]))]

/-- What an engine tells of itself as a value to print, without its cache. -/
def statsValue (stats : EngineStats) : Json.Value :=
  .object [
    ("documents", .natural stats.documents),
    ("terms", .natural stats.terms),
    ("avg_doc_length", .number stats.averageLength),
    ("posting_bytes", .natural stats.postingBytes),
    ("documents_indexed", .natural stats.documentsIndexed),
    ("queries_served", .natural stats.queriesServed),
    ("empty_results", .natural stats.emptyResults)]

section Run
variable {m : Type → Type} [Monad m] (room : Cache.Room)

/-- A result in a computation over files. -/
def ofResult {α : Type} (result : Except SearchError α) : ExceptT SearchError m α :=
  ExceptT.mk (pure result)

def readFile (files : Files m) (path : String) : ExceptT SearchError m Bytes := do
  match ← files.read path with
  | some bytes => return bytes
  | none => throw .io

/-- Writes a file under a passing name first, so that at any time its name leads to the old
content or to the new. -/
def writeFile (files : Files m) (path : String) (bytes : Bytes) : ExceptT SearchError m Unit := do
  let passing := Path.withExtension path "tmp"
  unless ← files.write passing bytes do throw .io
  unless ← files.rename passing path do throw .io

def loadEngine (files : Files m) (path : String) : ExceptT SearchError m Engine := do
  ofResult (Engine.load room (← readFile files path))

/-- Runs a command and gives the values it prints. -/
def Command.run (files : Files m) : Command → ExceptT SearchError m (List Json.Value)
  | build input output config? skipSpan? => do
    let config ←
      match config? with
      | none => pure Config.default
      | some path => do ofResult (Config.ofFile (← readFile files path))
    let config :=
      match skipSpan? with
      | none => config
      | some span => config.withSkipSpan span
    let engine ← ofResult (Engine.new room config)
    let texts ← ofResult (documents (← readFile files input))
    let engine ← ofResult (addDocuments engine texts)
    let bytes ← ofResult (engine.save.mapError .fault)
    writeFile files output bytes
    return []
  | search snapshot terms count? isPhrase snippets => do
    let engine ← loadEngine room files snapshot
    let count := count?.getD engine.config.defaultResults
    let answers ← ofResult (engine.search ⟨terms, count.toNat, isPhrase, snippets⟩).1
    return [answerValue answers]
  | info snapshot => do
    let engine ← loadEngine room files snapshot
    return [statsValue engine.stats, engine.config.toJson]

/-- Does what some arguments ask for. -/
def run (files : Files m) (arguments : List String) : m Outcome :=
  match Request.parse? arguments with
  | none => return .failure (some 2) usage
  | some .help => return .text usage
  | some .version => return .text s!"snapshot version {Snapshot.version}"
  | some (.command command) => do
    match ← (command.run room files).run with
    | .ok printed => return .values printed
    | .error error => return .failure (failureStatus? error) (complaint error)

end Run

end Concordance.CommandLine
