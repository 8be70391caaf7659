import Lookahead.Build
import Lookahead.CommandLine.Arguments
import Lookahead.CommandLine.Repl
import Lookahead.Excerpt
import Lookahead.Grammar.TableFile
import Lookahead.Pipeline

/-!
The program as a function. `examine` carries out what the arguments ask for, and
`Finding.output` says what is printed about it; only the latter needs to know the
time.
-/
namespace Lookahead.CommandLine

open Log (Desk Setup Timestamp)

/-- What a program run can see of the outside. -/
structure World where
  program : String := "ll1"
  arguments : List String
  environment : Environment := {}
  files : Files

/-- The world after a file has been read, if one was. -/
def World.afterReading (w : World) : Option String → World
  | none => w
  | some path => { w with files := w.files.afterReading path }

structure Clock where
  now : Timestamp
  elapsed : Elapsed

structure Output where
  exit : Nat
  stdout : String
  stderr : String

inductive Format where
  | bracketed
  | indented
  | json
deriving DecidableEq, Repr

def ParseOptions.format (o : ParseOptions) : Format :=
  if o.json then .json else if o.indented then .indented else .bracketed

/-- What a run came to. -/
inductive Finding where
  | misused (error : UsageError)
  | misconfigured (error : ConfigError)
  | help (config : Config)
  | version (config : Config)
  | listed (stdout : String) (failure : Option FileError)
  | tableUnreadable (config : Config) (error : FileError)
  | tableFlawed (config : Config) (flaw : Json.Flaw)
  | parsed (config : Config) (options : ParseOptions) (run : Run ParseResult)

/-- The number of parser steps after which a run is given up. It would take an
array of more nodes than there are addresses to get there. -/
def stepLimit : Nat := wordLimit

/-- The grammar of a run; a table that cannot be had ends the run. -/
def loadGrammar (files : Files) (config : Config) : Option String → Except Finding Grammar
  | none => .ok Demo.grammar
  | some path =>
      match files.readText path with
      | .error e => .error (.tableUnreadable config e)
      | .ok text =>
          match ParseTable.ofJson text with
          | .error flaw => .error (.tableFlawed config flaw)
          | .ok table => .ok table.grammar

/-- Carries out a command. The interactive lexer has the preferences of the
environment, whatever the configuration says. -/
def carryOut (w : World) (config : Config) : Command → Option Finding
  | .help => some (.help config)
  | .version => some (.version config)
  | .lex microHaskell =>
      let preferences := (Config.ofEnvironment w.environment).lexical
      let (stdout, failure) := repl (selectAcceptors microHaskell) preferences w.files.input
      some (.listed stdout failure)
  | .parse options =>
      match loadGrammar w.files config options.table with
      | .error finding => some finding
      | .ok grammar =>
          let files := (w.afterReading options.table).files
          match parseFile? stepLimit files options.path (selectAcceptors options.microHaskell)
              grammar config with
          | none => none
          | some run => some (.parsed config options run)

def loadConfig (w : World) : Option String → Except ConfigError Config
  | none => (Config.ofEnvironment w.environment).validate
  | some path => Config.ofFile w.environment w.files path

def examine (w : World) : Option Finding :=
  match parseArguments w.arguments with
  | .error e => some (.misused e)
  | .ok invocation =>
      match loadConfig w invocation.config with
      | .error e => some (.misconfigured e)
      | .ok config => carryOut (w.afterReading invocation.config) config invocation.command

def helpText (program : String) : String :=
  String.intercalate "\n" [
    Build.title,
    "Maximal-munch lexer and table-driven LL(1) parser",
    "",
    "USAGE:",
    s!"    {program} lex [--mh]                   # Interactive lexer on stdin",
    s!"    {program} parse <file> [options]       # Parse a file and print its tree",
    "",
    "LEX OPTIONS:",
    "    --mh                Use the Micro-Haskell lexer instead of the demo lexer",
    "",
    "PARSE OPTIONS:",
    "    --mh                Lex the file with the Micro-Haskell lexer",
    "    --table <file>      Load the parse table from JSON (default: #S -> ε | EVEN #S && #S)",
    "    --tree              Print the tree one node per line",
    "    --json              Print the tree and run summary as JSON",
    "",
    "GLOBAL OPTIONS:",
    "    --config <file>     Load runtime preferences from TOML",
    "    --version           Show version and build configuration",
    "    --help              Show this help message",
    "",
    "EXAMPLES:",
    "    echo 'ab cd && &&' > input.txt",
    s!"    {program} parse input.txt",
    s!"    {program} parse prog.mh --mh --table mh_table.json --tree",
    ""]

def versionText (config : Config) : String :=
  String.intercalate "\n" [Build.title, Build.sourceInfo, config.logging.summary, ""]

def resultText (r : ParseResult) : Format → String
  | .json => r.toJson.pretty ++ "\n"
  | .indented => r.tree.renderIndented
  | .bracketed => r.tree.render ++ "\n"

/-- The excerpt of the input that an error is about, if it can be had. By then the
input has been read once. -/
def excerptText (files : Files) (path : String) (e : PipelineError) : String :=
  match e.span?, (files.afterReading path).readText path with
  | some span, .ok text =>
      match (SourceLines.ofText text).excerpt span e.message with
      | .ok excerpt => excerpt
      | .error _ => ""
  | _, _ => ""

def failureText (files : Files) (path : String) (e : PipelineError) : String :=
  s!"\nFAILED: {e.message}\n" ++ excerptText files path e ++
    s!"  [{e.code.text}] {e.code.category} ({e.code.severity.name})\n"

/-- What the log shows of the given activities after it was opened. -/
def logText (config : Config) (clock : Clock) (activities : List Log.Activity) : String :=
  let desk := Desk.performAll {} (.emit Setup.opening :: activities)
  config.logging.lines clock.now desk.dispatched.reverse

namespace Finding

def output (w : World) (clock : Clock) : Finding → Output
  | .misused e =>
      ⟨2, "", s!"Error: {e.message}\n" ++
        s!"Usage: {w.program} lex [--mh] | parse <file> [options] | --help\n"⟩
  | .misconfigured e => ⟨2, "", s!"Error: {e.message}\n  [{e.code.text}]\n"⟩
  | .help config => ⟨0, helpText w.program, logText config clock []⟩
  | .version config => ⟨0, versionText config, logText config clock []⟩
  | .listed stdout none => ⟨0, stdout, ""⟩
  | .listed stdout (some e) => ⟨1, stdout, s!"Error: {e.describe}\n"⟩
  | .tableUnreadable config e => ⟨1, "", logText config clock [] ++ s!"Error: {e.describe}\n"⟩
  | .tableFlawed config flaw =>
      ⟨1, "", logText config clock [] ++ s!"Error: Error(\"{flaw.description}\")\n"⟩
  | .parsed config options run =>
      let log := logText config clock [run.activity (·.completion clock.elapsed)]
      match run.result with
      | .ok result => ⟨0, resultText result options.format, log⟩
      | .error e => ⟨1, "", log ++ failureText w.files options.path e⟩

end Finding

end Lookahead.CommandLine
