import Lookahead.CommandLine.Run
import Std.Time.DateTime.Timestamp

/-!
The executable: reads what the program depends on, and prints what it answers.
-/
namespace Lookahead.CommandLine

def variableNames : List String :=
  [ "LL1_INPUT_REWIND_WINDOW", "LL1_LEXICAL_CLASS_METRICS", "LL1_LEXICAL_LOG_TOKENS",
    "LL1_LEXICAL_MAX_TOKEN_LENGTH", "LL1_SYNTAX_LOG_EXPANSIONS", "LL1_SYNTAX_WARN_TRAILING",
    "LL1_LOGGING_USE_STRUCTURED", "LL1_LOGGING_ENABLE_CONSOLE", "LL1_LOGGING_MIN_LEVEL" ]

def readEnvironment : IO Environment := do
  let mut pairs := []
  for name in variableNames do
    match ← IO.getEnv name with
    | some value => pairs := (name, value) :: pairs
    | none => pure ()
  let found := pairs
  return ⟨fun name => found.lookup name⟩

/-- Whether a path is a name of the standard input. -/
def namesInput (path : String) : Bool :=
  match FileSystem.fresh.find path with
  | .ok .standardInput => true
  | _ => false

/-- Looks at the file that a path leads to. -/
def readEntry (path : String) : IO (Except FileError FileEntry) := do
  if namesInput path then return .ok .standardInput
  try
    return .ok (.file (← IO.FS.readBinFile path).toList)
  catch
    | .inappropriateType _ code _ =>
        return if code == 21 then .ok .directory else .error .notADirectory
    | .permissionDenied _ _ _ => return .error .permissionDenied
    | _ => return .error .notFound

/-- Every file that an argument could mean. The standard input is read here only if
an argument names it. -/
def readFiles (arguments : List String) : IO Files := do
  let mut entries := []
  let mut input := []
  for path in arguments do
    entries := (path, ← readEntry path) :: entries
  if arguments.any namesInput then
    input := (← IO.FS.readBinFile "/dev/stdin").toList
  let found := entries
  return ⟨fun path => (found.lookup path).getD (.error .notFound), input⟩

/-- Prompts for lines and lists their tokens until the input ends. -/
partial def interact (acceptors : List Acceptor) (preferences : LexicalPreferences) :
    IO UInt32 := do
  let stdout ← IO.getStdout
  stdout.putStr prompt
  stdout.flush
  let line ← (← IO.getStdin).getLine
  if line.isEmpty then
    stdout.putStr "\n"
    return 0
  else
    stdout.putStr (listLine acceptors preferences line.toList)
    interact acceptors preferences

def now : IO Log.Timestamp := do
  let nanos := (← Std.Time.Timestamp.now).toNanosecondsSinceUnixEpoch.val
  return ⟨nanos / 1000000000, (nanos % 1000000000).toNat⟩

/-- Runs a command that is not interactive. -/
def report (world : World) : IO UInt32 := do
  let started ← IO.monoNanosNow
  match examine world with
  | none => return 1
  | some finding =>
      let finished ← IO.monoNanosNow
      let clock : Clock := ⟨← now, ⟨(finished - started) / 10000⟩⟩
      let output := finding.output world clock
      (← IO.getStderr).putStr output.stderr
      (← IO.getStdout).putStr output.stdout
      return output.exit.toUInt32

def runMain (arguments : List String) : IO UInt32 := do
  let environment ← readEnvironment
  let files ← readFiles arguments
  let world : World := { arguments := arguments, environment := environment, files := files }
  match parseArguments arguments with
  | .ok ⟨.lex microHaskell, config⟩ =>
      match loadConfig world config with
      | .ok _ =>
          interact (selectAcceptors microHaskell) (Config.ofEnvironment environment).lexical
      | .error _ => report world
  | _ => report world

end Lookahead.CommandLine

def main (arguments : List String) : IO UInt32 :=
  Lookahead.CommandLine.runMain arguments
