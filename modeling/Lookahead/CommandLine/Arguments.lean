/-!
The arguments of the command line. A configuration file may be named anywhere;
what is left decides the command and its options, which may come in any order.
-/
namespace Lookahead.CommandLine

structure ParseOptions where
  path : String
  microHaskell : Bool := false
  table : Option String := none
  json : Bool := false
  indented : Bool := false
deriving DecidableEq, Repr

inductive Command where
  | help
  | version
  | lex (microHaskell : Bool)
  | parse (options : ParseOptions)
deriving DecidableEq, Repr

structure Invocation where
  command : Command
  /-- The configuration file. -/
  config : Option String
deriving DecidableEq, Repr

inductive UsageError where
  | missingConfigPath
  | missingTablePath
  | missingInput
  | unknownCommand (name : String)
  | unknownLexOption (option : String)
  | unknownParseOption (option : String)
  | unexpectedArgument (argument : String)
deriving DecidableEq, Repr

namespace UsageError

def message : UsageError → String
  | .missingConfigPath => "--config requires a file path"
  | .missingTablePath => "--table requires a file path"
  | .missingInput => "parse requires an input file"
  | .unknownCommand name => s!"Unknown command '{name}'"
  | .unknownLexOption option => s!"Unknown lex option '{option}'"
  | .unknownParseOption option => s!"Unknown parse option '{option}'"
  | .unexpectedArgument argument => s!"Unexpected argument '{argument}'"

end UsageError

/-- Takes the configuration files out of the arguments; the last one counts. -/
def extractConfig : List String → Except UsageError (Option String × List String)
  | [] => .ok (none, [])
  | argument :: rest =>
      if argument = "--config" then
        match rest with
        | [] => .error .missingConfigPath
        | path :: rest =>
            match extractConfig rest with
            | .error e => .error e
            | .ok (config, others) => .ok (some (config.getD path), others)
      else
        match extractConfig rest with
        | .error e => .error e
        | .ok (config, others) => .ok (config, argument :: others)

def isLongOption (argument : String) : Bool := ['-', '-'].isPrefixOf argument.toList

def lexOptions (microHaskell : Bool) : List String → Except UsageError Command
  | [] => .ok (.lex microHaskell)
  | option :: rest =>
      if option = "--mh" then lexOptions true rest else .error (.unknownLexOption option)

/-- The options of a parse that have been read so far. -/
structure ParseDraft where
  path : Option String := none
  microHaskell : Bool := false
  table : Option String := none
  json : Bool := false
  indented : Bool := false

def parseOptions (d : ParseDraft) : List String → Except UsageError Command
  | [] =>
      match d.path with
      | none => .error .missingInput
      | some path => .ok (.parse ⟨path, d.microHaskell, d.table, d.json, d.indented⟩)
  | argument :: rest =>
      if argument = "--mh" then parseOptions { d with microHaskell := true } rest
      else if argument = "--json" then parseOptions { d with json := true } rest
      else if argument = "--tree" then parseOptions { d with indented := true } rest
      else if argument = "--table" then
        match rest with
        | [] => .error .missingTablePath
        | table :: rest => parseOptions { d with table := some table } rest
      else if isLongOption argument then .error (.unknownParseOption argument)
      else if d.path.isNone then parseOptions { d with path := some argument } rest
      else .error (.unexpectedArgument argument)

def command : List String → Except UsageError Command
  | [] => .ok .help
  | name :: rest =>
      if name = "--help" ∨ name = "-h" ∨ name = "help" then .ok .help
      else if name = "--version" ∨ name = "version" then .ok .version
      else if name = "lex" then lexOptions false rest
      else if name = "parse" then parseOptions {} rest
      else .error (.unknownCommand name)

def parseArguments (arguments : List String) : Except UsageError Invocation :=
  match extractConfig arguments with
  | .error e => .error e
  | .ok (config, others) =>
      match command others with
      | .error e => .error e
      | .ok command => .ok ⟨command, config⟩

end Lookahead.CommandLine
