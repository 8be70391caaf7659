/-!
Codes of log events and errors. A code is a short text; those that the library
gives out are registered with a category, a severity, what the session may do
after them, and what a user can do about them. A code that is not registered is
of medium severity, recoverable and of unknown category.
-/
namespace Lookahead.Log

inductive Severity where
  | critical
  | high
  | medium
  | low
deriving DecidableEq, Repr

namespace Severity

def rank : Severity → Nat
  | .critical => 0
  | .high => 1
  | .medium => 2
  | .low => 3

def name : Severity → String
  | .critical => "Critical"
  | .high => "High"
  | .medium => "Medium"
  | .low => "Low"

end Severity

structure Code where
  text : String
deriving DecidableEq, Repr

structure Classification where
  code : Code
  category : String
  severity : Severity
  recoverable : Bool
  requiresHalt : Bool
  description : String
  action : String

namespace Code

def configurationError : Code := ⟨"ERR003"⟩
def fileNotFound : Code := ⟨"E005"⟩
def ioError : Code := ⟨"E006"⟩
def invalidEncoding : Code := ⟨"E007"⟩
def rewindWindowExceeded : Code := ⟨"E008"⟩
def noActiveMark : Code := ⟨"E009"⟩
def unrecognizedInput : Code := ⟨"E020"⟩
def tokenTooLong : Code := ⟨"E021"⟩
def illegalState : Code := ⟨"E022"⟩
def unexpectedInput : Code := ⟨"E040"⟩
def unexpectedEndOfInput : Code := ⟨"E041"⟩
def trailingInput : Code := ⟨"W040"⟩
def treeExportFailure : Code := ⟨"E061"⟩
def loggingInitialized : Code := ⟨"I004"⟩
def sourceOpened : Code := ⟨"I006"⟩
def tokenizationComplete : Code := ⟨"I020"⟩
def parseSuccessful : Code := ⟨"I040"⟩
def pipelineComplete : Code := ⟨"I060"⟩
def plainWarning : Code := ⟨"W000"⟩
def plainInfo : Code := ⟨"I000"⟩
def plainDebug : Code := ⟨"D000"⟩

def registry : List Classification :=
  [ ⟨configurationError, "System", .high, false, true,
      "Runtime configuration could not be loaded",
      "Fix the configuration file or unset the overriding environment variables"⟩,
    ⟨fileNotFound, "Input", .medium, false, true,
      "Input file not found at specified path",
      "Check the file path and ensure the file exists"⟩,
    ⟨ioError, "Input", .medium, false, true,
      "I/O error while reading characters",
      "Check permissions and that the input is still readable"⟩,
    ⟨invalidEncoding, "Input", .medium, false, true,
      "Input is not valid UTF-8",
      "Convert the input to UTF-8"⟩,
    ⟨rewindWindowExceeded, "Input", .high, false, true,
      "Tokenizer backtracked further than the reader's rewind window",
      "Increase input.rewind_window or shorten the failing lexeme"⟩,
    ⟨noActiveMark, "Input", .critical, false, true,
      "Rewind requested without an active mark",
      "Report tokenizer bug"⟩,
    ⟨unrecognizedInput, "Lexical", .medium, true, false,
      "No acceptor recognizes the input at this position",
      "Fix the offending characters or extend the lexical specification"⟩,
    ⟨tokenTooLong, "Lexical", .medium, false, true,
      "Token exceeds the maximum allowed length",
      "Split the input or raise lexical.max_token_length"⟩,
    ⟨illegalState, "Lexical", .critical, false, true,
      "Acceptor transition returned a state outside its declared range",
      "Fix the transition function of the named acceptor"⟩,
    ⟨unexpectedInput, "Syntax", .medium, true, false,
      "Token does not match what the grammar expects here",
      "Check the token sequence against the grammar"⟩,
    ⟨unexpectedEndOfInput, "Syntax", .medium, true, false,
      "Input ended while the grammar still expected symbols",
      "Complete the input"⟩,
    ⟨trailingInput, "Syntax", .low, true, false,
      "Input remained after the start symbol was fully derived",
      "Remove trailing input or check the grammar's start symbol"⟩,
    ⟨treeExportFailure, "Pipeline", .medium, true, false,
      "Syntax tree could not be exported",
      "Check serializer output and available memory"⟩,
    ⟨loggingInitialized, "System", .low, true, false,
      "Logging system initialized",
      "Continue"⟩,
    ⟨sourceOpened, "Input", .low, true, false,
      "Input source opened",
      "Continue to tokenization"⟩,
    ⟨tokenizationComplete, "Lexical", .low, true, false,
      "Tokenization completed",
      "Continue to parsing"⟩,
    ⟨parseSuccessful, "Syntax", .low, true, false,
      "Parse successful",
      "Consume the syntax tree"⟩,
    ⟨pipelineComplete, "Pipeline", .low, true, false,
      "Pipeline completed",
      "Consume the pipeline result"⟩ ]

def classification? (c : Code) : Option Classification :=
  registry.find? (·.code == c)

def classification (c : Code) : Classification :=
  c.classification?.getD
    ⟨c, "Unknown", .medium, true, false, "Unknown error", "No specific action available"⟩

def category (c : Code) : String := c.classification.category

def severity (c : Code) : Severity := c.classification.severity

def isRecoverable (c : Code) : Bool := c.classification.recoverable

def requiresHalt (c : Code) : Bool := c.classification.requiresHalt

def description (c : Code) : String := c.classification.description

def action (c : Code) : String := c.classification.action

end Code

end Lookahead.Log
