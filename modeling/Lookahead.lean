import Lookahead.Main
import Lookahead.Proofs.Acceptance
import Lookahead.Proofs.LazyParsing
import Lookahead.Proofs.LongestMatch
import Lookahead.Proofs.ParserStack
import Lookahead.Proofs.StreamLexing
import Lookahead.Proofs.Tiling
import Lookahead.Proofs.StreamCursor
import Lookahead.Proofs.TreeReading
import Lookahead.Proofs.AcceptorLanguages
import Lookahead.Proofs.DemoBalance
import Lookahead.Proofs.MicroHaskellWords
import Lookahead.Proofs.Lexeme
import Lookahead.Proofs.MicroHaskellLexer
import Lookahead.Proofs.Overreading
import Lookahead.Proofs.StreamSimulation
import Lookahead.Proofs.FilePipeline
import Lookahead.Proofs.SortedEntries
import Lookahead.Proofs.TableRules
import Lookahead.Proofs.JsonReading
import Lookahead.Proofs.TableDocument
import Lookahead.Proofs.EntryPoints
import Lookahead.Proofs.Accounting
import Lookahead.Proofs.RunReport
import Lookahead.Proofs.LengthLimit
import Lookahead.Proofs.ParserTermination
import Lookahead.Proofs.SourceLaws
import Lookahead.Proofs.SourceMaps
import Lookahead.Proofs.ScanDiscipline
import Lookahead.Proofs.FreshStart
import Lookahead.Proofs.Relexing
import Lookahead.Proofs.Decoding
import Lookahead.Proofs.FailedOperations
import Lookahead.Proofs.Traversal
import Lookahead.Proofs.Excerpts
import Lookahead.Proofs.Sessions
import Lookahead.Proofs.OptionOrder
import Lookahead.Proofs.AutomatonRuns
