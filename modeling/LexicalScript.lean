import LexicalScript.Attempt
import LexicalScript.CommandLine
import LexicalScript.Decimal
import LexicalScript.Decimal.Layout
import LexicalScript.Diagnostic
import LexicalScript.Journal
import LexicalScript.Machine
import LexicalScript.Machine.Evaluate
import LexicalScript.Machine.Operators
import LexicalScript.Main
import LexicalScript.Parser.Error
import LexicalScript.Parser.Expression
import LexicalScript.Parser.State
import LexicalScript.Parser.Statement
import LexicalScript.Prompt
import LexicalScript.Proofs.Access
import LexicalScript.Proofs.ActiveFrame
import LexicalScript.Proofs.Assignments
import LexicalScript.Proofs.BareFrames
import LexicalScript.Proofs.BareRuns
import LexicalScript.Proofs.BareTrees
import LexicalScript.Proofs.Batches
import LexicalScript.Proofs.ChainAccess
import LexicalScript.Proofs.CountingLoops
import LexicalScript.Proofs.CutOutput
import LexicalScript.Proofs.DeclaredDepths
import LexicalScript.Proofs.Derivations
import LexicalScript.Proofs.DirectLoops
import LexicalScript.Proofs.EncodedLines
import LexicalScript.Proofs.Erasure
import LexicalScript.Proofs.FaithfulPrinting
import LexicalScript.Proofs.Flattening
import LexicalScript.Proofs.FrameHeap
import LexicalScript.Proofs.FrameHistory
import LexicalScript.Proofs.Frames
import LexicalScript.Proofs.Grammar
import LexicalScript.Proofs.GrammarLaws
import LexicalScript.Proofs.JoinedPrograms
import LexicalScript.Proofs.JoinedTexts
import LexicalScript.Proofs.Layouts
import LexicalScript.Proofs.LexicalRuns
import LexicalScript.Proofs.LexicalScoping
import LexicalScript.Proofs.LineNumbers
import LexicalScript.Proofs.Lockstep
import LexicalScript.Proofs.MaximalMunch
import LexicalScript.Proofs.Mirroring
import LexicalScript.Proofs.ObjectIdentity
import LexicalScript.Proofs.Octets
import LexicalScript.Proofs.OpenRules
import LexicalScript.Proofs.OperatorErrors
import LexicalScript.Proofs.Outcome
import LexicalScript.Proofs.PairedStates
import LexicalScript.Proofs.ParallelWalks
import LexicalScript.Proofs.ParsedTrees
import LexicalScript.Proofs.ParserCompleteness
import LexicalScript.Proofs.ParserRules
import LexicalScript.Proofs.ParserRuns
import LexicalScript.Proofs.ParserSoundness
import LexicalScript.Proofs.ParserSteps
import LexicalScript.Proofs.ParserTotality
import LexicalScript.Proofs.Parsing
import LexicalScript.Proofs.Positions
import LexicalScript.Proofs.PrefixForms
import LexicalScript.Proofs.PrintFreeRuns
import LexicalScript.Proofs.PrintedExpressions
import LexicalScript.Proofs.Reachability
import LexicalScript.Proofs.Reading
import LexicalScript.Proofs.RecordedRuns
import LexicalScript.Proofs.Recovery
import LexicalScript.Proofs.Redeclaration
import LexicalScript.Proofs.Reference
import LexicalScript.Proofs.ReferenceValues
import LexicalScript.Proofs.RenumberedRuns
import LexicalScript.Proofs.RenumberedWalks
import LexicalScript.Proofs.Renumbering
import LexicalScript.Proofs.RepeatedParses
import LexicalScript.Proofs.RepeatedWalks
import LexicalScript.Proofs.Resolution
import LexicalScript.Proofs.Retouch
import LexicalScript.Proofs.Returns
import LexicalScript.Proofs.RuleSteps
import LexicalScript.Proofs.RunPoints
import LexicalScript.Proofs.SafeReading
import LexicalScript.Proofs.ScopedRuns
import LexicalScript.Proofs.Scoping
import LexicalScript.Proofs.Sessions
import LexicalScript.Proofs.Shape
import LexicalScript.Proofs.SingleExpressions
import LexicalScript.Proofs.SkippedDeclarations
import LexicalScript.Proofs.StaticErrors
import LexicalScript.Proofs.StoppedWalks
import LexicalScript.Proofs.StrayCharacters
import LexicalScript.Proofs.StringLiterals
import LexicalScript.Proofs.TokenLanguage
import LexicalScript.Proofs.Transcripts
import LexicalScript.Proofs.TrimmedLines
import LexicalScript.Proofs.UnendedStatements
import LexicalScript.Proofs.UnwoundWalks
import LexicalScript.Proofs.ValueEquality
import LexicalScript.Proofs.WalkSteps
import LexicalScript.Scope
import LexicalScript.Session
import LexicalScript.Sink
import LexicalScript.Store
import LexicalScript.Text.Blank
import LexicalScript.Text.Hidden
import LexicalScript.Text.Quoted
import LexicalScript.Text.Utf8
import LexicalScript.Token
import LexicalScript.Token.Scan
import LexicalScript.Tree
import LexicalScript.Tree.Printer
import LexicalScript.Value
