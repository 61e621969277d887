import RomanLang.Command
import RomanLang.Cursor
import RomanLang.Main
import RomanLang.Tree.Forest
import RomanLang.Proofs.SourceOrder
import RomanLang.Proofs.Blocks
import RomanLang.Proofs.Productions.Statement
import RomanLang.Proofs.ValueForm
import RomanLang.Proofs.ValueParse
import RomanLang.Proofs.StatementForm
import RomanLang.Proofs.StatementParse
import RomanLang.Proofs.Conservation
import RomanLang.Proofs.Cover
import RomanLang.Proofs.ProgramSound
import RomanLang.Proofs.ProgramComplete
import RomanLang.Proofs.Printing
import RomanLang.Proofs.ConditionalShape
import RomanLang.Proofs.Grammar
import RomanLang.Proofs.Alike
import RomanLang.Proofs.Productions.Equations
import RomanLang.Proofs.Productions.Agreement
import RomanLang.Proofs.Respelling
import RomanLang.Proofs.Composition
import RomanLang.Proofs.Gaps
import RomanLang.Proofs.Spans
import RomanLang.Proofs.Separation
import RomanLang.Proofs.Productions.Faults
import RomanLang.Proofs.FaultPlace
import RomanLang.Proofs.NestingLimit
import RomanLang.Proofs.TreeDepth
import RomanLang.Proofs.TreeForm
import RomanLang.Proofs.Locations
import RomanLang.Proofs.Indexed.Productions
import RomanLang.Proofs.Indexed.Windows
import RomanLang.Proofs.Indexed.InRange
import RomanLang.Proofs.FaultLocation
import RomanLang.Proofs.Session.Division
import RomanLang.Proofs.Destination
import RomanLang.Proofs.OutlineReading
import RomanLang.Proofs.Relocation
import RomanLang.Proofs.Session.Submission
import RomanLang.Proofs.Pairing
import RomanLang.Proofs.WindowUse
import RomanLang.Proofs.Session.Readiness
import RomanLang.Proofs.RunBalance
import RomanLang.Proofs.LineBreak
import RomanLang.Proofs.CursorRuns
import RomanLang.Proofs.Listing
import RomanLang.Proofs.EntryChecks
import RomanLang.Proofs.NumeralValue
import RomanLang.Proofs.Annotation
import RomanLang.Proofs.BlockIndex
import RomanLang.Proofs.BracketMatch
import RomanLang.Proofs.BracketWords
