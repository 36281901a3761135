import SpectrumTape.Text.Lines
import SpectrumTape.Text.Quoted
import SpectrumTape.Number.Reading
import SpectrumTape.Number.FiveByte
import SpectrumTape.Cursor.Session
import SpectrumTape.Basic.Compiler
import SpectrumTape.Basic.Listing
import SpectrumTape.Tape.Reader
import SpectrumTape.Tape.Builder
import SpectrumTape.Journal
import SpectrumTape.Setting
import SpectrumTape.Document.Process
import SpectrumTape.Datum
import SpectrumTape.Main
import SpectrumTape.Proofs.Tape.Format
import SpectrumTape.Proofs.Basic.SecondPass
import SpectrumTape.Proofs.Basic.Reports
import SpectrumTape.Proofs.Basic.Labels
import SpectrumTape.Proofs.Basic.SourceWalk
import SpectrumTape.Proofs.Document.Archive
import SpectrumTape.Proofs.Basic.History
import SpectrumTape.Proofs.Basic.LineBreaks
import SpectrumTape.Proofs.Basic.Lookahead
import SpectrumTape.Proofs.Basic.Inlining
import SpectrumTape.Proofs.Document.Rendering
import SpectrumTape.Proofs.Number.Normalising
import SpectrumTape.Proofs.Tape.Revalidation
import SpectrumTape.Proofs.Text.Folding
import SpectrumTape.Proofs.Vocabulary.Longest
import SpectrumTape.Proofs.Number.Rounding
import SpectrumTape.Proofs.Number.DecimalValue
import SpectrumTape.Proofs.Basic.NumberLiteral
import SpectrumTape.Proofs.Vocabulary.Escapes
import SpectrumTape.Proofs.Basic.StringLiteral
import SpectrumTape.Proofs.Tape.Damage
import SpectrumTape.Proofs.Basic.Remark
import SpectrumTape.Proofs.Basic.LineSize
import SpectrumTape.Proofs.Basic.Shadows
import SpectrumTape.Proofs.Tape.Truncation
import SpectrumTape.Proofs.Number.Reencoding
import SpectrumTape.Proofs.Basic.ListingFrames
import SpectrumTape.Proofs.Document.Autostart
import SpectrumTape.Proofs.Basic.Merging
import SpectrumTape.Proofs.Document.LabelledStart
import SpectrumTape.Proofs.Document.Accounts
import SpectrumTape.Proofs.Document.Stopping
import SpectrumTape.Proofs.Cursor.LineVisits
import SpectrumTape.Proofs.Document.Positions
import SpectrumTape.Proofs.Command.Execution
