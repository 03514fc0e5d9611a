import EventScript.Assembly
import EventScript.Batch
import EventScript.Catalogue
import EventScript.Command
import EventScript.Command.Arguments
import EventScript.Command.Request
import EventScript.Diagnostic
import EventScript.Digest
import EventScript.Disk
import EventScript.Document.Catalogue
import EventScript.Document.Diagnostic
import EventScript.Document.Label
import EventScript.Document.Options
import EventScript.Document.Script
import EventScript.Fault
import EventScript.Glyph
import EventScript.Image
import EventScript.Json.Access
import EventScript.Json.Double
import EventScript.Json.Reader
import EventScript.Json.Spelling
import EventScript.Json.Value
import EventScript.Label
import EventScript.Likelihood
import EventScript.Listing
import EventScript.Machine.Header
import EventScript.Machine.Mode
import EventScript.Machine.Opcode
import EventScript.Main
import EventScript.Proofs.Accounting
import EventScript.Proofs.Assignment
import EventScript.Proofs.Bounded
import EventScript.Proofs.CatalogueDocuments
import EventScript.Proofs.Checked
import EventScript.Proofs.Classification
import EventScript.Proofs.ClosedListing
import EventScript.Proofs.Codecs
import EventScript.Proofs.CutTexts
import EventScript.Proofs.DataTable
import EventScript.Proofs.Documents
import EventScript.Proofs.Editing
import EventScript.Proofs.EmptyTable
import EventScript.Proofs.Exploration
import EventScript.Proofs.ExtraBranches
import EventScript.Proofs.Fallthrough
import EventScript.Proofs.GameText
import EventScript.Proofs.Grounds
import EventScript.Proofs.IdentifierWidth
import EventScript.Proofs.InRange
import EventScript.Proofs.Independence
import EventScript.Proofs.LabelBalance
import EventScript.Proofs.LabelHistory
import EventScript.Proofs.LabelTable
import EventScript.Proofs.Layout
import EventScript.Proofs.Loading
import EventScript.Proofs.Lookahead
import EventScript.Proofs.Moments
import EventScript.Proofs.Move
import EventScript.Proofs.Overrun
import EventScript.Proofs.Parsing
import EventScript.Proofs.Placement
import EventScript.Proofs.Positional
import EventScript.Proofs.Reading
import EventScript.Proofs.Records
import EventScript.Proofs.Redecoding
import EventScript.Proofs.Relabelling
import EventScript.Proofs.Results
import EventScript.Proofs.Roles
import EventScript.Proofs.RoundTrip
import EventScript.Proofs.Safety
import EventScript.Proofs.Spelling
import EventScript.Proofs.Successor
import EventScript.Proofs.TerminatorSearch
import EventScript.Proofs.TextRecovery
import EventScript.Proofs.TextRequests
import EventScript.Proofs.Truncation
import EventScript.Proofs.Work
import EventScript.Recovery
import EventScript.Recovery.Branch
import EventScript.Recovery.Decode
import EventScript.Recovery.Overrun
import EventScript.Recovery.Progress
import EventScript.Recovery.Session
import EventScript.Recovery.Table
import EventScript.Recovery.Texts
import EventScript.Recovery.Transfer
import EventScript.Recovery.Worklist
import EventScript.Script
import EventScript.Summary
import EventScript.Text.Blank
import EventScript.Text.Bytes
import EventScript.Text.Caseless
import EventScript.Text.Numeral
import EventScript.Text.Quoted
import EventScript.Text.Unprintable
import EventScript.Word
