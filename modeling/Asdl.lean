import Asdl.Command
import Asdl.Command.Line
import Asdl.Concrete
import Asdl.Concrete.Descent
import Asdl.Concrete.Reader
import Asdl.Concrete.Yield
import Asdl.Fault
import Asdl.Module
import Asdl.Module.OfConcrete
import Asdl.Module.Outline
import Asdl.Module.Source
import Asdl.Name
import Asdl.Proofs.Command.Verdicts
import Asdl.Proofs.Concrete.Descent
import Asdl.Proofs.Concrete.Erasure
import Asdl.Proofs.Concrete.Grammar
import Asdl.Proofs.Concrete.Part
import Asdl.Proofs.Concrete.Placement
import Asdl.Proofs.Concrete.Progress
import Asdl.Proofs.Concrete.Recognition
import Asdl.Proofs.Concrete.Refusal
import Asdl.Proofs.Concrete.Tracking
import Asdl.Proofs.Concrete.WellFormed
import Asdl.Proofs.Module.Layout
import Asdl.Proofs.Module.Outlined
import Asdl.Proofs.Module.Printable
import Asdl.Proofs.Module.Ranges
import Asdl.Proofs.Module.RoundTrip
import Asdl.Proofs.Module.Standing
import Asdl.Proofs.Name.Session
import Asdl.Proofs.Report.Characters
import Asdl.Proofs.Report.Pointing
import Asdl.Proofs.Resolution.Compiled
import Asdl.Proofs.Resolution.Erasure
import Asdl.Proofs.Resolution.Extension
import Asdl.Proofs.Resolution.Linked
import Asdl.Proofs.Resolution.Numbering
import Asdl.Proofs.Resolution.Renumbering
import Asdl.Proofs.Resolution.Repetition
import Asdl.Proofs.Resolution.Reports
import Asdl.Proofs.Resolution.Respelling
import Asdl.Proofs.Resolution.Sharing
import Asdl.Proofs.Scope.History
import Asdl.Proofs.Scope.Nesting
import Asdl.Proofs.Text.Legible
import Asdl.Proofs.Token.Decomposition
import Asdl.Proofs.Token.Insertion
import Asdl.Proofs.Token.Lines
import Asdl.Proofs.Token.Recovery
import Asdl.Proofs.Token.Slice
import Asdl.Proofs.Token.Spelling
import Asdl.Proofs.Tree.Counted
import Asdl.Proofs.Tree.Dumped
import Asdl.Proofs.Tree.Faithful
import Asdl.Proofs.Tree.Links
import Asdl.Proofs.Tree.Rendered
import Asdl.Proofs.Tree.Settings
import Asdl.Report
import Asdl.Resolution
import Asdl.Resolved
import Asdl.Resolved.Builtin
import Asdl.Scope
import Asdl.Span
import Asdl.Token
import Asdl.Token.Cursor
import Asdl.Token.Listing
import Asdl.Tree
import Asdl.Tree.Dump
import Asdl.Tree.Node
import Asdl.Tree.Site
