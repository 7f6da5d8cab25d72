import ProtocolGraph.Builder.Basic
import ProtocolGraph.Builder.Operation
import ProtocolGraph.Builder.Process
import ProtocolGraph.Builder.Translate
import ProtocolGraph.Declaration
import ProtocolGraph.Draft.Attempt
import ProtocolGraph.Draft.Basic
import ProtocolGraph.Draft.Edit
import ProtocolGraph.Expression
import ProtocolGraph.Failure
import ProtocolGraph.Failure.Nested
import ProtocolGraph.Form.Basic
import ProtocolGraph.Form.Call
import ProtocolGraph.Form.Walk
import ProtocolGraph.Json
import ProtocolGraph.Leniency
import ProtocolGraph.Message
import ProtocolGraph.Model.Basic
import ProtocolGraph.Model.Json
import ProtocolGraph.Model.Source
import ProtocolGraph.Node.Basic
import ProtocolGraph.Node.Reader
import ProtocolGraph.Process
import ProtocolGraph.Statement.Basic
import ProtocolGraph.Statement.Graph
import ProtocolGraph.Text.Blank
import ProtocolGraph.Text.CodeRange
import ProtocolGraph.Text.Legible
import ProtocolGraph.Text.Numeral
import ProtocolGraph.Text.Printable
import ProtocolGraph.Text.Quoted
import ProtocolGraph.Token.Basic
import ProtocolGraph.Token.Cursor
import ProtocolGraph.Token.Scan
import ProtocolGraph.Valuation
import ProtocolGraph.Proofs.Builder.Frame
import ProtocolGraph.Proofs.Builder.Operation
import ProtocolGraph.Proofs.Builder.Process
import ProtocolGraph.Proofs.Builder.Refinement
import ProtocolGraph.Proofs.Builder.Registry
import ProtocolGraph.Proofs.Builder.Translate
import ProtocolGraph.Proofs.Declaration.Failing
import ProtocolGraph.Proofs.Declaration.Grammar
import ProtocolGraph.Proofs.Declaration.Graph
import ProtocolGraph.Proofs.Declaration.History
import ProtocolGraph.Proofs.Declaration.Message
import ProtocolGraph.Proofs.Declaration.Numbering
import ProtocolGraph.Proofs.Declaration.Respelt
import ProtocolGraph.Proofs.Declaration.Stack
import ProtocolGraph.Proofs.Draft.Alike
import ProtocolGraph.Proofs.Draft.Extends
import ProtocolGraph.Proofs.Draft.Move
import ProtocolGraph.Proofs.Draft.Registry
import ProtocolGraph.Proofs.Draft.Scopes
import ProtocolGraph.Proofs.Draft.Sound
import ProtocolGraph.Proofs.Draft.Symmetry
import ProtocolGraph.Proofs.Expression.RoundTrip
import ProtocolGraph.Proofs.Form.Arguments
import ProtocolGraph.Proofs.Json.Alike
import ProtocolGraph.Proofs.Json.Schema
import ProtocolGraph.Proofs.Message.RoundTrip
import ProtocolGraph.Proofs.Model.Concatenation
import ProtocolGraph.Proofs.Model.Conservative
import ProtocolGraph.Proofs.Model.Formatting
import ProtocolGraph.Proofs.Model.Json
import ProtocolGraph.Proofs.Model.Relaxed
import ProtocolGraph.Proofs.Model.Rendering
import ProtocolGraph.Proofs.Model.Schema
import ProtocolGraph.Proofs.Node.Blame
import ProtocolGraph.Proofs.Node.Derivation
import ProtocolGraph.Proofs.Node.Descent
import ProtocolGraph.Proofs.Node.File
import ProtocolGraph.Proofs.Node.Nesting
import ProtocolGraph.Proofs.Node.Place
import ProtocolGraph.Proofs.Node.Rendering
import ProtocolGraph.Proofs.Node.Word
import ProtocolGraph.Proofs.Process.Incoming
import ProtocolGraph.Proofs.Process.Outgoing
import ProtocolGraph.Proofs.Process.Recording
import ProtocolGraph.Proofs.Process.WellFormed
import ProtocolGraph.Proofs.Statement.Accepted
import ProtocolGraph.Proofs.Statement.Bisimilar
import ProtocolGraph.Proofs.Statement.Body
import ProtocolGraph.Proofs.Statement.Control
import ProtocolGraph.Proofs.Statement.Draws
import ProtocolGraph.Proofs.Statement.Failing
import ProtocolGraph.Proofs.Statement.History
import ProtocolGraph.Proofs.Statement.Marked
import ProtocolGraph.Proofs.Statement.Places
import ProtocolGraph.Proofs.Statement.Reading
import ProtocolGraph.Proofs.Statement.Relabel
import ProtocolGraph.Proofs.Statement.Room
import ProtocolGraph.Proofs.Statement.Sending
import ProtocolGraph.Proofs.Statement.Spelling
import ProtocolGraph.Proofs.Statement.TwoPass
import ProtocolGraph.Proofs.Text.ByteOrder
import ProtocolGraph.Proofs.Text.Numeral
import ProtocolGraph.Proofs.Token.Cutting
import ProtocolGraph.Proofs.Token.Division
import ProtocolGraph.Proofs.Token.Later
import ProtocolGraph.Proofs.Token.Scan
import ProtocolGraph.Proofs.Token.Unclosed
