import Offside.Main
import Offside.Session
import Offside.Source.Token
import Offside.Proofs.Source.Segments
import Offside.Proofs.Template.Plan
import Offside.Proofs.Template.Moved
import Offside.Proofs.Template.Append
import Offside.Proofs.Source.Line
import Offside.Proofs.Source.Tokens
import Offside.Proofs.Source.Lexed
import Offside.Proofs.Text.Bytes
import Offside.Proofs.Template.Reread
import Offside.Proofs.Template.Grounded
import Offside.Proofs.Template.Capture
import Offside.Proofs.IR.Origin
import Offside.Proofs.Ordered
import Offside.Proofs.Compile.Relabel
import Offside.Proofs.Compile.Nested
import Offside.Proofs.Compile.Transparency
import Offside.Proofs.Compile.Concatenation
import Offside.Proofs.Template.Layout
import Offside.Proofs.IR.Traced
import Offside.Proofs.Compile.Provenance
import Offside.Proofs.Template.OffsideRule
import Offside.Proofs.Template.Indented
import Offside.Proofs.Tag.Tail
import Offside.Proofs.Compile.Agreement
import Offside.Proofs.Line.Taken
import Offside.Proofs.Template.Contract
import Offside.Proofs.Compile.Faults
import Offside.Proofs.Json.Literal
import Offside.Proofs.IR.Evaluate
import Offside.Proofs.IR.Static
import Offside.Proofs.Tag.Written
import Offside.Proofs.Template.Listed
import Offside.Proofs.Compile.RoundTrip
import Offside.Proofs.Compile.Indifference
import Offside.Proofs.Compile.Outcome
import Offside.Proofs.Compile.Kept
import Offside.Proofs.Compile.Supported
import Offside.Proofs.Json.Document
import Offside.Proofs.IR.Lossless
import Offside.Proofs.IR.Visitor
import Offside.Proofs.IR.JsonNodes
import Offside.Proofs.Compile.Effects
import Offside.Proofs.Compile.Lists
import Offside.Proofs.Compile.WellFormed
import Offside.Proofs.Compile.Inlining
import Offside.Proofs.Compile.Aggregation
import Offside.Proofs.Compile.Hosting
import Offside.Proofs.Template.Cursor
import Offside.Proofs.Template.Levels
import Offside.Proofs.Template.RawBody
import Offside.Proofs.Attribute.Scan
import Offside.Proofs.Attribute.Nesting
import Offside.Proofs.Attribute.Items
import Offside.Proofs.Attribute.Printed
import Offside.Proofs.Tag.Head
import Offside.Proofs.Line.Printed
import Offside.Proofs.Template.Names
import Offside.Proofs.Text.Brackets
import Offside.Proofs.Compile.Loop
import Offside.Proofs.Compile.Phrase
import Offside.Proofs.IR.Sum
import Offside.Proofs.IR.PseudoSource
import Offside.Proofs.Compile.Assignment
import Offside.Proofs.Template.LineEnds
import Offside.Proofs.Compile.Header
import Offside.Proofs.Compile.SelfClosing
import Offside.Proofs.Compile.EmptyText
