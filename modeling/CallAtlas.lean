import CallAtlas.Command
import CallAtlas.FileSystem.Snapshot
import CallAtlas.Json.Reader
import CallAtlas.Json.Record
import CallAtlas.Main
import CallAtlas.Proofs.Dialect.Sites
import CallAtlas.Proofs.Dialect.Traversal
import CallAtlas.Proofs.Dialect.Steps
import CallAtlas.Proofs.Dialect.Agreement
import CallAtlas.Proofs.Dialect.Ownership
import CallAtlas.Proofs.Index
import CallAtlas.Proofs.SymbolTable.Consistency
import CallAtlas.Proofs.SymbolTable.History
import CallAtlas.Proofs.SymbolTable.Owners
import CallAtlas.Proofs.CallGraph.Consistency
import CallAtlas.Proofs.CallGraph.History
import CallAtlas.Proofs.CallGraph.Flat
import CallAtlas.Proofs.CallGraph.NodeLink
import CallAtlas.Proofs.CallGraph.LinkKeys
import CallAtlas.Proofs.Json.Number
import CallAtlas.Proofs.Json.RoundTrip
import CallAtlas.Proofs.Json.Text
import CallAtlas.Proofs.Extraction.FileOrder
import CallAtlas.Proofs.Extraction.Closure
import CallAtlas.Proofs.Dialect.OutOfClass
import CallAtlas.Proofs.Text.Csv
import CallAtlas.Proofs.FileSystem.Path
import CallAtlas.Proofs.FileSystem.Resolution
import CallAtlas.Proofs.FileSystem.Growth
import CallAtlas.Proofs.FileSystem.Entry
import CallAtlas.Proofs.FileSystem.WellFormed
import CallAtlas.Proofs.FileSystem.Walk
import CallAtlas.Proofs.Export.Atomicity
import CallAtlas.Proofs.Command.Failure
import CallAtlas.Proofs.Command.Rerun
import CallAtlas.Proofs.Dialect.Monotone
import CallAtlas.Proofs.Extraction.Monotone
import CallAtlas.Proofs.Dialect.StateAt
import CallAtlas.Proofs.Dialect.Stateless
import CallAtlas.Proofs.Text.Xml
import CallAtlas.Proofs.Layout
import CallAtlas.Proofs.Drawing
import CallAtlas.Proofs.Export.Success
import CallAtlas.Proofs.Tree.Descent
import CallAtlas.Proofs.Dialect.Reading
import CallAtlas.Proofs.Dialect.FoundAt
import CallAtlas.Proofs.Dialect.Java.Meaning
import CallAtlas.Proofs.Dialect.Cpp.Meaning
import CallAtlas.Proofs.Dialect.C.Meaning
import CallAtlas.Proofs.Dialect.Php.Meaning
import CallAtlas.Proofs.Dialect.C.PlainCalls
import CallAtlas.Proofs.Dialect.Cpp.OwnerNames
import CallAtlas.Proofs.Tree.Relabel
import CallAtlas.Proofs.Dialect.Python.Spacing
import CallAtlas.Proofs.Extraction.FollowedLinks
import CallAtlas.Proofs.Dialect.Python.LostCalls
import CallAtlas.Proofs.FileSystem.WalkSteps
import CallAtlas.Proofs.CallGraph.BuildOrder
import CallAtlas.Proofs.Text.Markup
import CallAtlas.Proofs.Drawing.Labels
import CallAtlas.Proofs.FileSystem.Seen
import CallAtlas.Proofs.Extraction.ReadBack
