import NatSpec.Table
import NatSpec.Text.Blank
import NatSpec.Text.Search
import NatSpec.Text.Lines
import NatSpec.Text.Printable
import NatSpec.Text.Digits
import NatSpec.Text.Quoted
import NatSpec.Decimal.Binary64
import NatSpec.Decimal.Shortest
import NatSpec.Json.Key
import NatSpec.Json.Basic
import NatSpec.Json.Reader
import NatSpec.Json.Writer
import NatSpec.Json.Display
import NatSpec.Json.Overlay
import NatSpec.Json.Sorted
import NatSpec.Fault
import NatSpec.Problem
import NatSpec.Abi.Signature
import NatSpec.Abi.Index
import NatSpec.Abi.Depth
import NatSpec.Members.Merge
import NatSpec.Members.Groups
import NatSpec.Contract.Name
import NatSpec.Contract.Trees
import NatSpec.Contract.Doc
import NatSpec.Contract.Resolve
import NatSpec.Store
import NatSpec.BuildInfo
import NatSpec.FileTree.Path
import NatSpec.FileTree.Basic
import NatSpec.FileTree.Resolve
import NatSpec.FileTree.Access
import NatSpec.FileTree.Update
import NatSpec.FileTree.Changes
import NatSpec.Artifacts
import NatSpec.Version
import NatSpec.Bundle.Page
import NatSpec.Bundle.Markup
import NatSpec.Bundle.Index
import NatSpec.Bundle.Render
import NatSpec.Options
import NatSpec.Docgen
import NatSpec.Toml.Basic
import NatSpec.Toml.Scalar
import NatSpec.Toml.Reader
import NatSpec.ProjectFile
import NatSpec.CompilerInput
import NatSpec.Shell.Words
import NatSpec.Shell.Script
import NatSpec.Shell.Programs
import NatSpec.Shell.Run
import NatSpec.Compile
import NatSpec.CommandLine.Arguments
import NatSpec.CommandLine.Invocation
import NatSpec.CommandLine.Run
import NatSpec.Text.Utf8
import NatSpec.Text.Utf16
import NatSpec.Text.Encoding
import NatSpec.Text.Percent
import NatSpec.Address.Punycode
import NatSpec.Address.Label
import NatSpec.Address.Bracketed
import NatSpec.Address.Authority
import NatSpec.Address.Basic
import NatSpec.Service.Request
import NatSpec.Service.Route
import NatSpec.Service.Respond
import NatSpec.Text.Base64
import NatSpec.FileTree.Snapshot
import NatSpec.Main
import NatSpec.Proofs.Except
import NatSpec.Proofs.Run
import NatSpec.Proofs.Table.Lookup
import NatSpec.Proofs.Text.Search
import NatSpec.Proofs.Members.Records
import NatSpec.Proofs.Abi.Index
import NatSpec.Proofs.Abi.Shape
import NatSpec.Proofs.Abi.Overload
import NatSpec.Proofs.Members.Layers
import NatSpec.Proofs.Contract.Name
import NatSpec.Proofs.Contract.Placement
import NatSpec.Proofs.Contract.Resolve
import NatSpec.Proofs.Store
import NatSpec.Proofs.BuildInfo
import NatSpec.Proofs.Bundle.Write
import NatSpec.Proofs.Docgen.Plan
import NatSpec.Proofs.FileTree.Entries
import NatSpec.Proofs.FileTree.Leads
import NatSpec.Proofs.FileTree.Path
import NatSpec.Proofs.FileTree.Resolve
import NatSpec.Proofs.FileTree.Update
import NatSpec.Proofs.FileTree.Walk
import NatSpec.Proofs.FileTree.Frame
import NatSpec.Proofs.Bundle.Frame
import NatSpec.Proofs.Bundle.Index
import NatSpec.Proofs.Bundle.Markup
import NatSpec.Proofs.FileTree.Read
import NatSpec.Proofs.FileTree.Alike
import NatSpec.Proofs.FileTree.Listing
import NatSpec.Proofs.FileTree.Made
import NatSpec.Proofs.FileTree.Laid
import NatSpec.Proofs.FileTree.Room
import NatSpec.Proofs.FileTree.Opened
import NatSpec.Proofs.FileTree.Ending
import NatSpec.Proofs.Docgen.Frame
import NatSpec.Proofs.Docgen.Failure
import NatSpec.Proofs.Artifacts.Walk
import NatSpec.Proofs.Artifacts.Layout
import NatSpec.Proofs.Artifacts.Agreement
import NatSpec.Proofs.Artifacts.Listing
import NatSpec.Proofs.Artifacts.Exact
import NatSpec.Proofs.Text.Digits
import NatSpec.Proofs.Json.Spelling
import NatSpec.Proofs.Json.Scanning
import NatSpec.Proofs.Json.Reading
import NatSpec.Proofs.Decimal.Rounding
import NatSpec.Proofs.Decimal.Shortest
import NatSpec.Proofs.Json.Floats
import NatSpec.Proofs.Json.Valid
import NatSpec.Proofs.Json.Writing
import NatSpec.Proofs.Json.Printed
import NatSpec.Proofs.Text.Sorting
import NatSpec.Proofs.Bundle.Data
import NatSpec.Proofs.Bundle.Script
import NatSpec.Proofs.Bundle.Tags
import NatSpec.Proofs.Bundle.Outline
import NatSpec.Proofs.Json.Accepted
import NatSpec.Proofs.Json.Sorted
import NatSpec.Proofs.Json.Bounded
import NatSpec.Proofs.Contract.Bounded
import NatSpec.Proofs.Bundle.Written
import NatSpec.Proofs.Service.Answers
import NatSpec.Proofs.Docgen.Written
import NatSpec.Proofs.Service.Agreement
import NatSpec.Proofs.Bundle.Laid
import NatSpec.Proofs.Bundle.Pages
import NatSpec.Proofs.Bundle.Contents
import NatSpec.Proofs.Bundle.Fits
import NatSpec.Proofs.Bundle.Final
import NatSpec.Proofs.Bundle.Permuted
import NatSpec.Proofs.Docgen.Cleared
import NatSpec.Proofs.Docgen.Order
import NatSpec.Proofs.Artifacts.Reread
import NatSpec.Proofs.Artifacts.Beside
import NatSpec.Proofs.Docgen.Rewritten
import NatSpec.Proofs.Docgen.Again
import NatSpec.Proofs.Json.Overlay
import NatSpec.Proofs.Members.Again
import NatSpec.Proofs.Members.Constructor
import NatSpec.Proofs.Abi.Typed
import NatSpec.Proofs.CommandLine.Status
import NatSpec.Proofs.Contract.Faults
import NatSpec.Proofs.Service.Status
import NatSpec.Proofs.Abi.Repeats
import NatSpec.Proofs.Members.Grouped
import NatSpec.Proofs.Members.Merged
import NatSpec.Proofs.Contract.Members
import NatSpec.Proofs.Contract.Groups
import NatSpec.Proofs.Contract.Variables
import NatSpec.Proofs.Contract.Specials
import NatSpec.Proofs.Contract.Duplicates
import NatSpec.Proofs.Bundle.Headings
import NatSpec.Proofs.Bundle.Listed
import NatSpec.Proofs.Bundle.Views
import NatSpec.Proofs.CompilerInput
import NatSpec.Proofs.Json.Readable
import NatSpec.Proofs.CompilerInput.Extended
import NatSpec.Proofs.CompilerInput.Patched
import NatSpec.Proofs.FileTree.NullFree
import NatSpec.Proofs.Artifacts.Reported
import NatSpec.Proofs.FileTree.Lexical
import NatSpec.Proofs.Docgen.Output
import NatSpec.Proofs.Options
