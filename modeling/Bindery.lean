import Bindery.Binary64
import Bindery.Blake3
import Bindery.Browser
import Bindery.ByteSize
import Bindery.Bytes
import Bindery.Bytes.Blank
import Bindery.Bytes.Block
import Bindery.Bytes.CodePoints
import Bindery.Bytes.Columns
import Bindery.Bytes.Endian
import Bindery.Bytes.Grapheme
import Bindery.Bytes.LowerCase
import Bindery.Bytes.Printable
import Bindery.Bytes.Quoted
import Bindery.Bytes.Truth
import Bindery.Bytes.Utf8
import Bindery.Canonical.Flat
import Bindery.Canonical.Layout
import Bindery.Canonical.Shape
import Bindery.CaseStyle
import Bindery.Cbor.Canonical
import Bindery.Cbor.Item
import Bindery.Cbor.Meaning
import Bindery.CommandLine
import Bindery.CommandLine.Invocation
import Bindery.Container.Basic
import Bindery.Container.Builder
import Bindery.Container.Codec
import Bindery.Container.Frame
import Bindery.Container.Manifest
import Bindery.Container.Node
import Bindery.Container.Volume
import Bindery.Disk
import Bindery.Distribution.Npm
import Bindery.Distribution.Pip
import Bindery.FileTree
import Bindery.FileTree.Save
import Bindery.Glob
import Bindery.Glue.Code
import Bindery.Glue.Emit
import Bindery.Glue.JavaScript
import Bindery.Glue.JavaScriptHelpers
import Bindery.Glue.Lines
import Bindery.Glue.Python
import Bindery.Glue.PythonHelpers
import Bindery.Interface.Basic
import Bindery.Interface.Comment
import Bindery.Interface.Item
import Bindery.Interface.Line
import Bindery.Interface.Parser
import Bindery.Interface.Text
import Bindery.JsonText
import Bindery.Main
import Bindery.Package.Abi
import Bindery.Package.Basic
import Bindery.Package.Directory
import Bindery.Package.File
import Bindery.Package.Load
import Bindery.Package.Name
import Bindery.Proofs.Glue.Ending
import Bindery.Release
import Bindery.Report
import Bindery.Report.Detail
import Bindery.Samples
import Bindery.Settings
import Bindery.SlashPath
import Bindery.Summary
import Bindery.Table
import Bindery.Template.Basic
import Bindery.Template.Parser
import Bindery.Template.Render
import Bindery.TextField
import Bindery.Toml.Basic
import Bindery.Toml.Document
import Bindery.Toml.Literal
import Bindery.Toml.Parser
import Bindery.Toml.Scalar
import Bindery.Wasm.Cursor
import Bindery.Wasm.Fault
import Bindery.Wasm.Imports
import Bindery.Wasm.Instruction
import Bindery.Wasm.Module
import Bindery.Wasm.Operator
import Bindery.Wasm.Outline
import Bindery.Wasm.Sections
import Bindery.Wasm.Strict
import Bindery.Wasm.Typing
import Bindery.Wasm.Validity
import Bindery.Proofs.Glue.Arity
import Bindery.Proofs.Canonical.Extent
import Bindery.Proofs.Glue.Access
import Bindery.Proofs.Glue.Bounds
import Bindery.Proofs.Bytes.Octets
import Bindery.Proofs.Bytes.Pieces
import Bindery.Proofs.Cbor.Records
import Bindery.Proofs.Container.Calls
import Bindery.Proofs.Container.Lookup
import Bindery.Proofs.Package.Layout
import Bindery.Proofs.Canonical.Soundness
import Bindery.Proofs.SlashPath
import Bindery.Proofs.Bytes.Trim
import Bindery.Proofs.FileTree
import Bindery.Proofs.Distribution.Inside
import Bindery.Proofs.Canonical.Unfolding
import Bindery.Proofs.Interface.Scope
import Bindery.Proofs.Interface.Spelling
import Bindery.Proofs.Interface.Items
import Bindery.Proofs.Interface.Members
import Bindery.Proofs.Interface.Lines
import Bindery.Proofs.Interface.Recognise
import Bindery.Proofs.Interface.RoundTrip
import Bindery.Proofs.Container.Grammar
import Bindery.Proofs.Container.Slices
import Bindery.Proofs.Container.Listing
import Bindery.Proofs.Container.Overlap
import Bindery.Proofs.Package.Faithful
import Bindery.Proofs.Wasm.Reading
import Bindery.Proofs.Wasm.Sections
import Bindery.Proofs.Wasm.Encoding
import Bindery.Proofs.Package.Detection
import Bindery.Proofs.Package.Identity
import Bindery.Proofs.Cbor.Limits
import Bindery.Proofs.Container.Acceptance
import Bindery.Proofs.Package.Directory
import Bindery.Proofs.Wasm.Elements
import Bindery.Proofs.Wasm.Lossless
import Bindery.Proofs.FileTree.Contents
import Bindery.Proofs.Distribution.GlueFiles
import Bindery.Proofs.Bytes.Units
import Bindery.Proofs.Distribution.PipFiles
import Bindery.Proofs.Distribution.NpmReferences
import Bindery.Proofs.Browser
import Bindery.Proofs.Glue.Callees
import Bindery.Proofs.Glue.CallText
import Bindery.Proofs.Glue.Shadowing
import Bindery.Proofs.Glue.ModuleNames
import Bindery.Proofs.Identifier
import Bindery.Proofs.Distribution.Declarations
import Bindery.Proofs.Distribution.Identifiers
import Bindery.Proofs.Wasm.Numbers
import Bindery.Proofs.Wasm.ImportGrammar
import Bindery.Proofs.Glue.Refusals
import Bindery.Proofs.Glue.Stubs
import Bindery.Proofs.Glue.Footprint
import Bindery.Proofs.FileTree.Rebase
import Bindery.Proofs.Interface.Closed
import Bindery.Proofs.Interface.Signature
import Bindery.Proofs.Interface.Indentation
import Bindery.Proofs.Canonical.Aliases
import Bindery.Proofs.Canonical.Join
import Bindery.Proofs.Container.Reordering
import Bindery.Proofs.Container.Truncation
import Bindery.Proofs.Glue.Aliases
import Bindery.Proofs.Bytes.Decimal
import Bindery.Proofs.Glue.Temporaries
import Bindery.Proofs.Glue.HelperImports
import Bindery.Proofs.Glue.CallFree
import Bindery.Proofs.Interface.Cases
import Bindery.Proofs.Glue.NoImports
import Bindery.Proofs.Distribution.Shipped
import Bindery.Proofs.Distribution.Docstring
import Bindery.Proofs.Distribution.Quoting
import Bindery.Proofs.Distribution.RootDocstring
import Bindery.Proofs.Package.Spelling
import Bindery.Proofs.Report
import Bindery.Proofs.Interface.Comments
import Bindery.Proofs.Interface.Problems
import Bindery.Proofs.Bytes.Characters
import Bindery.Proofs.Interface.Splitting
import Bindery.Proofs.Distribution.Escaping
import Bindery.Proofs.Wasm.Position
import Bindery.Proofs.Wasm.Written
