import AssetBundler.Build.Bundler
import AssetBundler.Build.Graph
import AssetBundler.Build.Optimize
import AssetBundler.Build.Output
import AssetBundler.Build.Page
import AssetBundler.Build.Plan
import AssetBundler.Build.Render
import AssetBundler.Build.Session
import AssetBundler.Build.SourceMap
import AssetBundler.CommandLine.Basic
import AssetBundler.CommandLine.Parse
import AssetBundler.CommandLine.Report
import AssetBundler.CommandLine.Run
import AssetBundler.Config.Basic
import AssetBundler.Config.Decode
import AssetBundler.Config.Load
import AssetBundler.ContentType
import AssetBundler.Data.Json
import AssetBundler.Data.Number
import AssetBundler.Data.Toml
import AssetBundler.Data.Value
import AssetBundler.Digest.Sha256
import AssetBundler.Files.Archive
import AssetBundler.Files.Path
import AssetBundler.Files.Tree
import AssetBundler.Html
import AssetBundler.Html.Compact
import AssetBundler.Main
import AssetBundler.Measure
import AssetBundler.Mode
import AssetBundler.Pattern.Basic
import AssetBundler.Pattern.Glob
import AssetBundler.Pattern.Parser
import AssetBundler.Project.Error
import AssetBundler.Project.Identity
import AssetBundler.Project.Resolve
import AssetBundler.Project.Rules
import AssetBundler.Proofs.Build.Action
import AssetBundler.Proofs.Build.Agreement
import AssetBundler.Proofs.Build.Graph
import AssetBundler.Proofs.Build.Imports
import AssetBundler.Proofs.Build.Incremental
import AssetBundler.Proofs.Build.Order
import AssetBundler.Proofs.Build.Output
import AssetBundler.Proofs.Build.Phases
import AssetBundler.Proofs.Build.Visit
import AssetBundler.Proofs.Config.TextMap
import AssetBundler.Proofs.Data.Json
import AssetBundler.Proofs.Page.Deferred
import AssetBundler.Proofs.Page.Require
import AssetBundler.Proofs.Plan.Chunks
import AssetBundler.Proofs.Plan.Groups
import AssetBundler.Proofs.Plan.Links
import AssetBundler.Proofs.Plan.LoadOrder
import AssetBundler.Proofs.Plan.Names
import AssetBundler.Proofs.Plan.Partition
import AssetBundler.Proofs.Plan.Roles
import AssetBundler.Proofs.Plan.Roots
import AssetBundler.Proofs.Plan.Split
import AssetBundler.Proofs.Project.Resolve
import AssetBundler.Proofs.Transform.Imports
import AssetBundler.Script.Define
import AssetBundler.Script.Grammar.Core
import AssetBundler.Script.Grammar.Expression
import AssetBundler.Script.Grammar.Function
import AssetBundler.Script.Grammar.Item
import AssetBundler.Script.Grammar.Markup
import AssetBundler.Script.Grammar.Pattern
import AssetBundler.Script.Grammar.Statement
import AssetBundler.Script.Lexer
import AssetBundler.Script.Lowering
import AssetBundler.Script.Module
import AssetBundler.Script.Token
import AssetBundler.Script.Tree
import AssetBundler.Serve.Address
import AssetBundler.Serve.Client
import AssetBundler.Serve.Message
import AssetBundler.Serve.Rebuild
import AssetBundler.Serve.Server
import AssetBundler.Serve.WatchFilter
import AssetBundler.Style.Placeholder
import AssetBundler.Style.Reference
import AssetBundler.Style.Stylesheet
import AssetBundler.Style.Syntax.Node
import AssetBundler.Style.Syntax.Rule
import AssetBundler.Style.Syntax.Selector
import AssetBundler.Style.Syntax.Token
import AssetBundler.Text.Base64
import AssetBundler.Text.CharClass
import AssetBundler.Text.Fixed
import AssetBundler.Text.Quoted
import AssetBundler.Text.Scan
import AssetBundler.Text.Search
import AssetBundler.Text.UnicodeRanges
import AssetBundler.Text.Utf8
import AssetBundler.Transform.Artifact
import AssetBundler.Transform.AssetName
import AssetBundler.Transform.Step
import AssetBundler.Proofs.Build.Manifest
import AssetBundler.Proofs.Page.Listing
import AssetBundler.Proofs.Files.Changes
import AssetBundler.Proofs.Build.Replace
import AssetBundler.Proofs.Build.TextChange
import AssetBundler.Proofs.Serve.Rebuild
import AssetBundler.Proofs.Build.Placement
import AssetBundler.Proofs.Transform.AssetName
import AssetBundler.Proofs.Build.Trace
import AssetBundler.Proofs.Page.Execution
import AssetBundler.Proofs.Plan.Rename
import AssetBundler.Proofs.Build.Alike
import AssetBundler.Proofs.Page.Cascade
import AssetBundler.Proofs.Serve.Publish
import AssetBundler.Proofs.Build.Course
import AssetBundler.Proofs.Serve.Route
import AssetBundler.Proofs.Files.Steps
import AssetBundler.Proofs.Files.Places
import AssetBundler.Proofs.Files.Faults
import AssetBundler.Proofs.Build.Staging
import AssetBundler.Proofs.Build.GraphBelow
import AssetBundler.Proofs.Build.Relocation
import AssetBundler.Proofs.Build.Swap
import AssetBundler.Proofs.Build.InPlace
import AssetBundler.Proofs.Style.Renderings
import AssetBundler.Proofs.Style.References
import AssetBundler.Proofs.Script.Lines
import AssetBundler.Proofs.Build.LineMap
import AssetBundler.Proofs.Script.Generated
import AssetBundler.Proofs.Script.Shared
import AssetBundler.Proofs.Script.Asked
import AssetBundler.Proofs.Script.Interop
import AssetBundler.Proofs.Script.Scope
import AssetBundler.Proofs.Script.Reading
import AssetBundler.Proofs.Script.Constants
import AssetBundler.Proofs.Style.Parts
import AssetBundler.Proofs.Style.Search
import AssetBundler.Proofs.Style.Plain
import AssetBundler.Proofs.Style.Extraction
import AssetBundler.Proofs.Style.ImportOrder
import AssetBundler.Proofs.Style.Conditions
import AssetBundler.Proofs.Build.Work
import AssetBundler.Proofs.Text.Search
import AssetBundler.Proofs.Files.Canonical
import AssetBundler.Proofs.Project.Request
import AssetBundler.Proofs.Project.Search
import AssetBundler.Proofs.Files.Ways
import AssetBundler.Proofs.Build.Entries
import AssetBundler.Proofs.Page.Keys
import AssetBundler.Proofs.Plan.EntryNames
import AssetBundler.Proofs.Build.EntryChunks
import AssetBundler.Proofs.Text.Occurrence
import AssetBundler.Proofs.Text.Quoted
import AssetBundler.Proofs.Script.Literal
import AssetBundler.Proofs.Page.Runtime
import AssetBundler.Proofs.Serve.WatchFilter
import AssetBundler.Proofs.Serve.Message
import AssetBundler.Proofs.Serve.ErrorPage
