import CallTree.Text.CodePointSet
import CallTree.Text.Blank
import CallTree.Text.Alphanumeric
import CallTree.Text.LowerCase
import CallTree.Text.Printable
import CallTree.Text.Quoted
import CallTree.Text.Numeral
import CallTree.Text.Decimal
import CallTree.Text.Split
import CallTree.Text.Encoding
import CallTree.Text.Json
import CallTree.Path
import CallTree.Glob
import CallTree.Line
import CallTree.Scan.Context
import CallTree.Scan.Heuristic
import CallTree.Scan.Line
import CallTree.Declaration.Word
import CallTree.Declaration.Head
import CallTree.Declaration.Parameters
import CallTree.Declaration.Basic
import CallTree.Declaration.Signature
import CallTree.ClassStack
import CallTree.Method
import CallTree.Extent
import CallTree.Source
import CallTree.Call.Site
import CallTree.Call.Form
import CallTree.Digest
import CallTree.Direction
import CallTree.Tree
import CallTree.Fault
import CallTree.Metrics
import CallTree.Configuration
import CallTree.Disk
import CallTree.Project.Basic
import CallTree.Project.Directory
import CallTree.Walk.Basic
import CallTree.Walk.Callers
import CallTree.Walk.Callees
import CallTree.Analysis
import CallTree.Report.Document
import CallTree.Report.Markdown
import CallTree.Report.Markup
import CallTree.Report.Outline
import CallTree.Report.Graph
import CallTree.Report.GraphML
import CallTree.Service
import CallTree.Workspace
import CallTree.CommandLine.Options
import CallTree.CommandLine.Run
import CallTree.Main
import CallTree.Proofs.Tree.Levels
import CallTree.Proofs.Tree.Leveled
import CallTree.Proofs.Tree.Visits
import CallTree.Proofs.Tree.Identity
import CallTree.Proofs.Report.MergedTree
import CallTree.Proofs.Source.Methods
import CallTree.Proofs.Source.Agreement
import CallTree.Proofs.Scan.Modes
import CallTree.Proofs.Scan.Masks
import CallTree.Proofs.Scan.Steps
import CallTree.Proofs.Scan.Lookaround
import CallTree.Proofs.Scan.Contents
import CallTree.Proofs.Scan.Arguments
import CallTree.Proofs.Scan.Parts
import CallTree.Proofs.Call.Texts
import CallTree.Proofs.Extent.Search
import CallTree.Proofs.Extent.Matching
import CallTree.Proofs.Text.Codes
import CallTree.Proofs.Text.Collapse
import CallTree.Proofs.Text.Spacing
import CallTree.Proofs.Text.Parts
import CallTree.Proofs.Declaration.Heads
import CallTree.Proofs.Source.Headers
import CallTree.Proofs.Declaration.Signatures
import CallTree.Proofs.Declaration.Types
import CallTree.Proofs.Declaration.Readings
import CallTree.Proofs.Declaration.ReturnTypes
import CallTree.Proofs.Declaration.Parameters
import CallTree.Proofs.Declaration.Separators
import CallTree.Proofs.Declaration.RoundTrip
import CallTree.Proofs.Declaration.Layout
import CallTree.Proofs.Declaration.Verdicts
import CallTree.Proofs.Source.Bodies
import CallTree.Proofs.Text.Pieces
import CallTree.Proofs.Path.Parts
import CallTree.Proofs.Path.Normal
import CallTree.Proofs.Path.Display
import CallTree.Proofs.Report.Lines
import CallTree.Proofs.Report.Bullets
import CallTree.Proofs.Source.Preamble
import CallTree.Proofs.Call.Detection
import CallTree.Proofs.Call.Constructors
import CallTree.Proofs.Call.Masked
import CallTree.Proofs.Call.Padding
import CallTree.Proofs.Metrics.Counters
import CallTree.Proofs.Project.Failures
import CallTree.Proofs.Project.Listing
import CallTree.Proofs.Project.Places
import CallTree.Proofs.Corpus
import CallTree.Proofs.Walk.Run
import CallTree.Proofs.Walk.Faithful
import CallTree.Proofs.Walk.Growth
import CallTree.Proofs.Walk.Reach
import CallTree.Proofs.Walk.Simulation
import CallTree.Proofs.Walk.Callers
import CallTree.Proofs.Walk.Callees
import CallTree.Proofs.Walk.Lockstep
import CallTree.Proofs.Walk.Resolution
import CallTree.Proofs.Walk.Accounts
import CallTree.Proofs.Analysis.Outcome
import CallTree.Proofs.Analysis.Bounds
import CallTree.Proofs.Analysis.Names
import CallTree.Proofs.Report.Locations
import CallTree.Proofs.Analysis.CallerEdges
import CallTree.Proofs.Analysis.CallerChains
import CallTree.Proofs.Analysis.Closure
import CallTree.Proofs.Analysis.FaultyFiles
import CallTree.Proofs.Analysis.HostText
import CallTree.Proofs.Analysis.LineEnds
import CallTree.Proofs.Analysis.Accounts
import CallTree.Proofs.Project.Spelling
import CallTree.Proofs.Service.Answers
