import PackageAudit.Json.Parser
import PackageAudit.Json.Printer
import PackageAudit.Json.Inspect
import PackageAudit.Version.Interval
import PackageAudit.Version.Coarse
import PackageAudit.Script.Node
import PackageAudit.Import.Extract
import PackageAudit.Regex.Literal
import PackageAudit.FileTree.Document
import PackageAudit.Manifest.Basic
import PackageAudit.Source.Scan
import PackageAudit.Issue
import PackageAudit.Installed.Load
import PackageAudit.Installed.Provider
import PackageAudit.Peer.Report
import PackageAudit.Options
import PackageAudit.Resolve.Resolver
import PackageAudit.Resolve.Load
import PackageAudit.Graph.Cycle
import PackageAudit.Dependency.Classification
import PackageAudit.Audit.Basic
import PackageAudit.Report.IssueTable
import PackageAudit.Report.FixScript
import PackageAudit.Report.Summary
import PackageAudit.CommandLine.Arguments
import PackageAudit.CommandLine.Run
import PackageAudit.CommandLine.Snapshot
import PackageAudit.Main
import PackageAudit.Proofs.Text.Digits
import PackageAudit.Proofs.Version.LeadingZeros
import PackageAudit.Proofs.Version.Intersection
import PackageAudit.Proofs.Collection
import PackageAudit.Proofs.Peer.Agreement
import PackageAudit.Proofs.Text.Cut
import PackageAudit.Proofs.Version.Text
import PackageAudit.Proofs.Peer.Suggestion
import PackageAudit.Proofs.Version.CommonVersion
import PackageAudit.Proofs.Graph.ClosedWalk
import PackageAudit.Proofs.Graph.Search
import PackageAudit.Proofs.Dependency.Partition
import PackageAudit.Proofs.Audit.Reading
import PackageAudit.Proofs.Audit.Completion
import PackageAudit.Proofs.Audit.ImportedUsed
import PackageAudit.Proofs.Resolve.External
import PackageAudit.Proofs.Resolve.RuntimeName
import PackageAudit.Proofs.Audit.RuntimeModules
import PackageAudit.Proofs.Path.Trail
import PackageAudit.Proofs.Path.Place
import PackageAudit.Proofs.Resolve.Rooted
import PackageAudit.Proofs.Resolve.Place
import PackageAudit.Proofs.FileTree.Plain
import PackageAudit.Proofs.FileTree.Places
import PackageAudit.Proofs.Source.Preorder
import PackageAudit.Proofs.Source.Scan
import PackageAudit.Proofs.FileTree.Links
import PackageAudit.Proofs.Source.Tour
import PackageAudit.Proofs.Source.Links
import PackageAudit.Proofs.Installed.Walk
import PackageAudit.Proofs.Installed.Reached
import PackageAudit.Proofs.Installed.Levels
import PackageAudit.Proofs.FileTree.Without
import PackageAudit.Proofs.Installed.BadEntries
import PackageAudit.Proofs.Installed.Lookup
import PackageAudit.Proofs.Shell.Reading
import PackageAudit.Proofs.Report.FixScript
import PackageAudit.Proofs.Resolve.Extends
import PackageAudit.Proofs.Resolve.Loading
import PackageAudit.Proofs.Peer.Accounting
import PackageAudit.Proofs.Version.Gap
import PackageAudit.Proofs.Peer.Verdict
import PackageAudit.Proofs.Peer.DistTag
import PackageAudit.Proofs.Version.Token
import PackageAudit.Proofs.Version.Components
import PackageAudit.Proofs.Version.Words
import PackageAudit.Proofs.Version.Prerelease
import PackageAudit.Proofs.Version.Alternatives
import PackageAudit.Proofs.Version.NormalForm
import PackageAudit.Proofs.Version.Minimum
import PackageAudit.Proofs.Peer.CommonMajor
import PackageAudit.Proofs.Installed.Provider
import PackageAudit.Proofs.Dependency.TypesPackage
import PackageAudit.Proofs.Registry.Failure
import PackageAudit.Proofs.FileTree.Spelling
import PackageAudit.Proofs.Resolve.Precedence
import PackageAudit.Proofs.Json.Token
import PackageAudit.Proofs.Json.Layout
import PackageAudit.Proofs.Json.Relaxed
import PackageAudit.Proofs.Resolve.PackageFolder
import PackageAudit.Proofs.Import.Lines
import PackageAudit.Proofs.Import.Rendered
import PackageAudit.Proofs.Dependency.Usage
import PackageAudit.Proofs.Installed.Versions
import PackageAudit.Proofs.Registry.Session
import PackageAudit.Proofs.Graph.Sources
import PackageAudit.Proofs.Script.Walk
import PackageAudit.Proofs.Manifest.Declarations
import PackageAudit.Proofs.Script.Target
