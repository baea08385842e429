/-
PackageAudit.Audit.Basic — the audit of a project.

The manifest, the configuration, the sources and the installed packages are
read in this order; of several things that cannot be read the first one is
reported. Everything else is found out from them.

The files are read all at once, and so are the packages looked up; a schedule
says in which order this work is completed.
-/
import PackageAudit.Audit.Advice
import PackageAudit.Audit.SourceFile
import PackageAudit.Dependency.Classification
import PackageAudit.Graph.Cycle
import PackageAudit.Installed.Load
import PackageAudit.Peer.Report
import PackageAudit.Report.Basic
import PackageAudit.Resolve.Load
import PackageAudit.Source.Scan

namespace PackageAudit

/-- Why there is no report. -/
inductive AuditError where
  | manifest (e : Manifest.Error)
  | config (e : ConfigError)
  | installed (e : FileTree.Error)
  | lookup (e : LookupError)

/-- The message of an error. -/
def AuditError.message : AuditError → String
  | .manifest e => e.message
  | .config e => e.message
  | .installed e => e.message
  | .lookup e => e.message

/-- When an audit began, and how many milliseconds it took if that is
shown. -/
structure Timing where
  startedAt : String
  milliseconds : Option Nat := none
  deriving Inhabited

namespace Audit

/-- What an audit works on: the tree, the place of the project, what is asked
for, how versions are looked up, when it began and how scripts are read. -/
structure Request where
  tree : FileTree
  project : String
  options : Options := {}
  lookup : Outdated.Lookup
  timing : Timing
  reader : Script.Reader := Script.read

/-- What has been read. -/
structure Material where
  root : String
  manifest : Manifest
  config : ResolverConfig
  configWarnings : List Warning
  scan : Source.Scan
  sources : List (SourceFile × List Warning)
  installed : Installed
  toolConfigs : List String
  deriving Inhabited

/-! ## 1. Reading -/

/-- Reads everything, the files as a schedule has it. -/
def readIn (s : Schedule) (r : Request) : Except AuditError Material := do
  let root := Path.absolute "/" r.project
  let manifest ← (Manifest.load r.tree root).mapError .manifest
  let (config, configWarnings) ←
    (ResolverConfig.load r.tree root r.options.aliases r.reader).mapError .config
  let scan := Source.scan r.tree root r.options.excludePatterns r.options.maxScanDepth
  let resolve := SourceFile.resolveBy r.tree config
  let sources := Completion.gather
    (fun path => SourceFile.read r.tree root resolve path r.reader) scan.files (s.files _)
  let installed ← (Installed.load r.tree root r.options.maxTraversalDepth).mapError .installed
  return {
    root, manifest, config, configWarnings, scan, sources, installed
    toolConfigs := Dependency.toolConfigTexts r.tree root }

/-- Reads everything. -/
def read (r : Request) : Except AuditError Material := readIn .inOrder r

namespace Material

/-- The source files. -/
def files (m : Material) : List SourceFile := m.sources.map (·.1)

/-- What is known about the packages. -/
def facts (m : Material) (options : Options) : Facts := {
  manifest := m.manifest
  installed := m.installed
  options
  project := m.root
  toolConfigs := m.toolConfigs
  usages := SourceFile.usages m.root m.files
  builtinImported := SourceFile.usesBuiltin m.files }

/-- Which file imports which. -/
def graph (m : Material) : ImportGraph := SourceFile.graph m.files

/-- The issues of cycles of imports. -/
def cycleIssues (m : Material) : List Issue := m.graph.cycles.map (m.graph.cycleIssue m.root)

/-- The peer requirements, if they are looked at. -/
def peers? (m : Material) (options : Options) : Option Peer.Analysis :=
  if options.checkPeers && m.installed.present then some (Peer.analyze m.installed) else none

/-- All issues. -/
def issues (m : Material) (options : Options) : List Issue :=
  (m.facts options).issues ++ m.cycleIssues ++
    (m.peers? options).elim [] fun p => p.conflicts ++ p.missingIssues

/-- All warnings, those of lookups aside. -/
def warnings (m : Material) (options : Options) : List Warning :=
  m.manifest.warnings ++ m.configWarnings ++ m.scan.warnings ++ m.installed.warnings ++
    m.sources.flatMap (·.2) ++ (m.facts options).warnings ++
    (m.peers? options).elim [] Peer.Analysis.warnings

/-- The declared packages that are looked up. -/
def lookedUp (m : Material) (options : Options) : List Declared :=
  m.manifest.dependencies.filter fun d => options.inScope d.type

end Material

/-! ## 2. The report -/

/-- The outdated packages, if they are asked for. -/
def outdatedIn (s : Schedule) (r : Request) (m : Material) :
    Except AuditError (List Outdated × List Warning) :=
  if r.options.checkOutdated then
    (Outdated.checkIn s.lookups r.lookup (m.lookedUp r.options)).mapError .lookup
  else .ok ([], [])

/-- The duration of an audit in seconds. -/
def durationMember (t : Timing) : Table Json :=
  t.milliseconds.elim [] fun n => [("duration_seconds", .real (.ofDecimal false n (-3)))]

/-- The number of files that had to be searched for phrases. -/
def degradedCount (ws : List Warning) : Nat :=
  (ws.filter fun w => w.kind == .degradedExtraction).length

/-- The metadata of a report. -/
def metadata (r : Request) (m : Material) (ws : List Warning) : Table Json :=
  [("analyzed_at", .str r.timing.startedAt)] ++ durationMember r.timing ++ [
    ("scope", .str r.options.scope.name),
    ("files_analyzed", .ofNat m.files.length),
    ("degraded_files", .ofNat (degradedCount ws)),
    ("project_name", .ofText? m.manifest.name),
    ("node_modules_present", .bool m.installed.present),
    ("used", .ofTexts (Text.sortTexts ((m.facts r.options).used.map Declared.name)))]

/-- How many issues of a kind there are. -/
def count (kind : IssueKind) (issues : List Issue) : Nat :=
  (Recommendation.ofKind kind issues).length

/-- The health that some issues leave. -/
def healthOf (issues : List Issue) : Health := .ofCounts {
  unused := count .unused issues
  missing := count .missing issues
  peerConflicts := count .peerConflict issues
  cycles := count .circularImport issues }

/-- The report about what has been read, the packages looked up as a schedule
has it. -/
def reportIn (s : Schedule) (r : Request) (m : Material) : Except AuditError Report := do
  let issues := m.issues r.options
  let (outdated, lookupWarnings) ← outdatedIn s r m
  let warnings := m.warnings r.options ++ lookupWarnings
  return {
    root := m.root
    issues
    graph := m.graph.toJson m.root
    cycles := .arr (m.graph.cycles.map fun c => .ofTexts (c.map fun n => Path.relative n m.root))
    peers := (m.peers? r.options).elim .null Peer.Analysis.toJson
    declared := m.manifest.dependencies
    outdated
    health := (healthOf issues).table
    metadata := metadata r m warnings
    warnings
    categories := Category.table m.manifest.dependencies
    recommendations := Recommendation.table (Recommendation.ofIssues issues outdated) }

/-- The report about what has been read. -/
def report (r : Request) (m : Material) : Except AuditError Report := reportIn .inOrder r m

/-- Audits a project, the work being completed as a schedule has it. -/
def runIn (s : Schedule) (r : Request) : Except AuditError Report := do
  reportIn s r (← readIn s r)

/-- Audits a project. -/
def run (r : Request) : Except AuditError Report := runIn .inOrder r

end Audit

end PackageAudit
