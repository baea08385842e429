/-
PackageAudit.Dependency.Classification — the issues about single packages.

Declared packages that nothing uses are unused. Imported packages that are
not declared are phantoms when they are installed and missing otherwise.
Packages for development that other files than tests import are misplaced,
and so are packages of which only the type definitions are declared.
Packages of one role are duplicates.
-/
import PackageAudit.Dependency.Category
import PackageAudit.Dependency.Facts

namespace PackageAudit

namespace Facts

/-! ## 1. Unused packages -/

/-- The category of a package as a detail of an issue. -/
def categoryDetail (name : String) : String × Json :=
  ("category", .str (Category.ofPackage name).name)

/-- Why a declared package counts as unused. -/
def unusedReason (d : Declared) : String :=
  if d.type == .development then
    if Dependency.isTypes d.name then "Type definitions for a package that is not imported"
    else "Development dependency not referenced by sources, scripts or tool configs"
  else "Package not imported in any source file"

/-- The issue of an unused package. -/
def unusedIssue (d : Declared) : Issue := {
  kind := .unused
  name := d.name
  severity := if d.type == .production then .medium else .low
  confidence := if Dependency.isTypes d.name then .high
    else if Dependency.isTool d.name then .medium else .high
  remediation := "npm uninstall " ++ d.name
  details := [
    ("version", .str d.range), ("type", .str d.type.sectionName),
    ("reason", .str (unusedReason d)), categoryDetail d.name] }

/-- A declared package is looked at and not used. -/
def isUnused (f : Facts) (d : Declared) : Bool := !f.isUsed d.name && f.options.inScope d.type

/-- The issues of unused packages. -/
def unusedIssues (f : Facts) : List Issue :=
  (f.manifest.dependencies.filter f.isUnused).map unusedIssue

/-! ## 2. Undeclared packages -/

/-- The issue of an imported package that is neither declared nor
installed. -/
def missingIssue (name : String) (usages : List Usage) : Issue :=
  let type := Dependency.suggestedType name usages
  { kind := .missing
    name
    severity := if usages.length > 5 then .high else .medium
    confidence := if usages.length > 2 then .high else .medium
    evidence := usages
    remediation :=
      "npm install" ++ (if type == .development then " --save-dev" else "") ++ " " ++ name
    details := [("suggested_type", .str type.sectionName), categoryDetail name] }

/-- How grave it is that so many files use a package that is not declared. -/
def phantomRisk (files : Nat) : Level :=
  if files > 10 then .high else if files > 5 then .medium else .low

/-- The issue of an imported package that is installed and not declared. -/
def phantomIssue (f : Facts) (name : String) (usages : List Usage) : Issue :=
  let files := Text.sortedSet (usages.map Usage.file)
  let type := Dependency.suggestedType name usages
  { kind := .phantom
    name
    severity := phantomRisk files.length
    evidence := usages
    remediation := "Add " ++ name ++ " to " ++ type.sectionName
    details := [
      ("version", .ofText? ((f.installed.primary? name).map InstalledPackage.version)),
      ("used_in", .ofTexts files),
      ("provided_by", .ofTexts (f.installed.providerChain name f.manifest.declared.keys)),
      ("suggested_type", .str type.sectionName), categoryDetail name] }

/-- The issue of an imported package of which only the type definitions are
declared. -/
def typesOnlyIssue (name : String) (usages : List Usage) : Issue :=
  let types := Dependency.typesScope ++ Dependency.typesName name
  { kind := .misplaced
    name
    severity := .low
    confidence := .medium
    evidence := usages
    remediation := "Declare " ++ name ++ " next to " ++ types
    details := [("declared_in", .null), ("types_package", .str types), categoryDetail name] }

/-- The issues of an imported package that is not declared. -/
def undeclaredIssues (f : Facts) (name : String) (usages : List Usage) : List Issue :=
  let main :=
    if f.installed.present && f.installed.has name then f.phantomIssue name usages
    else missingIssue name usages
  if f.manifest.declares (Dependency.typesScope ++ Dependency.typesName name) then
    [main, typesOnlyIssue name usages]
  else [main]

/-! ## 3. Packages declared for development -/

/-- The issue of a package for development that the program itself imports,
given the usages outside of tests. -/
def developmentOnlyIssue (name : String) (usages : List Usage) : Issue := {
  kind := .misplaced
  name
  severity := .low
  confidence := .medium
  evidence := usages
  remediation := "Move " ++ name ++ " from devDependencies to dependencies"
  details := [
    ("declared_in", .str "devDependencies"), ("suggested_type", .str "dependencies"),
    categoryDetail name] }

/-- The issues of a declared package that is imported. -/
def declaredIssues (d : Declared) (usages : List Usage) : List Issue :=
  let runtime := usages.filter fun u => !Source.isTestOrConfig u.file
  if d.type != .development || runtime.isEmpty || Dependency.isTypes d.name then []
  else [developmentOnlyIssue d.name runtime]

/-- The issues of an imported package. -/
def importIssues (f : Facts) (name : String) (usages : List Usage) : List Issue :=
  if f.manifest.name == some name then []
  else match f.manifest.get? name with
    | some d => declaredIssues d usages
    | none => if Dependency.isTypes name then [] else f.undeclaredIssues name usages

/-- The issues of all imported packages, by name. -/
def usageIssues (f : Facts) : List Issue :=
  (Installed.byName f.usages).flatMap fun (name, usages) => f.importIssues name usages

/-! ## 4. Packages of one role -/

/-- Packages of which a project needs one. -/
def roleGroups : List (List String) := [
  ["lodash", "underscore", "ramda"],
  ["moment", "date-fns", "dayjs", "luxon"],
  ["axios", "node-fetch", "request", "superagent", "got"],
  ["react-router", "@reach/router"],
  ["styled-components", "@emotion/styled", "glamorous"]]

/-- The issue of several packages of one role. -/
def duplicateIssue (found : List Declared) : Issue :=
  let names := found.map Declared.name
  { kind := .duplicate
    name := " + ".intercalate names
    severity := .medium
    confidence := .medium
    remediation := "Consolidate on one of " ++ ", ".intercalate names
    details := [
      ("type", .str "functional"), categoryDetail (names.headD ""),
      ("packages", .arr (found.map fun d => .obj [
        ("name", .str d.name), ("version", .str d.range), ("type", .str d.type.sectionName)]))] }

/-- The issues of packages of one role. -/
def duplicateIssues (f : Facts) : List Issue :=
  ((roleGroups.map fun group => group.filterMap f.manifest.get?).filter fun found =>
    found.length ≥ 2).map duplicateIssue

/-! ## 5. All of them -/

/-- All issues about single packages. -/
def issues (f : Facts) : List Issue := f.unusedIssues ++ f.usageIssues ++ f.duplicateIssues

/-- The warning that phantoms cannot be told from missing packages. -/
def warnings (f : Facts) : List Warning :=
  if f.installed.present then []
  else [{
    kind := .missingContext
    message := "node_modules not found; undeclared imports are reported as missing"
    path := some f.project }]

end Facts

end PackageAudit
