/-
PackageAudit.Report.FixScript — a shell script that mends what can be mended
without thought.

Missing packages are installed as the type that their usages suggest.
Unused ones are removed only when the finding is sure.
-/
import PackageAudit.Report.Basic
import PackageAudit.Text.ShellWord

namespace PackageAudit.Report

/-- A command with the names of packages behind it. -/
def packageCommand (command : String) (names : List String) : String :=
  command ++ " " ++ " ".intercalate (names.map Text.ShellWord.encode)

/-- A command, unless there are no packages for it. -/
def commandFor (command : String) (names : List String) : List String :=
  if names.isEmpty then [] else [packageCommand command names]

/-- A part of a script: a message, commands and an empty line; nothing
without commands. -/
def part (message : String) (commands : List String) : List String :=
  if commands.isEmpty then [] else ["echo \"" ++ message ++ "\""] ++ commands ++ [""]

/-- A missing package is one for development. -/
def isForDevelopment (i : Issue) : Bool :=
  (i.details.get? "suggested_type").bind Json.string? == some "devDependencies"

/-- The missing packages, those for development or the others. -/
def missingNames (r : Report) (development : Bool) : List String :=
  ((r.ofKind .missing).filter fun i => isForDevelopment i == development).map Issue.name

/-- The packages that are surely unused. -/
def surelyUnused (r : Report) : List String :=
  ((r.ofKind .unused).filter fun i => i.confidence == .high).map Issue.name

/-- The parts that mend something. -/
def fixes (r : Report) : List String :=
  part "Installing missing dependencies..."
    (commandFor "npm install" (r.missingNames false) ++
      commandFor "npm install --save-dev" (r.missingNames true)) ++
  part "Removing unused dependencies..." (commandFor "npm uninstall" r.surelyUnused) ++
  part "Updating outdated packages..." (if r.outdated.isEmpty then [] else ["npm update"])

/-- When the audit began. -/
def startedAt (r : Report) : String := ((r.metadata.get? "analyzed_at").map Json.display).getD ""

/-- The head of the script. -/
def scriptHead (r : Report) : List String := [
  "#!/bin/bash", "# Dependency fix script for " ++ r.title, "# Generated on " ++ r.startedAt, "",
  "set -e", "", "cd " ++ Text.ShellWord.encode r.root, ""]

/-- The lines of the script. -/
def scriptLines (r : Report) : List String :=
  r.scriptHead ++ (if r.fixes.isEmpty then ["echo \"Nothing to fix.\"", ""] else r.fixes) ++
    ["echo \"Dependency fixes completed.\"", ""]

/-- The script. -/
def fixScript (r : Report) : String := "\n".intercalate r.scriptLines

end PackageAudit.Report
