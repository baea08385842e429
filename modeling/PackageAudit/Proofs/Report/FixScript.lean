/-
PackageAudit.Proofs.Report.FixScript — what the script of a report does.

The names in a report, the place of the project and its title come from files
that nobody has checked. The script quotes names and place, so whatever they
are, a shell reads the commands that are meant (`Report.plan`) and each text as
one word. The title and the time stand in comments and are not quoted. A
comment ends with its line: of a title of several lines all but the first are
commands, which run before all others (`commands_fixScript`,
`title_line_is_command`).
-/
import PackageAudit.Proofs.Shell.Reading
import PackageAudit.Report.FixScript

namespace PackageAudit.Report

open PackageAudit.Shell

/-! ## 1. The commands that are meant -/

/-- A command on packages, unless there are none. -/
def commandOn (command names : List String) : List (List String) :=
  if names.isEmpty then [] else [command ++ names]

/-- Commands behind a message, unless there are none. -/
def announced (message : String) (commands : List (List String)) : List (List String) :=
  if commands.isEmpty then [] else ["echo", message] :: commands

/-- The commands that mend something. -/
def mending (r : Report) : List (List String) :=
  announced "Installing missing dependencies..."
    (commandOn ["npm", "install"] (r.missingNames false) ++
      commandOn ["npm", "install", "--save-dev"] (r.missingNames true)) ++
  announced "Removing unused dependencies..." (commandOn ["npm", "uninstall"] r.surelyUnused) ++
  announced "Updating outdated packages..."
    (if r.outdated.isEmpty then [] else [["npm", "update"]])

/-- The commands of the script. -/
def plan (r : Report) : List (List String) :=
  [["set", "-e"], ["cd", r.root]] ++
    (if r.mending.isEmpty then [["echo", "Nothing to fix."]] else r.mending) ++
    [["echo", "Dependency fixes completed."]]

/-- The lines of a text behind the first one. -/
def laterLines (text : String) : String := String.ofList (Text.cutAt '\n' text.toList).2

/-! ## 2. Lines and commands -/

/-- Lines are read as commands, and there are lines only if there are commands. -/
structure Renders (lines : List String) (commands : List (List String)) : Prop where
  reads : ReadsTo (lineText lines) commands
  eq_nil_iff : lines = [] ↔ commands = []

theorem renders_nil : Renders [] [] := ⟨rfl, by simp⟩

theorem Renders.isEmpty_eq {lines : List String} {commands : List (List String)}
    (h : Renders lines commands) : lines.isEmpty = commands.isEmpty := by
  rw [Bool.eq_iff_iff, List.isEmpty_iff, List.isEmpty_iff, h.eq_nil_iff]

theorem Renders.append {lines more : List String} {commands others : List (List String)}
    (h : Renders lines commands) (hmore : Renders more others) :
    Renders (lines ++ more) (commands ++ others) where
  reads := by
    rw [lineText_append]
    exact h.reads.append hmore.reads
  eq_nil_iff := by
    rw [List.append_eq_nil_iff, List.append_eq_nil_iff, h.eq_nil_iff, hmore.eq_nil_iff]

theorem renders_encoded {words : List String} (hcommand : isCommand words = true) {line : String}
    (hline : " ".intercalate (words.map Text.ShellWord.encode) = line) : Renders [line] [words] :=
  ⟨hline ▸ readsTo_encoded hcommand, by simp⟩

/-- The message of a script is one word. -/
theorem renders_echo {message line : String} (h : message.toList.all isLiteral = true)
    (hline : "echo \"" ++ message ++ "\"" = line) : Renders [line] [["echo", message]] where
  reads := by
    have hecho : ReadsAs "echo".toList "echo".toList := readsAs_encode "echo"
    have hmessage := readsAs_doubleQuotes h
    have hcommand : isCommand ["echo", message] = true := rfl
    have hwords := readsTo_words (.cons hecho (.cons hmessage .nil)) hcommand
    rw [← hline]
    simpa [lineText, List.intercalate_cons_cons] using hwords
  eq_nil_iff := by simp

/-- The line of a command on packages. -/
theorem renders_commandFor {command : List String} {names : List String} {text : String}
    (hcommand : isCommand command = true)
    (htext : " ".intercalate (command.map Text.ShellWord.encode) = text) :
    Renders (commandFor text names) (commandOn command names) := by
  rw [commandFor, commandOn]
  split
  · exact renders_nil
  · rename_i hnames
    have hne : command ≠ [] := by
      rintro rfl
      cases hcommand
    refine renders_encoded ?_ ?_
    · cases command with
      | nil => exact absurd rfl hne
      | cons word command => exact hcommand
    · rw [packageCommand, ← htext, List.map_append, String.intercalate_append_of_ne_nil]
      · simpa using hne
      · simpa using hnames

/-- A part of the script. -/
theorem Renders.part {message : String} (hmessage : message.toList.all isLiteral = true)
    {lines : List String} {commands : List (List String)} (h : Renders lines commands) :
    Renders (part message lines) (announced message commands) := by
  rw [Report.part, announced, h.isEmpty_eq]
  split
  · exact renders_nil
  · refine ⟨?_, by simp⟩
    have hlast : ReadsTo ['\n'] [] := rfl
    have hbody := ((renders_echo hmessage rfl).append h).reads.append hlast
    simpa [lineText] using hbody

theorem renders_fixes (r : Report) : Renders r.fixes r.mending := by
  have hinstall : Renders (commandFor "npm install" (r.missingNames false))
      (commandOn ["npm", "install"] (r.missingNames false)) :=
    renders_commandFor rfl (by decide)
  have hdevelopment : Renders (commandFor "npm install --save-dev" (r.missingNames true))
      (commandOn ["npm", "install", "--save-dev"] (r.missingNames true)) :=
    renders_commandFor rfl (by decide)
  have hremove : Renders (commandFor "npm uninstall" r.surelyUnused)
      (commandOn ["npm", "uninstall"] r.surelyUnused) :=
    renders_commandFor rfl (by decide)
  have hupdate : Renders (if r.outdated.isEmpty then [] else ["npm update"])
      (if r.outdated.isEmpty then [] else [["npm", "update"]]) := by
    split
    · exact renders_nil
    · exact renders_encoded rfl (by decide)
  exact (((hinstall.append hdevelopment).part (by decide)).append (hremove.part (by decide))).append
    (hupdate.part (by decide))

/-! ## 3. The script -/

/-- The lines of the script behind its comments, the last end of line aside. -/
def body (r : Report) : List String :=
  ["", "set -e", "", "cd " ++ Text.ShellWord.encode r.root, ""] ++
    (if r.fixes.isEmpty then ["echo \"Nothing to fix.\"", ""] else r.fixes) ++
    ["echo \"Dependency fixes completed.\""]

theorem readsTo_body (r : Report) : ReadsTo (lineText r.body) r.plan := by
  have hempty : ReadsTo (lineText [""]) [] := rfl
  have hset : ReadsTo (lineText ["set -e"]) [["set", "-e"]] :=
    (renders_encoded rfl (by decide)).reads
  have hcd : ReadsTo (lineText ["cd " ++ Text.ShellWord.encode r.root]) [["cd", r.root]] := by
    have hword : Text.ShellWord.encode "cd" = "cd" := by decide
    refine (renders_encoded rfl ?_).reads
    simp [hword, String.intercalate_cons_cons]
  have hnothing : Renders ["echo \"Nothing to fix.\""] [["echo", "Nothing to fix."]] :=
    renders_echo (by decide) (by decide)
  have hlast : Renders ["echo \"Dependency fixes completed.\""]
      [["echo", "Dependency fixes completed."]] :=
    renders_echo (by decide) (by decide)
  have hfixes : ReadsTo
      (lineText (if r.fixes.isEmpty then ["echo \"Nothing to fix.\"", ""] else r.fixes))
      (if r.mending.isEmpty then [["echo", "Nothing to fix."]] else r.mending) := by
    rw [(renders_fixes r).isEmpty_eq]
    split
    · exact hnothing.reads.append hempty
    · exact (renders_fixes r).reads
  have hhead := (((hempty.append hset).append hempty).append hcd).append hempty
  have hall := (hhead.append hfixes).append hlast.reads
  rw [body, plan, lineText_append, lineText_append]
  simpa only [← lineText_append, List.cons_append, List.nil_append] using hall

theorem toList_fixScript (r : Report) : r.fixScript.toList =
    lineText ["#!/bin/bash", "# Dependency fix script for " ++ r.title,
      "# Generated on " ++ r.startedAt] ++ lineText r.body := by
  have hlines : r.scriptLines = (["#!/bin/bash", "# Dependency fix script for " ++ r.title,
      "# Generated on " ++ r.startedAt] ++ r.body) ++ [""] := by
    simp only [scriptLines, scriptHead, body, List.append_assoc, List.cons_append, List.nil_append]
  rw [fixScript, hlines, toList_intercalate_lines, lineText_append]

/-- The further lines of the title and of the time are commands before all others. -/
theorem commands?_of_laterLines {r : Report} {inTitle inTime : List (List String)}
    (htitle : commands? (laterLines r.title) = some inTitle)
    (htime : commands? (laterLines r.startedAt) = some inTime) :
    commands? r.fixScript = some (inTitle ++ inTime ++ r.plan) := by
  have hfirst : ReadsTo (lineText ["#!/bin/bash"]) [] :=
    readsTo_comment (show '\n' ∉ "!/bin/bash".toList by decide)
  have hsecond := readsTo_commented " Dependency fix script for " (by decide) htitle
  have hthird := readsTo_commented " Generated on " (by decide) htime
  have hall := ((hfirst.append hsecond).append hthird).append (readsTo_body r)
  refine commands?_of_readsTo ?_
  rw [toList_fixScript]
  simpa [lineText] using hall

/-- Behind a single line there is nothing to be read. -/
theorem commands?_laterLines_of_single {text : String} (h : '\n' ∉ text.toList) :
    commands? (laterLines text) = some [] := by
  have hnone : text.toList.dropWhile (· != '\n') = [] := by
    rw [List.dropWhile_eq_nil_iff]
    intro c hc
    have hne : c ≠ '\n' := by
      rintro rfl
      exact h hc
    simpa using hne
  rw [laterLines, Text.cutAt, hnone]
  rfl

/-- **Fix scripts.** A shell reads the commands that are meant, and each name and
the place of the project as one word, whatever they are, if the title and the time
of the report are single lines. Further lines of these are commands of their own. -/
theorem commands_fixScript (r : Report) :
    ('\n' ∉ r.title.toList → '\n' ∉ r.startedAt.toList → commands? r.fixScript = some r.plan) ∧
    ∀ inTitle inTime, commands? (laterLines r.title) = some inTitle →
      commands? (laterLines r.startedAt) = some inTime →
      commands? r.fixScript = some (inTitle ++ inTime ++ r.plan) := by
  constructor
  · intro htitle htime
    exact commands?_of_laterLines (commands?_laterLines_of_single htitle)
      (commands?_laterLines_of_single htime)
  · intro inTitle inTime htitle htime
    exact commands?_of_laterLines htitle htime

/-- A report in which names and place are made to break out of their words. -/
def hostileNames : Report where
  root := "/work/it's\n$(here)"
  issues := [
    { kind := .missing, name := "a; rm -rf ~", severity := .high },
    { kind := .missing, name := "b\nrm c", severity := .low,
      details := [("suggested_type", .str "devDependencies")] },
    { kind := .unused, name := "'d' # e", severity := .medium },
    { kind := .unused, name := "kept", severity := .medium, confidence := .medium }]
  metadata := [("project_name", .str "app"), ("analyzed_at", .str "2024-05-01T10:00:00+00:00")]

/-- A report about a project with a title of two lines. -/
def titleOfTwoLines : Report where
  root := "/work/app"
  metadata := [("project_name", .str "app\nrm -rf src")]

theorem commands_fixScript_hostileNames :
    '\n' ∉ hostileNames.title.toList ∧ '\n' ∉ hostileNames.startedAt.toList ∧
    commands? hostileNames.fixScript = some hostileNames.plan ∧
    hostileNames.plan = [
      ["set", "-e"], ["cd", "/work/it's\n$(here)"],
      ["echo", "Installing missing dependencies..."], ["npm", "install", "a; rm -rf ~"],
      ["npm", "install", "--save-dev", "b\nrm c"],
      ["echo", "Removing unused dependencies..."], ["npm", "uninstall", "'d' # e"],
      ["echo", "Dependency fixes completed."]] ∧
    commands? (laterLines titleOfTwoLines.title) = some [["rm", "-rf", "src"]] ∧
    commands? (laterLines titleOfTwoLines.startedAt) = some [] ∧
    commands? titleOfTwoLines.fixScript = some (["rm", "-rf", "src"] :: titleOfTwoLines.plan) := by
  have htitle : '\n' ∉ hostileNames.title.toList := by decide
  have htime : '\n' ∉ hostileNames.startedAt.toList := by decide
  have hlater : commands? (laterLines titleOfTwoLines.title) = some [["rm", "-rf", "src"]] := by
    decide
  have hnone : commands? (laterLines titleOfTwoLines.startedAt) = some [] := by decide
  exact ⟨htitle, htime, (commands_fixScript hostileNames).1 htitle htime, by decide, hlater, hnone,
    (commands_fixScript titleOfTwoLines).2 _ _ hlater hnone⟩

/-- The second line of a title is a command of the script. -/
theorem title_line_is_command :
    commands? titleOfTwoLines.fixScript = some (["rm", "-rf", "src"] :: titleOfTwoLines.plan) ∧
    commands? titleOfTwoLines.fixScript ≠ some titleOfTwoLines.plan := by
  have htitle : commands? (laterLines titleOfTwoLines.title) = some [["rm", "-rf", "src"]] := by
    decide
  have htime : commands? (laterLines titleOfTwoLines.startedAt) = some [] := by decide
  have hread := commands?_of_laterLines htitle htime
  refine ⟨hread, fun hplan => ?_⟩
  have hlength := congrArg List.length (Option.some.inj (hread.symm.trans hplan))
  simp at hlength

end PackageAudit.Report
