/-
PackageAudit.Report.Summary — a report in a few lines.
-/
import PackageAudit.Report.Basic

namespace PackageAudit.Report

/-- A line of one character. -/
def rule (c : Char) : String := String.ofList (List.replicate 60 c)

/-- A text with blanks behind it up to a width. -/
def padded (width : Nat) (s : String) : String :=
  s ++ String.ofList (List.replicate (width - s.length) ' ')

/-- A line with a count. -/
def countLine (name : String) (n : Nat) : String := padded 16 (name ++ ":") ++ s!" {n}"

/-- The name and the count of a category, unless there is nothing in it. -/
def categoryText? (entry : String × Json) : Option String :=
  match entry.2.member? "count" with
  | some n => if n.holds then some (entry.1 ++ " " ++ n.display) else none
  | none => none

/-- The line about categories, if there are any. -/
def categoryLine (r : Report) : List String :=
  if r.categories.isEmpty then []
  else
    let shown := r.categories.filterMap categoryText?
    ["Categories: " ++ (if shown.isEmpty then "-" else ", ".intercalate shown)]

/-- The texts of the items of an array. -/
def itemTexts (v : Json) : List String := (v.items?.getD []).map Json.display

/-- The line about a recommendation. -/
def adviceLine (priority : String) (entry : Json) : String :=
  "[" ++ priority ++ "] " ++ ((entry.member? "title").getD .null).display ++ ": " ++
    ", ".intercalate (itemTexts ((entry.member? "packages").getD .null))

/-- The lines about recommendations. -/
def adviceLines (r : Report) : List String :=
  ["high", "medium", "low"].flatMap fun p =>
    (((r.recommendations.get? p).bind Json.items?).getD []).map (adviceLine p)

/-- The summary, text by text. The first one begins with an empty line. -/
def summaryLines (r : Report) : List String :=
  ["\n" ++ rule '=', "DEPENDENCY ANALYSIS", rule '=',
    "Project: " ++ r.title,
    "Scope: " ++ ((r.metadata.get? "scope").getD (.str "all")).display,
    "Files analyzed: " ++ r.fileCount.display,
    s!"Declared dependencies: {r.declared.length}",
    rule '-'] ++
  IssueKind.all.map (fun k => countLine k.name (r.ofKind k).length) ++
  (if r.outdated.isEmpty then [] else [countLine "outdated" r.outdated.length]) ++
  [rule '-', "Health score: " ++ ((r.health.get? "score").getD (.int 100)).display ++ "/100"] ++
  (itemTexts ((r.health.get? "issues").getD .null)).map (fun s => "  - " ++ s) ++
  r.categoryLine ++ r.adviceLines ++
  (if r.warnings.isEmpty then [] else [s!"Warnings: {r.warnings.length}"]) ++
  [rule '=']

end PackageAudit.Report
