/-
PackageAudit.Version.Parser — reading a concrete version.

White space may stand around a version and around a run of `v` and `=`
before it. The three numbers may use the digits of any script. A prerelease
part and build metadata are dotted lists of non-empty identifiers over
ASCII letters, digits and the hyphen.
-/
import PackageAudit.Version.Basic
import PackageAudit.Json.Inspect
import PackageAudit.Text.Cut

namespace PackageAudit

/-- A value that is no version. -/
structure InvalidVersion where
  value : Json

/-- The message for a value that is no version. -/
def InvalidVersion.message (e : InvalidVersion) : String := s!"Invalid version: {e.value.inspect}"

namespace Version

/-- A character of a prerelease or build identifier. -/
def isIdentifierChar (c : Char) : Bool := c.isAlphanum || c == '-'

/-- A number of any length at the front and the rest. -/
def number? (cs : List Char) : Option (Nat × List Char) :=
  let ds := cs.takeWhile Text.isDecimal
  if ds.isEmpty then none else some (Text.decimalNumber ds, cs.drop ds.length)

/-- What follows a dot. -/
def afterDot? : List Char → Option (List Char)
  | '.' :: cs => some cs
  | _ => none

/-- A dotted list of identifiers at the front and the rest: the longest run
of its characters, in which no identifier is empty. -/
def identifiers? (cs : List Char) : Option (List String × List Char) :=
  let run := cs.takeWhile fun c => isIdentifierChar c || c == '.'
  let parts := Text.splitAt '.' run
  if parts.any (·.isEmpty) then none else some (parts.map String.ofList, cs.drop run.length)

/-- The optional prerelease part at the front. -/
def prerelease? : List Char → Option (List String × List Char)
  | '-' :: cs => identifiers? cs
  | cs => some ([], cs)

/-- What follows the optional build metadata. -/
def afterBuild? : List Char → Option (List Char)
  | '+' :: cs => (identifiers? cs).map (·.2)
  | cs => some cs

/-- Drops a run of `v` and `=`. -/
def dropMarks (cs : List Char) : List Char := cs.dropWhile fun c => c == 'v' || c == '='

/-- The version that a text writes. -/
def parse? (text : String) : Option Version := do
  let cs := Text.trimFront Text.isSpace (dropMarks (Text.trimFront Text.isSpace text.toList))
  let (major, cs) ← number? cs
  let (minor, cs) ← number? (← afterDot? cs)
  let (patch, cs) ← number? (← afterDot? cs)
  let (prerelease, cs) ← prerelease? cs
  let cs ← afterBuild? cs
  guard (cs.all Text.isSpace)
  return { major, minor, patch, prerelease }

/-- The version that a value writes. -/
def ofJson (value : Json) : Except InvalidVersion Version :=
  match value.string?.bind parse? with
  | some v => .ok v
  | none => .error ⟨value⟩

end Version

end PackageAudit
