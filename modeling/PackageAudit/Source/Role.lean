/-
PackageAudit.Source.Role — which files of a project are tests or
configuration.

They are told by their paths: by a folder for tests, or by what stands
before the extension of the file.
-/
import PackageAudit.Path

namespace PackageAudit.Source

/-- Folders of tests, mocks and stories. -/
def testFolders : List String := [
  "__tests__", "__mocks__", "test", "tests", "spec", "specs", "e2e", "cypress", ".storybook",
  "stories"]

/-- What stands between two dots in the name of a test, a story or a
configuration. -/
def roleMarks : List String := ["test", "spec", "stories", "story", "cy", "e2e", "config"]

/-- The names of files that set up tests, without extension. -/
def setupNames : List String := ["setupTests", "jest.setup", "vitest.setup"]

/-- Without one line end at the end. -/
def withoutLineEnd (s : String) : String :=
  match s.toList.reverse with
  | '\n' :: rest => String.ofList rest.reverse
  | _ => s

/-- Some component is a folder of tests; a line end behind the last one does
not count. -/
def inTestFolder (components : List String) : Bool :=
  components.any testFolders.contains ||
    components.getLast?.any fun last => testFolders.contains (withoutLineEnd last)

/-- The beginning is followed by something. -/
def goesOn (start cs : List Char) : Bool :=
  match Text.rest? start cs with
  | some rest => !rest.isEmpty
  | none => false

/-- A mark between two dots is followed by something, somewhere. -/
def hasMark (mark : String) : List Char → Bool
  | [] => false
  | c :: cs => goesOn (("." ++ mark ++ ".").toList) (c :: cs) || hasMark mark cs

/-- A path, relative to the project, is that of a test or of configuration. -/
def isTestOrConfig (path : String) : Bool :=
  let components := Path.components path
  let file := (components.getLastD "").toList
  inTestFolder components || (roleMarks.any fun m => hasMark m file) ||
    setupNames.any fun s => goesOn ((s ++ ".").toList) file

end PackageAudit.Source
