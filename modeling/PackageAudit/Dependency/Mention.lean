/-
PackageAudit.Dependency.Mention — packages named outside of imports.

Scripts of a manifest run tools, and the configuration files of tools name
presets and plugins, in full or by a short name without the usual beginning.
A full name counts anywhere in a text where it is not part of a longer name
or a path; a short one only between quotes.
-/
import PackageAudit.Dependency.Name
import PackageAudit.FileTree.Basic
import PackageAudit.Text.Glob

namespace PackageAudit.Dependency

/-! ## 1. Scripts -/

/-- A character that ends a word of a command. -/
def endsWord (c : Char) : Bool :=
  Text.isSpace c || c == ';' || c == '&' || c == '|' || c == '(' || c == ')' || c == '='

/-- The words of a command. At an end of the command where no word stands
there is an empty one. -/
def commandWords (command : String) : List String :=
  let cs := command.toList
  let open_ := fun (c : Option Char) => (c.map endsWord).getD true
  (if open_ cs.head? || open_ cs.getLast? then [""] else []) ++
    (Text.fieldsBy endsWord cs).map String.ofList

/-- A script runs a package, by its name or the last part of it. -/
def runBy (name command : String) : Bool :=
  (commandWords command).any fun w => w == name || w == lastPart name

/-! ## 2. Configuration files of tools -/

/-- The names of such files. -/
def toolConfigPatterns : List String := [
  ".babelrc", ".babelrc.*", "babel.config.*",
  ".eslintrc", ".eslintrc.*", "eslint.config.*",
  ".prettierrc", ".prettierrc.*", "prettier.config.*",
  "postcss.config.*", "tailwind.config.*",
  "jest.config.*", "vitest.config.*",
  "webpack.config.*", "vite.config.*", "rollup.config.*",
  "tsconfig.json", "tsconfig.*.json"]

/-- The name is that of a configuration file of a tool. -/
def isToolConfig (name : String) : Bool :=
  toolConfigPatterns.any fun p => Text.globMatches p name

/-- The text of a file, if it can be read. -/
def fileText? (t : FileTree) (path : String) : Option String :=
  if t.isFile path then
    match t.readLenient path with
    | .ok text => some text
    | .error _ => none
  else none

/-- The texts of the configuration files of tools in a folder. -/
def toolConfigTexts (t : FileTree) (folder : String) : List String :=
  match t.list folder with
  | .ok names => (names.filter isToolConfig).filterMap fun n => fileText? t (Path.join folder n)
  | .error _ => []

/-! ## 3. Names in texts -/

/-- A character that goes on with a name to the left. -/
def continuesLeft (c : Char) : Bool :=
  Text.isWord c || c == '@' || c == '/' || c == '.' || c == '-'

/-- A character that goes on with a name to the right. -/
def continuesRight (c : Char) : Bool := Text.isWord c || c == '-'

/-- A name stands at the front and does not go on. -/
def nameAt (name cs : List Char) : Bool :=
  match Text.rest? name cs with
  | some rest => !rest.head?.any continuesRight
  | none => false

/-- A name stands somewhere and does not go on to either side; `inName` says
that the character to the left goes on with a name. -/
def mentionsFrom (name : List Char) : Bool → List Char → Bool
  | inName, [] => !inName && nameAt name []
  | inName, c :: cs =>
    (!inName && nameAt name (c :: cs)) || mentionsFrom name (continuesLeft c) cs

/-- A text mentions a package by its full name. -/
def mentions (text name : String) : Bool := mentionsFrom name.toList false text.toList

/-- A quote. -/
def isQuote (c : Char) : Bool := c == '"' || c == '\''

/-- A name stands at the front, and a quote or a slash behind it. -/
def closedName (name cs : List Char) : Bool :=
  match Text.rest? name cs with
  | some rest => rest.head?.any fun c => isQuote c || c == '/'
  | none => false

/-- A name stands at the front, possibly behind the word for plugins. -/
def quotedNameAt (name cs : List Char) : Bool :=
  closedName name cs ||
    match Text.rest? "plugin:".toList cs with
    | some rest => closedName name rest
    | none => false

/-- A name stands behind a quote somewhere. -/
def quotesName (name : List Char) : List Char → Bool
  | [] => false
  | c :: cs => (isQuote c && quotedNameAt name cs) || quotesName name cs

/-- Beginnings that short names leave out. -/
def shortNameStarts : List String := [
  "eslint-plugin-", "eslint-config-", "prettier-plugin-",
  "@babel/preset-", "@babel/plugin-", "babel-preset-", "babel-plugin-"]

/-- The short names of a package. -/
def shortNames (name : String) : List String :=
  (shortNameStarts.filterMap fun start => Text.after? start name).filter fun s => !s.isEmpty

/-- A text of a configuration file names a package. -/
def namedIn (name text : String) : Bool :=
  mentions text name || (shortNames name).any fun s => quotesName s.toList text.toList

end PackageAudit.Dependency
