/-
PackageAudit.Source.Language — what a source file is written in.
-/
import PackageAudit.Path
import PackageAudit.Script.Parser

namespace PackageAudit

/-- The kinds of source files. -/
inductive Language where
  | script
  | markup
  | stylesheet
  deriving DecidableEq, BEq, Repr, Inhabited

namespace Language

/-- The name of a kind of source file. -/
def name : Language → String
  | .script => "script"
  | .markup => "markup"
  | .stylesheet => "stylesheet"

/-- Extensions of scripts. -/
def scriptExtensions : List String :=
  [".js", ".jsx", ".mjs", ".cjs", ".ts", ".tsx", ".mts", ".cts"]

/-- Extensions of markup with scripts inside. -/
def markupExtensions : List String := [".vue", ".svelte"]

/-- Extensions of stylesheets. -/
def stylesheetExtensions : List String := [".css", ".scss", ".sass", ".less"]

/-- The language of a file by its extension. -/
def ofPath? (path : String) : Option Language :=
  let ext := Path.extension path
  if scriptExtensions.contains ext then some .script
  else if markupExtensions.contains ext then some .markup
  else if stylesheetExtensions.contains ext then some .stylesheet
  else none

end Language

/-- The dialect of a script by its extension. -/
def Script.Dialect.ofPath (path : String) : Script.Dialect :=
  let ext := Path.extension path
  if ext == ".tsx" then .tsx
  else if [".ts", ".mts", ".cts"].contains ext then .typescript
  else .javascript

/-- The name of a dialect. -/
def Script.Dialect.name : Script.Dialect → String
  | .javascript => "javascript"
  | .typescript => "typescript"
  | .tsx => "tsx"

end PackageAudit
