/-
PackageAudit.Dependency.Name — what the name of a package tells about it.

Type definitions of a package have a name of their own, in which a scope is
written before two underscores. Names of development tools are known, or
have a mark in them.
-/
import PackageAudit.Issue
import PackageAudit.Manifest.Basic
import PackageAudit.Source.Role

namespace PackageAudit.Dependency

/-! ## 1. Type definitions -/

/-- The scope of type definitions. -/
def typesScope : String := "@types/"

/-- The name is that of type definitions. -/
def isTypes (name : String) : Bool := Text.begins typesScope name

/-- Two underscores stand at the front. -/
def atUnderscores : List Char → Bool
  | '_' :: '_' :: _ => true
  | _ => false

/-- The parts before and behind the first two underscores. -/
def cutUnderscores : List Char → Option (List Char × List Char)
  | [] => none
  | c :: cs =>
    if atUnderscores (c :: cs) then some ([], cs.drop 1)
    else (cutUnderscores cs).map fun (before, behind) => (c :: before, behind)

/-- The package that type definitions describe. -/
def typesTarget? (name : String) : Option String :=
  (Text.after? typesScope name).map fun base =>
    match cutUnderscores base.toList with
    | some (scope, rest) => "@" ++ String.ofList scope ++ "/" ++ String.ofList rest
    | none => base

/-- The name of the type definitions of a package, without their scope. -/
def typesName (name : String) : String :=
  match Text.after? "@" name with
  | some rest => String.ofList (Text.replaceChar '/' ['_', '_'] rest.toList)
  | none => name

/-! ## 2. Tools -/

/-- The last component of a name. -/
def lastPart (name : String) : String := (Path.components name).getLastD ""

/-- Names of tools. -/
def toolNames : List String := [
  "typescript", "eslint", "prettier", "jest", "vitest", "mocha", "chai",
  "karma", "ava", "cypress", "playwright", "@playwright/test", "ts-node",
  "tsx", "nodemon", "husky", "lint-staged", "webpack", "webpack-cli",
  "vite", "rollup", "esbuild", "parcel", "babel", "@babel/core",
  "postcss", "autoprefixer", "tailwindcss", "stylelint", "concurrently",
  "rimraf", "cross-env", "npm-run-all", "semantic-release", "commitizen",
  "nyc", "c8", "standard", "xo", "turbo", "lerna", "nx", "storybook"]

/-- Parts of the names of tools. -/
def toolMarks : List String := ["plugin", "preset", "loader", "-cli", "@commitlint/", "@storybook/"]

/-- The name looks like that of a tool. -/
def isTool (name : String) : Bool :=
  toolNames.contains name || toolNames.contains (lastPart name) ||
    toolMarks.any (Text.contains name)

/-! ## 3. Where to declare -/

/-- Beginnings of the names of packages for development. -/
def developmentStarts : List String := [
  "@types/", "eslint", "prettier", "jest", "vitest", "@testing-library/",
  "mocha", "chai", "sinon", "cypress", "playwright", "@playwright/",
  "typescript", "ts-node", "webpack", "vite", "rollup", "@babel/", "babel-",
  "stylelint", "@storybook/", "husky", "lint-staged"]

/-- The type that a package should be declared with: for development by its
name, or when nothing but tests and configuration use it. -/
def suggestedType (name : String) (usages : List Usage) : DependencyType :=
  if developmentStarts.any fun start => Text.begins start name then .development
  else if !usages.isEmpty && usages.all fun u => Source.isTestOrConfig u.file then .development
  else .production

end PackageAudit.Dependency
