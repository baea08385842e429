/-
PackageAudit.Dependency.Category — what packages are for, by keywords in
their names.
-/
import PackageAudit.Manifest.Basic

namespace PackageAudit

/-- What a package is for. -/
inductive Category where
  | frontend
  | backend
  | devtools
  | testing
  | build
  | other
  deriving DecidableEq, BEq, Repr, Inhabited

namespace Category

/-- All categories. The first one with a keyword in a name is its category. -/
def all : List Category := [.frontend, .backend, .devtools, .testing, .build, .other]

/-- The name of a category. -/
def name : Category → String
  | .frontend => "frontend"
  | .backend => "backend"
  | .devtools => "devtools"
  | .testing => "testing"
  | .build => "build"
  | .other => "other"

/-- The keywords of a category. -/
def keywords : Category → List String
  | .frontend => [
    "react", "vue", "angular", "svelte", "preact", "solid-js",
    "next", "nuxt", "remix", "gatsby", "astro"]
  | .backend => [
    "express", "koa", "fastify", "hapi", "nest", "loopback",
    "mongoose", "sequelize", "typeorm", "prisma"]
  | .devtools => [
    "eslint", "prettier", "webpack", "vite", "rollup", "parcel",
    "babel", "postcss", "autoprefixer", "tailwindcss"]
  | .testing => [
    "jest", "vitest", "mocha", "chai", "cypress", "playwright",
    "testing-library", "test", "spec"]
  | .build => [
    "typescript", "@types/", "ts-node", "tsx", "esbuild",
    "terser", "uglify", "clean-css"]
  | .other => []

/-- The category of a package. -/
def ofPackage (package : String) : Category :=
  (all.find? fun c => c.keywords.any (Text.contains package)).getD .other

/-- The declared dependencies of a category. -/
def members (c : Category) (declared : List Declared) : List Declared :=
  declared.filter fun d => ofPackage d.name == c

/-- One category of some dependencies as a report shows it. -/
def memberJson (declared : List Declared) (c : Category) : String × Json :=
  let found := c.members declared
  (c.name, .obj [
    ("count", .ofNat found.length),
    ("packages", .arr (found.map fun d => .obj [
      ("name", .str d.name), ("version", .str d.range), ("type", .str d.type.name)]))])

/-- All categories of some dependencies as a report shows them. -/
def table (declared : List Declared) : Table Json := all.map (memberJson declared)

end Category

end PackageAudit
