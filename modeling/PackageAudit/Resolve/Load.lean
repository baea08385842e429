/-
PackageAudit.Resolve.Load — the configuration of the resolver.

Aliases given as options come first, then those of bundlers, then those of
the test runner.
-/
import PackageAudit.Options
import PackageAudit.Resolve.AliasConfig

namespace PackageAudit.ResolverConfig

/-- An alias given as an option. -/
def optionAlias (x : AliasConfig.Context) : List Json → Except ConfigError Alias
  | [.str key, .str target] => .ok (AliasConfig.plainAlias x .options key target target)
  | [.str _, target] => .error (.unexpectedValue target)
  | [key, _] => .error (.unexpectedValue key)
  | cells => .error (.aliasRow cells.length)

/-- The compiler configuration of a project. -/
def compilerConfig? (t : FileTree) (root : String) : Option String :=
  (["tsconfig.json", "jsconfig.json"].map (Path.join root)).find? t.isFile

/-- Loads the configuration of the resolver. -/
def load (t : FileTree) (project : String) (aliases : List (List Json))
    (reader : Script.Reader := Script.read) :
    Except ConfigError (ResolverConfig × List Warning) := do
  let root := Path.absolute "/" project
  let x : AliasConfig.Context := ⟨t, root, reader⟩
  let (baseUrl, pathMappings, warnings) ← match compilerConfig? t root with
    | some path => CompilerOptions.load t root path
    | none => pure (none, [], [])
  let given ← aliases.mapM (optionAlias x)
  let vite ← AliasConfig.ofBundler x .vite "vite.config"
  let vitest ← AliasConfig.ofBundler x .vite "vitest.config"
  let webpack ← AliasConfig.ofBundler x .webpack "webpack.config"
  let jest ← AliasConfig.ofTestRunner x
  let found := ((vite.append vitest).append webpack).append jest
  return ({ root, baseUrl, pathMappings, aliases := given ++ found.1 }, warnings ++ found.2)

end PackageAudit.ResolverConfig
