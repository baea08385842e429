/-
PackageAudit.Resolve.Specifier — what a module specifier names.

A specifier is relative, the name of a runtime module, an address, or it
begins with the name of a package: two components after an at sign, else
one.
-/
import PackageAudit.Path

namespace PackageAudit

/-- What a specifier stands for: a package (or a runtime module or address,
which need not be installed), or a file of the project. -/
inductive ModuleId where
  | external (name : String) (builtin : Bool)
  | file (path : String)
  deriving DecidableEq, BEq, Repr, Inhabited

namespace Specifier

/-- The modules of the runtime. -/
def builtins : List String := [
  "assert", "async_hooks", "buffer", "child_process", "cluster", "console",
  "constants", "crypto", "dgram", "diagnostics_channel", "dns", "domain",
  "events", "fs", "http", "http2", "https", "inspector", "module", "net",
  "os", "path", "perf_hooks", "process", "punycode", "querystring",
  "readline", "repl", "stream", "string_decoder", "sys", "timers", "tls",
  "trace_events", "tty", "url", "util", "v8", "vm", "wasi",
  "worker_threads", "zlib"]

/-- The package part of a specifier. -/
def packageName (s : String) : String :=
  if Text.begins "@" s then Path.ofComponents ((Path.components s).take 2)
  else (Path.components s).headD ""

/-- The specifier names a module of the runtime. -/
def isBuiltin (s : String) : Bool :=
  Text.begins "node:" s || (!Text.begins "@" s && builtins.contains (packageName s))

/-- The specifier names a file by its place. -/
def isRelative (s : String) : Bool :=
  s == "." || s == ".." || Text.begins "./" s || Text.begins "../" s || Text.begins "/" s

/-- The text before the first `mark` that is not its first character. -/
def cutBefore (mark : Char) : List Char → List Char
  | [] => []
  | c :: cs => c :: cs.takeWhile (· != mark)

/-- Without a query and a fragment; a leading number sign belongs to the
name. -/
def stripQuery (s : String) : String :=
  String.ofList (cutBefore '#' (cutBefore '?' s.toList))

/-- A character of a scheme behind its first letter. -/
def isSchemeChar (c : Char) : Bool := c.isAlphanum || c == '+' || c == '.' || c == '-'

/-- The specifier begins with a scheme of at least two characters. -/
def hasScheme (s : String) : Bool :=
  match s.toList with
  | c :: cs =>
    let more := cs.takeWhile isSchemeChar
    c.isAlpha && !more.isEmpty && (cs.drop more.length).head? == some ':'
  | [] => false

/-- The specifier is an address. -/
def isAddress (s : String) : Bool := hasScheme s || Text.begins "//" s

/-- What a specifier stands for when it names no file. -/
def external (s : String) : ModuleId := .external (packageName s) (isBuiltin s)

end Specifier

end PackageAudit
