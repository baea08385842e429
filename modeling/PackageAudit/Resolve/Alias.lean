/-
PackageAudit.Resolve.Alias — names that stand for other names.

An alias replaces a specifier that equals its key, begins with it, fits it
as a pattern with one star, or matches it as a regular expression. Of a
regular expression some sources put the target in place of the whole
specifier, the others only in place of what was matched.
-/
import PackageAudit.Regex.Literal
import PackageAudit.Text.Cut

namespace PackageAudit

/-- How the key of an alias is compared. -/
inductive AliasKind where
  | exact
  | ofPrefix
  | wildcard
  | regex
  deriving DecidableEq, BEq, Repr, Inhabited

namespace AliasKind

/-- The name of a kind. -/
def name : AliasKind → String
  | .exact => "exact"
  | .ofPrefix => "prefix"
  | .wildcard => "wildcard"
  | .regex => "regex"

/-- The kind of a name; what has no other name is a regular expression. -/
def ofName (s : String) : AliasKind :=
  if s == "exact" then .exact
  else if s == "prefix" then .ofPrefix
  else if s == "wildcard" then .wildcard
  else .regex

end AliasKind

/-- Where an alias comes from. -/
inductive AliasSource where
  | options
  | vite
  | webpack
  | jest
  deriving DecidableEq, BEq, Repr, Inhabited

namespace AliasSource

/-- The name of a source. -/
def name : AliasSource → String
  | .options => "options"
  | .vite => "vite"
  | .webpack => "webpack"
  | .jest => "jest"

/-- The source of a name. -/
def ofName (s : String) : AliasSource :=
  ([vite, webpack, jest].find? fun a => a.name == s).getD .options

end AliasSource

/-- An alias. The target names a place in the file tree or a package. A
regular expression may have been read already. -/
structure Alias where
  key : String
  target : String
  kind : AliasKind
  isPath : Bool
  source : AliasSource
  pattern : Option Regex.Pattern := none
  deriving Inhabited

namespace Alias

/-- What a key says about its kind: a dollar sign at the end is for exact
keys, a star for wildcards. -/
def kindOf (key : String) : String × AliasKind :=
  if Text.ends "$" key then (String.ofList key.toList.dropLast, .exact)
  else if key.toList.contains '*' then (key, .wildcard)
  else (key, .ofPrefix)

/-! ## 1. Stars -/

/-- What a star stands for when a text fits a pattern with one star. -/
def star? (pattern text : List Char) : Option (List Char) :=
  let (front, back) := Text.cutAt '*' pattern
  if front.isPrefixOf text && back.isSuffixOf text && front.length + back.length ≤ text.length then
    some ((text.drop front.length).take (text.length - front.length - back.length))
  else none

/-- Puts a text in the place of the first star. -/
def fillStar (star : List Char) (target : String) : String :=
  String.ofList (Text.replaceFirstChar '*' star target.toList)

/-! ## 2. References to groups -/

/-- The text that a reference to a group stands for; without the group it is
empty. -/
def groupText (m : Regex.Match) (p : Regex.Pattern) (whole name : List Char) : List Char :=
  if name.all Text.isDecimal then
    let index := Text.decimalNumber name
    if index == 0 then whole
    else ((m.group? index).getD "").toList
  else ((p.named? m (String.ofList name)).getD "").toList

/-- The name in a reference at the front, behind its dollar sign, and how
many characters it takes. -/
def reference? (cs : List Char) : Option (List Char × Nat) :=
  let digits := cs.takeWhile Text.isDecimal
  if !digits.isEmpty then some (digits, digits.length)
  else match cs with
    | '<' :: rest =>
      let name := rest.takeWhile Text.isWord
      if !name.isEmpty && (rest.drop name.length).head? == some '>' then
        some (name, name.length + 2)
      else none
    | _ => none

/-- A target with the texts of groups in it; `skip` counts the characters of
a reference that are still to be passed over. -/
def fillGroups (text : List Char → List Char) : Nat → List Char → List Char
  | _, [] => []
  | skip + 1, _ :: cs => fillGroups text skip cs
  | 0, c :: cs =>
    if c == '$' then
      match reference? cs with
      | some (name, n) => text name ++ fillGroups text n cs
      | none => c :: fillGroups text 0 cs
    else c :: fillGroups text 0 cs

/-! ## 3. Application -/

/-- A specifier that begins with the key. -/
def applyPrefix (key target spec : String) : Option String :=
  let base := Text.stripBackChar '/' target
  if spec == key then some target
  else
    let direct := if Text.ends "/" key then
        (Text.after? key spec).map fun rest => base ++ "/" ++ rest
      else none
    direct.or ((Text.after? (key ++ "/") spec).map fun rest => base ++ "/" ++ rest)

/-- A specifier that fits the key as a pattern. -/
def applyWildcard (key target spec : String) : Option String :=
  (star? key.toList spec.toList).map fun star =>
    if target.toList.contains '*' then fillStar star target
    else Text.stripBackChar '/' target ++ "/" ++ String.ofList star

/-- A specifier that the key matches as a regular expression. -/
def applyRegex (p : Regex.Pattern) (source : AliasSource) (target spec : String) : Option String :=
  (p.search spec).map fun m =>
    let cs := spec.toList
    let whole := (cs.take m.stop).drop m.start
    let filled := fillGroups (groupText m p whole) 0 target.toList
    if source == .jest then String.ofList filled
    else String.ofList (cs.take m.start ++ filled ++ cs.drop m.stop)

/-- The specifier that an alias makes of a specifier, if it applies. A
regular expression that has not been read may turn out to be none. -/
def apply (a : Alias) (spec : String) : Except Regex.Error (Option String) :=
  match a.kind with
  | .exact => .ok (if spec == a.key then some a.target else none)
  | .ofPrefix => .ok (applyPrefix a.key a.target spec)
  | .wildcard => .ok (applyWildcard a.key a.target spec)
  | .regex =>
    match a.pattern with
    | some p => .ok (applyRegex p a.source a.target spec)
    | none => (Regex.Pattern.ofLiteral a.key "").map fun p => applyRegex p a.source a.target spec

end Alias

end PackageAudit
