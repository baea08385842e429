/-
PackageAudit.Path — slash-separated paths, by their text alone.

Nothing here looks at a file tree. A normal path has no empty, `.` or
avoidable `..` component; it keeps one leading slash, or exactly two where
two are written.
-/
import PackageAudit.Text.Cut

namespace PackageAudit.Path

/-! ## 1. Components -/

/-- The components between slashes, empty ones included. -/
def components (path : String) : List String := Text.pieces '/' path

/-- Components with slashes between them. -/
def ofComponents (parts : List String) : String := "/".intercalate parts

/-- The path starts at the root. -/
def isAbsolute (path : String) : Bool := Text.begins "/" path

/-- How many slashes a normal form keeps at the front. -/
def leadingSlashes (path : String) : Nat :=
  match path.toList with
  | '/' :: '/' :: '/' :: _ => 1
  | '/' :: '/' :: _ => 2
  | '/' :: _ => 1
  | _ => 0

/-- One more component on the components kept so far, the last one first. -/
def pushComponent (rooted : Bool) (kept : List String) (part : String) : List String :=
  if part == "" || part == "." then kept
  else if part != ".." then part :: kept
  else match kept with
    | [] => if rooted then [] else [part]
    | last :: rest => if last == ".." then part :: kept else rest

/-- The components of the normal form. -/
def normalComponents (path : String) : List String :=
  ((components path).foldl (pushComponent (isAbsolute path)) []).reverse

/-- The normal form of a path; the empty path is the current directory. -/
def normalize (path : String) : String :=
  let text := String.ofList (List.replicate (leadingSlashes path) '/') ++
    ofComponents (normalComponents path)
  if text.isEmpty then "." else text

/-! ## 2. Joining and splitting -/

/-- `path` seen from `base`: an absolute path stays as it is. -/
def join (base path : String) : String :=
  if isAbsolute path then path
  else if base.isEmpty || Text.ends "/" base then base ++ path
  else base ++ "/" ++ path

/-- Several paths, each seen from the one before. -/
def joinAll : List String → String
  | [] => ""
  | p :: ps => ps.foldl join p

/-- Characters up to the last slash, that slash included, and those behind. -/
def cutLast (path : String) : List Char × List Char :=
  let tail := (path.toList.reverse.takeWhile (· != '/')).reverse
  (path.toList.take (path.toList.length - tail.length), tail)

/-- The directory part: everything before the last slash, without slashes at
its end unless it is nothing but slashes. -/
def parent (path : String) : String :=
  let head := (cutLast path).1
  if head.all (· == '/') then String.ofList head
  else String.ofList (Text.trimBack (· == '/') head)

/-- The part behind the last slash. -/
def base (path : String) : String := String.ofList (cutLast path).2

/-- A path before its extension, and the extension with its dot. Dots at the
front of the last component begin no extension. -/
def splitExtension (path : String) : String × String :=
  let tail := (cutLast path).2
  let leading := (tail.takeWhile (· == '.')).length
  let body := tail.drop leading
  if body.contains '.' then
    let ext := '.' :: (body.reverse.takeWhile (· != '.')).reverse
    (String.ofList (path.toList.take (path.toList.length - ext.length)), String.ofList ext)
  else (path, "")

/-- The extension in lower case. -/
def extension (path : String) : String := Text.lowerAscii (splitExtension path).2

/-! ## 3. Relative paths -/

/-- An absolute normal path, seen from a current directory. -/
def absolute (current path : String) : String := normalize (join current path)

/-- The components of an absolute path, empty ones left out. -/
def steps (path : String) : List String := (components (absolute "/" path)).filter (· != "")

/-- The steps behind a common beginning. -/
def dropCommon : List String → List String → List String × List String
  | a :: as, b :: bs => if a == b then dropCommon as bs else (a :: as, b :: bs)
  | as, bs => (as, bs)

/-- The path that leads from a directory to a path. -/
def relative (path start : String) : String :=
  let (up, down) := dropCommon (steps start) (steps path)
  let parts := up.map (fun _ => "..") ++ down
  if parts.isEmpty then "." else ofComponents parts

/-! ## 4. Tidy paths -/

/-- The slashes that a path keeps at the front. -/
def frontSlashes (path : String) : String :=
  String.ofList (List.replicate (leadingSlashes path) '/')

/-- The components of a path, without empty ones and without `.`. -/
def tidyComponents (path : String) : List String :=
  (components path).filter fun c => c != "" && c != "."

/-- A name in a folder, the path to the folder made tidy: `..` stays. -/
def inFolder (folder name : String) : String :=
  frontSlashes folder ++ ofComponents (tidyComponents folder ++ [name])

end PackageAudit.Path
