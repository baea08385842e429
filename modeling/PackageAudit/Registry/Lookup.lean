/-
PackageAudit.Registry.Lookup — the latest versions that a registry knows.

A registry is asked by the address of a package and answers with a document.
The latest version is the one that a tag in it names. `answer` is the answer
to a single request; a session remembers the answers that it has got, so
that no package that was answered is asked for again.
-/
import PackageAudit.Json.Parser
import PackageAudit.Path

namespace PackageAudit

/-- What a request for an address ends with. -/
inductive Response where
  | refused (reason : String)
  | answered (status : Nat) (reason body : String)
  deriving DecidableEq, BEq, Repr, Inhabited

/-- Why a lookup gives no version: the request was refused, the status is one
of an error, the body is no document, or the document is not built as
expected. -/
inductive LookupError where
  | refused (package reason : String)
  | status (package : String) (code : Nat) (reason address : String)
  | invalidBody (package : String) (e : Json.Error)
  | unexpectedDocument (package : String)
  deriving DecidableEq, Repr

namespace LookupError

/-- Who is to blame for a status. -/
def side (code : Nat) : String := if code < 500 then "Client" else "Server"

/-- The package that was asked for. -/
def package : LookupError → String
  | .refused p _ => p
  | .status p _ _ _ => p
  | .invalidBody p _ => p
  | .unexpectedDocument p => p

/-- What went wrong. -/
def cause : LookupError → String
  | .refused _ reason => reason
  | .status _ code reason address =>
    s!"{code} " ++ side code ++ " Error: " ++ reason ++ " for url: " ++ address
  | .invalidBody _ e => e.message
  | .unexpectedDocument _ => "unexpected document"

/-- The message of an error. -/
def message (e : LookupError) : String :=
  "Registry lookup failed for " ++ e.package ++ ": " ++ e.cause

/-- The registry failed; a document that is not built as expected is no
failure of the registry. -/
def isFailure : LookupError → Bool
  | .unexpectedDocument _ => false
  | _ => true

end LookupError

/-- A registry: its address, and what requests end with. -/
structure Registry where
  address : String
  web : String → Response

namespace Registry

/-- The address of a package: slashes in its name are escaped. -/
def addressOf (r : Registry) (package : String) : String :=
  Text.stripBackChar '/' r.address ++ "/" ++
    String.ofList (Text.replaceChar '/' ['%', '2', 'F'] package.toList)

/-- The status is one of an error. -/
def isErrorStatus (code : Nat) : Bool := 400 ≤ code && code < 600

/-- The document about a package. -/
def document (r : Registry) (package : String) : Except LookupError Json :=
  match r.web (r.addressOf package) with
  | .refused reason => .error (.refused package reason)
  | .answered code reason body =>
    if isErrorStatus code then .error (.status package code reason (r.addressOf package))
    else (Json.parse body).mapError (.invalidBody package)

/-- The value of the tag for the latest version; null without one. -/
def latestIn? : Json → Option Json
  | .obj m =>
    match (Table.get? m "dist-tags").getD .null with
    | .obj tags => some ((Table.get? tags "latest").getD .null)
    | v => if v.holds then none else some .null
  | _ => none

/-- The answer to a request for the latest version of a package. -/
def answer (r : Registry) (package : String) : Except LookupError Json :=
  match r.document package with
  | .error e => .error e
  | .ok d =>
    match latestIn? d with
    | some v => .ok v
    | none => .error (.unexpectedDocument package)

/-! ## Sessions -/

/-- What a session has been told, and the addresses that it has asked. -/
structure Session where
  known : Table Json := []
  requests : List String := []
  deriving Inhabited

/-- The latest version of a package, asked for unless it is known. -/
def latest (r : Registry) (s : Session) (package : String) : Session × Except LookupError Json :=
  match s.known.get? package with
  | some v => (s, .ok v)
  | none =>
    let s := { s with requests := s.requests ++ [r.addressOf package] }
    match r.answer package with
    | .ok v => ({ s with known := s.known.put package v }, .ok v)
    | .error e => (s, .error e)

end Registry

end PackageAudit
