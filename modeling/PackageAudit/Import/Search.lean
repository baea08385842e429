/-
PackageAudit.Import.Search — finding phrases in a text.

A phrase says how much of the text it takes at the front and what it found
there. A search tries it at every position from left to right and goes on
behind each find, so finds do not overlap.
-/
import PackageAudit.Text.Cut

namespace PackageAudit.Import

/-- What a phrase found at the front of a text, and the characters it took. -/
abbrev Phrase (α : Type) := List Char → Option (α × Nat)

/-- The finds with their positions. `before` is the character before the
text, `allowed` what may stand before a find; `skip` counts the characters
of a find that are still to be passed over. -/
def findFrom {α : Type} (allowed : Option Char → Bool) (p : Phrase α) :
    Nat → Option Char → Nat → List Char → List (Nat × α)
  | _, _, _, [] => []
  | position, _, skip + 1, c :: cs => findFrom allowed p (position + 1) (some c) skip cs
  | position, before, 0, c :: cs =>
    match if allowed before then p (c :: cs) else none with
    | some (found, taken) =>
      (position, found) :: findFrom allowed p (position + 1) (some c) (taken - 1) cs
    | none => findFrom allowed p (position + 1) (some c) 0 cs

/-- All finds of a phrase that stand behind an allowed character. -/
def findAll {α : Type} (allowed : Option Char → Bool) (p : Phrase α) (cs : List Char) :
    List (Nat × α) := findFrom allowed p 0 none 0 cs

/-- The text without the finds of a phrase. -/
def removeFrom {α : Type} (p : Phrase α) : Nat → List Char → List Char
  | _, [] => []
  | skip + 1, _ :: cs => removeFrom p skip cs
  | 0, c :: cs =>
    match p (c :: cs) with
    | some (_, taken) => removeFrom p (taken - 1) cs
    | none => c :: removeFrom p 0 cs

/-- The number of the line on which a position lies. -/
def lineAt (cs : List Char) (position : Nat) : Nat := Text.newlines (cs.take position) + 1

/-! ## Parts of phrases -/

/-- White space at the front is passed over. -/
def skipSpace (cs : List Char) : List Char := cs.dropWhile Text.isSpace

/-- White space at the front is passed over; there must be some. -/
def skipSpace1? (cs : List Char) : Option (List Char) :=
  match cs with
  | c :: rest => if Text.isSpace c then some (skipSpace rest) else none
  | [] => none

/-- A quoted text at the front: one of the given quotes, characters other
than those of `excluded`, at least one, and the same quote. -/
def quotedText? (quotes excluded : List Char) : Phrase String
  | q :: cs =>
    if quotes.contains q then
      let body := cs.takeWhile fun c => !excluded.contains c
      if !body.isEmpty && (cs.drop body.length).head? == some q then
        some (String.ofList body, body.length + 2)
      else none
    else none
  | [] => none

/-- How many characters of a text have been taken when `rest` is left. -/
def taken (cs rest : List Char) : Nat := cs.length - rest.length

end PackageAudit.Import
