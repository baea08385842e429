/-
PackageAudit.Text.ShellWord — texts as words of a shell command.

A word of harmless characters stands as it is. Any other text stands between
single quotes; a single quote in it ends them, stands between double quotes,
and begins them anew.
-/
import PackageAudit.Text.Cut

namespace PackageAudit.Text.ShellWord

/-- A character that a shell takes for itself. -/
def isHarmless (c : Char) : Bool :=
  c.isAlphanum || "_@%+=:,./-".toList.contains c

/-- A single quote inside single quotes. -/
def innerQuote : List Char := ['\'', '"', '\'', '"', '\'']

/-- The word that a shell reads as a text. -/
def encode (s : String) : String :=
  if s.isEmpty then "''"
  else if s.toList.all isHarmless then s
  else "'" ++ String.ofList (replaceChar '\'' innerQuote s.toList) ++ "'"

end PackageAudit.Text.ShellWord
