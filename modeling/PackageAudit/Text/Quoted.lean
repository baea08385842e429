/-
PackageAudit.Text.Quoted — a text between quotes, as messages show it.

The quote is the single one unless the text holds a single and no double
quote. A quote of the chosen kind and the backslash are written after a
backslash, the common controls by their letters, and every other character
that cannot be shown by its code: two, four or eight hexadecimal digits,
whichever is the first width that suffices.
-/
import PackageAudit.Text.Chars

namespace PackageAudit.Text

/-- One lower case hexadecimal digit. -/
def hexDigit (n : Nat) : Char :=
  if n < 10 then Char.ofNat (48 + n) else Char.ofNat (87 + n)

/-- The last `width` hexadecimal digits of a number. -/
def hexDigits : Nat → Nat → List Char
  | 0, _ => []
  | width + 1, n => hexDigits width (n / 16) ++ [hexDigit (n % 16)]

namespace Quoted

/-- A character by its code. -/
def codeEscape (c : Char) : List Char :=
  let n := c.toNat
  if n < 256 then '\\' :: 'x' :: hexDigits 2 n
  else if n < 65536 then '\\' :: 'u' :: hexDigits 4 n
  else '\\' :: 'U' :: hexDigits 8 n

/-- One character inside the given quotes. -/
def encodeChar (quote c : Char) : List Char :=
  if c == quote || c == '\\' then ['\\', c]
  else if c == '\n' then ['\\', 'n']
  else if c == '\r' then ['\\', 'r']
  else if c == '\t' then ['\\', 't']
  else if isPrintable c then [c]
  else codeEscape c

/-- The quote that a text is shown in. -/
def quoteOf (cs : List Char) : Char :=
  if cs.contains '\'' && !cs.contains '"' then '"' else '\''

/-- The characters of a text between its quotes. -/
def encode (cs : List Char) : List Char :=
  quoteOf cs :: cs.flatMap (encodeChar (quoteOf cs)) ++ [quoteOf cs]

end Quoted

/-- A text between quotes. -/
def quoted (s : String) : String := String.ofList (Quoted.encode s.toList)

end PackageAudit.Text
