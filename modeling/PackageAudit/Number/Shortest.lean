/-
PackageAudit.Number.Shortest — the fewest digits that read back.

Of the decimals that round to a number, those with the fewest digits are
taken, and of these the nearest. A grid of decimals with `k` digits is tried
for `k = 1, 2, ...`: if any of its points rounds to the number, one of the
two neighbours of the number on the grid does.
-/
import PackageAudit.Number.Binary

namespace PackageAudit.Number

/-- The interval of reals that round to `m * 2 ^ e`, in units of a common
denominator: lower end, value, upper end, denominator. -/
def roundingInterval (m : Nat) (e : Int) : Nat × Nat × Nat × Nat :=
  let lower := if m == Nat.pow 2 52 && e > -1074 then 4 * m - 1 else 4 * m - 2
  if e ≥ 2 then
    let unit := Nat.pow 2 (e - 2).toNat
    (lower * unit, 4 * m * unit, (4 * m + 2) * unit, 1)
  else (lower, 4 * m, 4 * m + 2, Nat.pow 2 (2 - e).toNat)

/-- The number of decimal digits before the point of a fraction; zero or
less when the fraction is below one tenth, one hundredth and so on. The fuel
bounds the search from an estimate. -/
def decimalPoint (num den : Nat) : Nat → Int → Int
  | 0, p => p
  | fuel + 1, p =>
    -- The least p with num / den < 10 ^ p.
    let below := fun (q : Int) =>
      if q ≥ 0 then decide (num < den * Nat.pow 10 q.toNat)
      else decide (num * Nat.pow 10 (-q).toNat < den)
    if !below p then decimalPoint num den fuel (p + 1)
    else if below (p - 1) then decimalPoint num den fuel (p - 1)
    else p

/-- The decimal point of a fraction, searched from its binary magnitude. -/
def decimalPointOf (num den : Nat) : Int :=
  let bits : Int := (Nat.log2 num : Int) - (Nat.log2 den : Int)
  decimalPoint num den 20 ((bits * 30103) / 100000 + 1)

/-- The neighbours of a number on the grid of multiples of `10 ^ p` that
round to it, the nearer one first. -/
def gridPoint? (lower value upper den : Nat) (even : Bool) (p : Int) : Option Nat :=
  -- All four numbers in units of the grid: x / unit.
  let scale := if p ≥ 0 then 1 else Nat.pow 10 (-p).toNat
  let unit := if p ≥ 0 then den * Nat.pow 10 p.toNat else den
  let (lo, v, hi) := (lower * scale, value * scale, upper * scale)
  let down := v / unit
  let up := down + 1
  let inside := fun (d : Nat) =>
    let x := d * unit
    if even then decide (lo ≤ x) && decide (x ≤ hi) else decide (lo < x) && decide (x < hi)
  let downNearer := decide (2 * (v - down * unit) < unit) ||
    (decide (2 * (v - down * unit) = unit) && down % 2 == 0)
  match inside down && down != 0, inside up with
  | true, true => some (if downNearer then down else up)
  | true, false => some down
  | false, true => some up
  | false, false => none

/-- The first grid with a hit, from `k` digits on: the digits as a number and
the exponent of ten that belongs to their last place. -/
def firstGrid (lower value upper den : Nat) (even : Bool) (point : Int) :
    Nat → Int → Nat × Int
  | 0, p => (value / den, p)
  | fuel + 1, k =>
    match gridPoint? lower value upper den even (point - k) with
    | some d => (d, point - k)
    | none => firstGrid lower value upper den even point fuel (k + 1)

/-- Digits and exponent of the shortest decimal for `m * 2 ^ e`, `m` positive. -/
def shortest (m : Nat) (e : Int) : Nat × Int :=
  let (lower, value, upper, den) := roundingInterval m e
  firstGrid lower value upper den (m % 2 == 0) (decimalPointOf value den) 18 1

/-- The digits of a number without the zeros at its end, and how many there
were; the fuel is the number of digits. -/
def dropZeros : Nat → Nat → Nat → Nat × Nat
  | 0, n, k => (n, k)
  | fuel + 1, n, k => if n != 0 && n % 10 == 0 then dropZeros fuel (n / 10) (k + 1) else (n, k)

/-- Decimal exponents with positional notation: the point stands at most four
places before and at most sixteen places after the first digit. -/
def isPositional (point : Int) : Bool := -4 < point && point ≤ 16

/-- A positive number by its digits: positional with at least one place after
the point, or one digit before the point and an exponent of at least two
digits with its sign. -/
def showDecimal (digits : Nat) (exponent : Int) : String :=
  let (digits, zeros) := dropZeros 400 digits 0
  let ds := Nat.toDigits 10 digits
  let point : Int := ds.length + exponent + zeros
  if isPositional point then
    if point ≤ 0 then
      "0." ++ String.ofList (List.replicate (-point).toNat '0' ++ ds)
    else
      let whole := ds.take point.toNat ++ List.replicate (point.toNat - ds.length) '0'
      let part := ds.drop point.toNat
      String.ofList (whole ++ '.' :: (if part.isEmpty then ['0'] else part))
  else
    let e := point - 1
    let sign := if e < 0 then '-' else '+'
    let es := Nat.toDigits 10 e.natAbs
    let es := if es.length < 2 then '0' :: es else es
    let part := ds.drop 1
    String.ofList (ds.take 1 ++ (if part.isEmpty then [] else '.' :: part) ++ 'e' :: sign :: es)

/-- The text of a number. -/
def Real.toText : Real → String
  | .notANumber => "nan"
  | .infinite negative => if negative then "-inf" else "inf"
  | .finite negative m e =>
    let body := if m == 0 then "0.0" else
      let (d, p) := shortest m e
      showDecimal d p
    if negative then "-" ++ body else body

end PackageAudit.Number
