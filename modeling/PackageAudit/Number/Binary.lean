/-
PackageAudit.Number.Binary — numbers with a 53 bit mantissa.

Configuration files may write a version as a bare number. Such a number is
kept as the nearest value `mantissa * 2 ^ exponent` with a mantissa below
`2 ^ 53` and an exponent of at least -1074, ties going to the even mantissa,
and shown again by the fewest digits that read back (`Number.Shortest`).
Both directions are exact arithmetic on natural numbers.
-/

namespace PackageAudit.Number

/-- A binary number of limited size and precision. -/
inductive Real where
  | notANumber
  | infinite (negative : Bool)
  | finite (negative : Bool) (mantissa : Nat) (exponent : Int)
  deriving Repr, BEq, DecidableEq, Inhabited

/-- The quotient rounded to the nearest integer, a tie to the even one. -/
def roundDiv (num den : Nat) : Nat :=
  let q := num / den
  let r := num % den
  if 2 * r < den then q
  else if 2 * r > den then q + 1
  else if q % 2 == 0 then q else q + 1

/-- A fraction times a power of two, as a fraction. -/
def shiftFraction (num den : Nat) (e : Int) : Nat × Nat :=
  if e ≥ 0 then (num * Nat.pow 2 e.toNat, den) else (num, den * Nat.pow 2 (-e).toNat)

/-- The number nearest to a positive fraction. -/
def Real.ofFraction (negative : Bool) (num den : Nat) : Real :=
  let guess : Int := (Nat.log2 num : Int) - (Nat.log2 den : Int) - 52
  -- The guess is at most one too large: then fewer than 53 bits would be left.
  let s := shiftFraction num den (-guess)
  let e := if s.1 / s.2 < Nat.pow 2 52 then guess - 1 else guess
  let e := if e < -1074 then -1074 else e
  let t := shiftFraction num den (-e)
  let m := roundDiv t.1 t.2
  let (m, e) := if m == Nat.pow 2 53 then (Nat.pow 2 52, e + 1) else (m, e)
  if e > 971 then .infinite negative else .finite negative m e

/-- The number nearest to `digits * 10 ^ exponent`. Values outside of any
representable magnitude are decided by their number of digits. -/
def Real.ofDecimal (negative : Bool) (digits : Nat) (exponent : Int) : Real :=
  let magnitude : Int := (Nat.toDigits 10 digits).length + exponent
  if digits == 0 then .finite negative 0 0
  else if magnitude > 400 then .infinite negative
  else if magnitude < -400 then .finite negative 0 0
  else if exponent ≥ 0 then .ofFraction negative (digits * Nat.pow 10 exponent.toNat) 1
  else .ofFraction negative digits (Nat.pow 10 (-exponent).toNat)

/-- The number is zero. -/
def Real.isZero : Real → Bool
  | .finite _ m _ => m == 0
  | _ => false

end PackageAudit.Number
