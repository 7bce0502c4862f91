/-!
Floating-point numbers with 53 binary digits, held exactly as `mantissa * 2 ^ exponent`, and the rounding
of a decimal number to the nearest of them.
-/

namespace RuntimeRanges.Decimal

/-- A decimal number without a sign, `digits * 10 ^ exponent`. -/
structure Scaled where
  digits : Nat
  exponent : Int
  deriving DecidableEq, Repr

/-- A floating-point number; a finite one is `mantissa * 2 ^ exponent`. -/
inductive Floating
  | finite (negative : Bool) (mantissa : Nat) (exponent : Int)
  | infinite (negative : Bool)
  | undefined
  deriving DecidableEq, Repr

def precision : Nat := 53

def minExponent : Int := -1074

def maxExponent : Int := 971

/-- The quotient rounded to the nearest natural number, a half to the even neighbour. -/
def roundDiv (num den : Nat) : Nat :=
  let q := num / den
  let r := num % den
  if 2 * r < den then q
  else if 2 * r > den then q + 1
  else if q % 2 = 0 then q else q + 1

/-- The floor of the binary logarithm of a quotient of positive numbers. -/
def floorLog2 (num den : Nat) : Int :=
  let k : Int := (Nat.log2 num : Int) - Nat.log2 den
  if den * Nat.pow 2 k.toNat ≤ num * Nat.pow 2 (-k).toNat then k else k - 1

def Floating.nearestQuotient (negative : Bool) (num den : Nat) : Floating :=
  let exponent := max minExponent (floorLog2 num den - (precision - 1 : Nat))
  let mantissa := roundDiv (num * Nat.pow 2 (-exponent).toNat) (den * Nat.pow 2 exponent.toNat)
  let (mantissa, exponent) :=
    if mantissa = Nat.pow 2 precision then (Nat.pow 2 (precision - 1), exponent + 1) else (mantissa, exponent)
  if exponent ≤ maxExponent then .finite negative mantissa exponent else .infinite negative

/-- The floating-point number nearest to a decimal one. Beyond 10^400 everything is infinite and below
10^-400 zero, so that the exact quotient is only formed for exponents in between. -/
def Floating.nearest (negative : Bool) (d : Scaled) : Floating :=
  let scale := d.exponent + (Nat.toDigits 10 d.digits).length
  if d.digits = 0 ∨ scale < -400 then .finite negative 0 minExponent
  else if 400 < scale then .infinite negative
  else .nearestQuotient negative (d.digits * Nat.pow 10 d.exponent.toNat) (Nat.pow 10 (-d.exponent).toNat)

example : Floating.nearest false ⟨1, -1⟩ = .finite false 7205759403792794 (-56) := by decide +kernel

end RuntimeRanges.Decimal
