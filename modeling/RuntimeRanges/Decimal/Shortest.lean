import RuntimeRanges.Decimal.Floating

/-!
The text of a floating-point number: the fewest decimal digits that round back to it, in positional
notation for scales from 10^-4 up to 10^16 and with an exponent of at least two digits otherwise.
-/

namespace RuntimeRanges.Decimal

/-- Compares `a * 10 ^ i` with `n * 2 ^ j`. -/
def compareScaled (a : Nat) (i : Int) (n : Nat) (j : Int) : Ordering :=
  compare (a * Nat.pow 10 i.toNat * Nat.pow 2 (-j).toNat) (n * Nat.pow 2 j.toNat * Nat.pow 10 (-i).toNat)

/-- Whether the decimal number lies among those that round to `mantissa * 2 ^ exponent`: between the
points halfway to the two neighbours, which themselves round to an even mantissa. The gap below a power of
two is half the gap above it. -/
def roundsTo (d : Scaled) (mantissa : Nat) (exponent : Int) : Bool :=
  let narrow := mantissa == Nat.pow 2 (precision - 1) && minExponent < exponent
  let low := compareScaled d.digits d.exponent (4 * mantissa - if narrow then 1 else 2) (exponent - 2)
  let high := compareScaled d.digits d.exponent (4 * mantissa + 2) (exponent - 2)
  let ends := mantissa % 2 == 0
  (low == .gt || (ends && low == .eq)) && (high == .lt || (ends && high == .eq))

/-- The least `k` with `mantissa * 2 ^ exponent < 10 ^ k`, found upwards from `k`. -/
def scaleFrom (mantissa : Nat) (exponent : Int) : Nat → Int → Int
  | 0, k => k
  | fuel + 1, k =>
    if compareScaled 1 k mantissa exponent == .gt then k else scaleFrom mantissa exponent fuel (k + 1)

/-- The nearer of the two neighbours on the grid `10 ^ unit` that rounds to the number. -/
def onGrid? (mantissa : Nat) (exponent unit : Int) : Option Scaled :=
  let num := mantissa * Nat.pow 2 exponent.toNat * Nat.pow 10 (-unit).toNat
  let den := Nat.pow 2 (-exponent).toNat * Nat.pow 10 unit.toNat
  let below : Scaled := ⟨num / den, unit⟩
  let above : Scaled := ⟨num / den + 1, unit⟩
  match roundsTo below mantissa exponent, roundsTo above mantissa exponent with
  | true, true => some ⟨roundDiv num den, unit⟩
  | true, false => some below
  | false, true => some above
  | false, false => none

/-- The decimal number with the fewest digits that rounds to `mantissa * 2 ^ exponent`. -/
def shortest (mantissa : Nat) (exponent : Int) : Scaled :=
  let estimate : Int := ((Nat.log2 mantissa : Int) + exponent) * 30103 / 100000
  let scale := scaleFrom mantissa exponent 8 (estimate - 2)
  let grids := (List.range 17).map fun n => scale - (n + 1 : Nat)
  (grids.findSome? (onGrid? mantissa exponent)).getD
    ⟨mantissa * Nat.pow 2 exponent.toNat * Nat.pow 5 (-exponent).toNat, min exponent 0⟩

/-- Digits in positional notation, the point after the first `point` of them. -/
def positional (digits : List Char) (point : Int) : List Char :=
  if point ≤ 0 then '0' :: '.' :: List.replicate (-point).toNat '0' ++ digits
  else if (digits.length : Int) ≤ point then
    digits ++ List.replicate (point - digits.length).toNat '0' ++ ['.', '0']
  else digits.take point.toNat ++ '.' :: digits.drop point.toNat

/-- Digits with an exponent, the point after the first of them. -/
def scientific (digits : List Char) (point : Int) : List Char :=
  let exponent := Nat.toDigits 10 (point - 1).natAbs
  let padded := if exponent.length < 2 then '0' :: exponent else exponent
  let fraction := digits.drop 1
  digits.take 1 ++ (if fraction.isEmpty then [] else '.' :: fraction) ++
    'e' :: (if point - 1 < 0 then '-' else '+') :: padded

def Scaled.text (d : Scaled) : List Char :=
  if d.digits = 0 then ['0', '.', '0']
  else
    let all := Nat.toDigits 10 d.digits
    let digits := (all.reverse.dropWhile (· == '0')).reverse
    let point := d.exponent + all.length
    if -4 < point ∧ point ≤ 16 then positional digits point else scientific digits point

def Floating.text : Floating → String
  | .undefined => "nan"
  | .infinite negative => if negative then "-inf" else "inf"
  | .finite negative mantissa exponent =>
    let d := if mantissa = 0 then ⟨0, 0⟩ else shortest mantissa exponent
    String.ofList ((if negative then ['-'] else []) ++ d.text)

example : (Floating.nearest false ⟨1, 16⟩).text = "1e+16" ∧ (Floating.nearest true ⟨25, -6⟩).text = "-2.5e-05" ∧
    (Floating.nearest false ⟨5, -324⟩).text = "5e-324" ∧ (Floating.nearest false ⟨4, 0⟩).text = "4.0" := by
  decide +kernel

end RuntimeRanges.Decimal
