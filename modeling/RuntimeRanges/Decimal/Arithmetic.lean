import RuntimeRanges.Decimal.Floating

/-!
Sums and products of floating-point numbers. Each is formed exactly and then rounded once to the nearest
number; a sum of nothing but negative zeros is a negative zero.
-/

namespace RuntimeRanges.Decimal.Floating

/-- The floating-point number nearest to `mantissa * 2 ^ exponent`. -/
def ofBinary (negative : Bool) (mantissa : Nat) (exponent : Int) : Floating :=
  if mantissa = 0 then .finite negative 0 minExponent
  else .nearestQuotient negative (mantissa * Nat.pow 2 exponent.toNat) (Nat.pow 2 (-exponent).toNat)

def ofNat (n : Nat) : Floating :=
  ofBinary false n 0

def negate : Floating → Floating
  | finite negative mantissa exponent => .finite (!negative) mantissa exponent
  | infinite negative => .infinite (!negative)
  | undefined => .undefined

/-- The product of two numbers; nothing is known of zero times infinity. -/
def times : Floating → Floating → Floating
  | finite s m i, finite t n j => ofBinary (s != t) (m * n) (i + j)
  | infinite s, infinite t => .infinite (s != t)
  | finite s m _, infinite t => if m = 0 then .undefined else .infinite (s != t)
  | infinite s, finite t n _ => if n = 0 then .undefined else .infinite (s != t)
  | _, _ => .undefined

/-- The sum of two numbers; nothing is known of the sum of opposite infinities. -/
def plus : Floating → Floating → Floating
  | finite s m i, finite t n j =>
    let a : Int := if s then -m else m
    let b : Int := if t then -n else n
    let sum := a * Nat.pow 2 (i - j).toNat + b * Nat.pow 2 (j - i).toNat
    ofBinary (if sum = 0 then s && t else sum < 0) sum.natAbs (min i j)
  | infinite s, infinite t => if s = t then .infinite s else .undefined
  | infinite s, finite _ _ _ => .infinite s
  | finite _ _ _, infinite t => .infinite t
  | _, _ => .undefined

example : (nearest false ⟨1, -1⟩).plus (nearest false ⟨2, -1⟩) = nearest false ⟨30000000000000004, -17⟩ ∧
    (ofNat 3).times (nearest true ⟨5, -1⟩) = nearest true ⟨15, -1⟩ := by
  decide +kernel

end RuntimeRanges.Decimal.Floating
