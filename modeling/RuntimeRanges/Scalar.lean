import RuntimeRanges.Calendar
import RuntimeRanges.Decimal.Shortest
import RuntimeRanges.Numeral
import RuntimeRanges.Text.Quoted
import RuntimeRanges.Text.Surrogate

/-!
Scalars: the values that are not made of others. They are also what the fields of objects are named by; two
names are the same when they are equal as values, so that numbers of different kinds can be the same name.
-/

namespace RuntimeRanges

/-- A value that is not made of others. -/
inductive Scalar
  | null
  | bool (b : Bool)
  | int (n : Int)
  | float (x : Decimal.Floating)
  | text (s : String)
  /-- A text with code points that stand for no character. -/
  | unpaired (codes : List Nat)
  | date (d : Calendar.Date)
  | moment (m : Calendar.Moment)
  deriving DecidableEq, Repr

namespace Scalar

instance : Coe String Scalar := ⟨text⟩

def ofCodes (codes : List Nat) : Scalar :=
  if codes.all fun n => Nat.isValidChar n then .text (String.ofList (codes.map Char.ofNat)) else .unpaired codes

/-- The value as messages show it. -/
def literal : Scalar → String
  | null => "None"
  | bool b => if b then "True" else "False"
  | int n => Numeral.text n
  | float x => x.text
  | text s => Text.quoted s
  | unpaired codes => String.ofList (Text.Quoted.encodeCodes codes)
  | date d => d.literal
  | moment m => m.literal

/-- The characters of the value as a text, which is cut by them. A mark stands for a code point that stands for no
character; what is written of a text are its code points. -/
def plain : Scalar → String
  | text s => s
  | unpaired codes => String.ofList (Text.charsOf codes)
  | date d => d.text
  | moment m => m.text
  | s => s.literal

def codes : Scalar → List Nat
  | unpaired codes => codes
  | s => s.plain.toList.map Char.toNat

/-- The text of several values, one after the other. -/
def joined (parts : List Scalar) : Scalar :=
  ofCodes (parts.flatMap codes)

def separated (separator : String) (parts : List Scalar) : Scalar :=
  joined (parts.intersperse (text separator))

/-- Whether the value counts as empty: no value, falsehood, zero, and the empty text. -/
def isEmpty : Scalar → Bool
  | null | bool false | int 0 | float (.finite _ 0 _) | unpaired [] => true
  | text s => s.isEmpty
  | _ => false

/-- The mantissa and the exponent of a finite number, which is `mantissa * 2 ^ exponent`. -/
def number? : Scalar → Option (Int × Int)
  | bool b => some (if b then 1 else 0, 0)
  | int n => some (n, 0)
  | float (.finite negative mantissa exponent) => some (if negative then -mantissa else mantissa, exponent)
  | _ => none

/-- Whether `a * 2 ^ i` and `b * 2 ^ j` are equal. -/
def sameNumber (a i b j : Int) : Bool :=
  a * Nat.pow 2 (i - j).toNat == b * Nat.pow 2 (j - i).toNat

/-- Whether two values that are no finite numbers are equal: points in time by their instants. -/
def sameOther : Scalar → Scalar → Bool
  | moment m, moment n => m.same n
  | s, t => s == t

/-- Whether two values are equal: numbers of all kinds by their size, others as what they are. -/
def same (s t : Scalar) : Bool :=
  match s.number?, t.number? with
  | some (a, i), some (b, j) => sameNumber a i b j
  | none, none => sameOther s t
  | _, _ => false

@[simp]
theorem same_text (s : Scalar) (t : String) : s.same (text t) = decide (s = text t) := by
  cases s with
  | float x => cases x <;> rfl
  | _ => rfl

/-- Numbers are compared by multiples of any power of two that is small enough. -/
theorem sameNumber_eq_true_iff {a i b j k : Int} (hi : k ≤ i) (hj : k ≤ j) :
    sameNumber a i b j = true ↔ a * Nat.pow 2 (i - k).toNat = b * Nat.pow 2 (j - k).toNat := by
  have key : ∀ {a b i j : Int}, k ≤ i → i ≤ j →
      (a = b * Nat.pow 2 (j - i).toNat ↔ a * Nat.pow 2 (i - k).toNat = b * Nat.pow 2 (j - k).toNat) := by
    intro a b i j hi hij
    have hsum : (j - k).toNat = (j - i).toNat + (i - k).toNat := by omega
    have hpos : ((Nat.pow 2 (i - k).toNat : Nat) : Int) ≠ 0 := by
      have := Nat.pow_pos (n := (i - k).toNat) (show 0 < 2 by decide)
      exact Int.ofNat_ne_zero.2 (Nat.pos_iff_ne_zero.1 this)
    have hpow : Nat.pow 2 (j - k).toNat = Nat.pow 2 (j - i).toNat * Nat.pow 2 (i - k).toNat := by
      rw [hsum]; exact Nat.pow_add ..
    rw [hpow, Int.natCast_mul, ← Int.mul_assoc]
    exact (Int.mul_eq_mul_right_iff hpos).symm
  rw [sameNumber, beq_iff_eq]
  rcases Int.le_total i j with hij | hij
  · have h : (i - j).toNat = 0 := by omega
    rw [h]
    simpa using key hi hij (a := a) (b := b)
  · have h : (j - i).toNat = 0 := by omega
    rw [h]
    have := key hj hij (a := b) (b := a)
    simpa [eq_comm] using this

theorem sameNumber_comm (a i b j : Int) : sameNumber a i b j = sameNumber b j a i := by
  rw [sameNumber, sameNumber, Bool.beq_comm]

theorem sameNumber_trans {a i b j c k : Int} (hab : sameNumber a i b j = true)
    (hbc : sameNumber b j c k = true) : sameNumber a i c k = true := by
  have hi : min i (min j k) ≤ i := by omega
  have hj : min i (min j k) ≤ j := by omega
  have hk : min i (min j k) ≤ k := by omega
  exact (sameNumber_eq_true_iff hi hk).2
    (((sameNumber_eq_true_iff hi hj).1 hab).trans ((sameNumber_eq_true_iff hj hk).1 hbc))

theorem sameOther_eq_true_iff {s t : Scalar} :
    sameOther s t = true ↔ s = t ∨ ∃ m n, s = moment m ∧ t = moment n ∧ m.same n = true := by
  fun_cases sameOther s t with
  | case1 m n => exact ⟨fun h => .inr ⟨m, n, rfl, rfl, h⟩, by grind [Calendar.Moment.same_refl]⟩
  | case2 s t h => simpa using fun m hm n hn => absurd hn (h m n hm)

theorem sameOther_comm (s t : Scalar) : sameOther s t = sameOther t s := by
  rw [Bool.eq_iff_iff, sameOther_eq_true_iff, sameOther_eq_true_iff]
  grind [Calendar.Moment.same_comm]

theorem sameOther_trans {s t u : Scalar} (hst : sameOther s t = true) (htu : sameOther t u = true) :
    sameOther s u = true := by
  rw [sameOther_eq_true_iff] at *
  grind [Calendar.Moment.same_trans]

theorem same_refl (s : Scalar) : s.same s = true := by
  unfold same
  cases s.number? with
  | some p => simp [sameNumber]
  | none => exact sameOther_eq_true_iff.2 (.inl rfl)

theorem same_comm (s t : Scalar) : s.same t = t.same s := by
  unfold same
  cases s.number? <;> cases t.number?
  · exact sameOther_comm ..
  · rfl
  · rfl
  · exact sameNumber_comm ..

theorem same_trans {s t u : Scalar} (hst : s.same t = true) (htu : t.same u = true) : s.same u = true := by
  revert hst htu
  unfold same
  cases s.number? <;> cases t.number? <;> cases u.number? <;> intro hst htu
  case none.none.none => exact sameOther_trans hst htu
  case some.some.some => exact sameNumber_trans hst htu
  all_goals simp_all

/-- Whether the value can be written: an integer may have too many digits for it. -/
def isWritable : Scalar → Bool
  | int n => (Numeral.write n.natAbs).toOption.isSome
  | _ => true

example : same (int 1) (float (.nearest false ⟨1, 0⟩)) = true ∧ same (bool false) (int 0) = true ∧
    same (int 1) "1" = false ∧ literal (unpaired [0xD83D, 0x27]) = "\"\\ud83d'\"" := by
  decide +kernel

end Scalar

end RuntimeRanges
