import RuntimeRanges.Text.Digit

/-!
Decimal numerals. Numbers have no bound, but the text of a number may have at most 4300 digits: reading a
longer run of digits and writing a larger number are refused.
-/

namespace RuntimeRanges.Numeral

/-- The largest number of digits that a numeral may have. -/
def maxDigits : Nat := 4300

/-- A numeral with too many digits. -/
inductive LimitError
  /-- The text to read has this many digits. -/
  | reading (digits : Nat)
  /-- The number to write needs more digits than there may be. -/
  | writing
  deriving DecidableEq, Repr

def LimitError.message : LimitError → String
  | .reading digits =>
    "Exceeds the limit (4300 digits) for integer string conversion: value has " ++ toString digits ++
      " digits; use sys.set_int_max_str_digits() to increase the limit"
  | .writing =>
    "Exceeds the limit (4300 digits) for integer string conversion; " ++
      "use sys.set_int_max_str_digits() to increase the limit"

/-- The number that a run of decimal digits stands for after those of `n`. -/
def digitsFrom (n : Nat) (digits : List Char) : Nat :=
  digits.foldl (fun m c => m * 10 + (Text.digitValue? c).getD 0) n

/-- The number that a run of decimal digits stands for, whatever their script. -/
def value (digits : List Char) : Nat :=
  digitsFrom 0 digits

def read (digits : List Char) : Except LimitError Nat :=
  if digits.length ≤ maxDigits then .ok (value digits) else .error (.reading digits.length)

/-- The digits of a number, without leading zeros. -/
def digits (n : Nat) : List Char :=
  Nat.toDigits 10 n

def text (n : Int) : String :=
  String.ofList ((if n < 0 then ['-'] else []) ++ digits n.natAbs)

def write (n : Nat) : Except LimitError (List Char) :=
  if n < Nat.pow 10 maxDigits then .ok (digits n) else .error .writing

theorem value_eq_ofDigitChars {cs : List Char} (h : ∀ c ∈ cs, c.isDigit = true) :
    value cs = Nat.ofDigitChars 10 cs 0 := by
  rw [value, Nat.ofDigitChars_eq_foldl]
  suffices ∀ n, digitsFrom n cs = cs.foldl (fun m c => 10 * m + (c.toNat - '0'.toNat)) n from this 0
  induction cs with
  | nil => exact fun _ => rfl
  | cons c cs ih =>
    intro n
    rw [List.foldl_cons, ← ih fun d hd => h d (by simp [hd])]
    simp [digitsFrom, Text.digitValue?_of_isDigit (h c (by simp)), Nat.mul_comm]

theorem isDigit_of_mem_digits {n : Nat} {c : Char} (h : c ∈ digits n) : c.isDigit = true :=
  Nat.isDigit_of_mem_toDigits (b := 10) (by decide) (by decide) h

theorem digits_ne_nil (n : Nat) : digits n ≠ [] :=
  Nat.toDigits_ne_nil

theorem value_digits (n : Nat) : value (digits n) = n := by
  rw [value_eq_ofDigitChars fun c h => isDigit_of_mem_digits h]
  exact Nat.ofDigitChars_ten_toDigits

theorem length_digits_le_iff (n : Nat) {k : Nat} (hk : 0 < k) : (digits n).length ≤ k ↔ n < Nat.pow 10 k :=
  Nat.length_toDigits_le_iff (by decide) hk

/-- A number that can be written reads back. -/
theorem read_of_write {n : Nat} {cs : List Char} (h : write n = .ok cs) : read cs = .ok n := by
  unfold write at h
  split at h
  · next hn =>
    cases h
    rw [read, if_pos ((length_digits_le_iff n (by decide)).2 hn), value_digits]
  · cases h

end RuntimeRanges.Numeral
