/-!
Surrogates: code points that stand for no character. Two of them in a row can be the two halves of a character;
one that stays alone has no place in a string, where a mark stands for it.
-/

namespace RuntimeRanges.Text

/-- Whether the code point is the first half of a pair. -/
def isHighSurrogate (n : Nat) : Bool :=
  0xD800 ≤ n && n ≤ 0xDBFF

/-- Whether the code point is the second half of a pair. -/
def isLowSurrogate (n : Nat) : Bool :=
  0xDC00 ≤ n && n ≤ 0xDFFF

def pairCode (high low : Nat) : Nat :=
  0x10000 + (high - 0xD800) * 0x400 + (low - 0xDC00)

/-- The character of a code point, or a mark where there is none. -/
def charOrMark (n : Nat) : Char :=
  if Nat.isValidChar n then Char.ofNat n else '\uFFFD'

/-- The characters of code points, with the halves of pairs put together. -/
def charsOf : List Nat → List Char
  | [] => []
  | [n] => [charOrMark n]
  | m :: n :: codes =>
    if isHighSurrogate m && isLowSurrogate n then Char.ofNat (pairCode m n) :: charsOf codes
    else charOrMark m :: charsOf (n :: codes)

example : charsOf [0xD83D, 0xDE00, 0xD83D, 0x61] = ['😀', '\uFFFD', 'a'] := by decide

end RuntimeRanges.Text
