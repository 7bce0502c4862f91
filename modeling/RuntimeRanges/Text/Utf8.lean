/-!
Decoding UTF-8, strictly, octet by octet, with the place and kind of the first fault; and the unification of
line ends.
-/

namespace RuntimeRanges.Text.Utf8

/-- What is wrong with a sequence of octets that is not UTF-8. -/
inductive Reason
  | start
  | continuation
  | truncated
  deriving DecidableEq, Repr

def Reason.message : Reason → String
  | start => "invalid start byte"
  | continuation => "invalid continuation byte"
  | truncated => "unexpected end of data"

/-- A fault covers the octets from `first` up to but without `last`; `octet` is the first of them. -/
structure Fault where
  octet : UInt8
  first : Nat
  last : Nat
  reason : Reason
  deriving DecidableEq, Repr

def Fault.message (f : Fault) : String :=
  let place :=
    if f.last = f.first + 1 then
      "byte 0x" ++ String.ofList [Nat.digitChar (f.octet.toNat / 16), Nat.digitChar (f.octet.toNat % 16)] ++
        " in position " ++ toString f.first
    else "bytes in position " ++ toString f.first ++ "-" ++ toString (f.last - 1)
  "'utf-8' codec can't decode " ++ place ++ ": " ++ f.reason.message

/-- A character of which some octets are read: where it began, the bits so far, and the ranges in which
the octets still to come have to lie. -/
structure Pending where
  octet : UInt8
  first : Nat
  bits : Nat
  expected : List (Nat × Nat)

/-- The bits and the ranges that go with the first octet of a longer character. The second octet is kept
from spelling a character with more octets than it needs, a surrogate, or a number beyond the last
character. -/
def lead? (n : Nat) : Option (Nat × List (Nat × Nat)) :=
  if 0xC2 ≤ n ∧ n ≤ 0xDF then some (n - 0xC0, [(0x80, 0xBF)])
  else if n = 0xE0 then some (0, [(0xA0, 0xBF), (0x80, 0xBF)])
  else if n = 0xED then some (13, [(0x80, 0x9F), (0x80, 0xBF)])
  else if 0xE1 ≤ n ∧ n ≤ 0xEF then some (n - 0xE0, [(0x80, 0xBF), (0x80, 0xBF)])
  else if n = 0xF0 then some (0, [(0x90, 0xBF), (0x80, 0xBF), (0x80, 0xBF)])
  else if 0xF1 ≤ n ∧ n ≤ 0xF3 then some (n - 0xF0, [(0x80, 0xBF), (0x80, 0xBF), (0x80, 0xBF)])
  else if n = 0xF4 then some (4, [(0x80, 0x8F), (0x80, 0xBF), (0x80, 0xBF)])
  else none

/-- Decodes the octets from the given position on, inside a character or between two. -/
def decodeFrom (position : Nat) (pending : Option Pending) : List UInt8 → Except Fault (List Char)
  | [] =>
    match pending with
    | none => .ok []
    | some p => .error ⟨p.octet, p.first, position, .truncated⟩
  | b :: bs =>
    match pending with
    | none =>
      if b.toNat < 0x80 then do
        let cs ← decodeFrom (position + 1) none bs
        return Char.ofNat b.toNat :: cs
      else
        match lead? b.toNat with
        | none => .error ⟨b, position, position + 1, .start⟩
        | some (bits, expected) => decodeFrom (position + 1) (some ⟨b, position, bits, expected⟩) bs
    | some p =>
      match p.expected with
      | [] => .error ⟨p.octet, p.first, position, .continuation⟩
      | (low, high) :: expected =>
        if low ≤ b.toNat ∧ b.toNat ≤ high then
          let bits := p.bits * 64 + (b.toNat - 0x80)
          if expected.isEmpty then do
            let cs ← decodeFrom (position + 1) none bs
            return Char.ofNat bits :: cs
          else decodeFrom (position + 1) (some ⟨p.octet, p.first, bits, expected⟩) bs
        else .error ⟨p.octet, p.first, position, .continuation⟩

def decode (octets : List UInt8) : Except Fault (List Char) :=
  decodeFrom 0 none octets

def encode (s : String) : List UInt8 :=
  s.toList.flatMap String.utf8EncodeChar

example : (decode (encode "aé€😀")).toOption = some "aé€😀".toList := by decide +kernel

example : decode [0x61, 0xE2, 0x82] = .error ⟨0xE2, 1, 3, .truncated⟩ := rfl

end Utf8

/-- Every line ends with a single line feed, however its end was written. -/
def unifyLineEnds : List Char → List Char
  | [] => []
  | '\r' :: '\n' :: cs => '\n' :: unifyLineEnds cs
  | '\r' :: cs => '\n' :: unifyLineEnds cs
  | c :: cs => c :: unifyLineEnds cs

end RuntimeRanges.Text
