import RuntimeRanges.Range
import RuntimeRanges.Version.Satisfaction
import RuntimeRanges.Proofs.Interval
import RuntimeRanges.Proofs.Range.Partial
import RuntimeRanges.Proofs.Version.Admission

/-!
The comparators that versions are written as. Each is read as an interval that begins at a release of three
numbers and includes it, and that contains the triples which the parts admit.
-/

namespace RuntimeRanges

open Numeral (Short)

/-- The interval includes its lower end, which is a release of three short numbers. -/
structure Interval.Anchored (i : Interval) : Prop where
  lowerIn : i.lowerIn = true
  lower : ∃ a b c, Short a ∧ Short b ∧ Short c ∧ i.lower = .ofNumbers a b c

namespace Interval

theorem anchored_origin (u : Option Release) (upperIn : Bool) : Anchored ⟨.origin, u, true, upperIn⟩ :=
  ⟨rfl, 0, 0, 0, Numeral.short_zero, Numeral.short_zero, Numeral.short_zero, rfl⟩

theorem Anchored.meet {i j : Interval} (hi : i.Anchored) (hj : j.Anchored) : (i.meet j).Anchored := by
  cases h : i.lower.compare j.lower with
  | lt =>
    have hl : (i.meet j).lower = j.lower := by simp [Interval.meet, meetLower, h]
    have hin : (i.meet j).lowerIn = j.lowerIn := by simp [Interval.meet, meetLower, h]
    exact ⟨hin.trans hj.lowerIn, hl ▸ hj.lower⟩
  | gt =>
    have hl : (i.meet j).lower = i.lower := by simp [Interval.meet, meetLower, h]
    have hin : (i.meet j).lowerIn = i.lowerIn := by simp [Interval.meet, meetLower, h]
    exact ⟨hin.trans hi.lowerIn, hl ▸ hi.lower⟩
  | eq =>
    have hl : (i.meet j).lower = i.lower := by simp [Interval.meet, meetLower, h]
    have hin : (i.meet j).lowerIn = (i.lowerIn && j.lowerIn) := by simp [Interval.meet, meetLower, h]
    rw [hi.lowerIn, hj.lowerIn] at hin
    exact ⟨hin, hl ▸ hi.lower⟩

theorem contains_any (a b c : Nat) : any.contains (.ofNumbers a b c) = true := by
  rw [contains_eq_true_iff, aboveLower_eq_true_iff]
  refine ⟨?_, belowUpper_of_unbounded rfl _⟩
  rw [any, Release.origin, Release.compare_ofNumbers_eq_lt_iff, Release.compare_ofNumbers_eq_eq_iff]
  simp only [and_true]
  omega

theorem Anchored.exists_triple {i : Interval} (hi : i.Anchored) (he : i.isEmpty = false) :
    ∃ a b c, Short a ∧ Short b ∧ Short c ∧ i.contains (.ofNumbers a b c) = true := by
  obtain ⟨a, b, c, ha, hb, hc, hl⟩ := hi.lower
  refine ⟨a, b, c, ha, hb, hc, ?_⟩
  rw [← hl]
  exact contains_lower hi.lowerIn he

/-- The interval is anchored and contains the triples of a set. -/
structure Represents (i : Interval) (S : List Nat → Prop) : Prop extends i.Anchored where
  contains_iff : ∀ a b c, i.contains (.ofNumbers a b c) = true ↔ S [a, b, c]

theorem Represents.meet {i j : Interval} {S T : List Nat → Prop} (hi : i.Represents S)
    (hj : j.Represents T) : (i.meet j).Represents fun t => S t ∧ T t where
  toAnchored := hi.toAnchored.meet hj.toAnchored
  contains_iff a b c := by
    rw [contains_meet_eq, Bool.and_eq_true, hi.contains_iff, hj.contains_iff]

theorem Represents.any_meet {i : Interval} {S : List Nat → Prop} (hi : i.Represents S) :
    (any.meet i).Represents S where
  toAnchored := (anchored_origin none false).meet hi.toAnchored
  contains_iff a b c := by
    rw [contains_meet_eq, contains_any, Bool.true_and, hi.contains_iff]

end Interval

namespace Range

namespace Partial

theorem next_eq {a : Nat} (ha : Short a) : next a = .ok (a + 1) := by
  unfold next
  rw [ha.write_succ_eq]

theorem nextMajor_eq {a : Nat} (ha : Short a) : nextMajor a = .ok (.ofNumbers (a + 1) 0 0) := by
  rw [nextMajor, next_eq ha]
  rfl

theorem nextMinor_eq (a : Nat) {b : Nat} (hb : Short b) : nextMinor a b = .ok (.ofNumbers a (b + 1) 0) := by
  rw [nextMinor, next_eq hb]
  rfl

variable {p : Parts} {a b c : Nat}

theorem floor_ofParts (hp : p.Short) :
    ∃ a b c, Short a ∧ Short b ∧ Short c ∧ (ofParts p).floor = .ofNumbers a b c := by
  obtain ⟨major, minor, patch⟩ := p
  obtain ⟨ha, hb, hc⟩ := hp
  have hz := Numeral.short_zero
  cases major with
  | wildcard => exact ⟨0, 0, 0, hz, hz, hz, rfl⟩
  | number a =>
    cases minor with
    | wildcard => exact ⟨a, 0, 0, ha, hz, hz, rfl⟩
    | number b =>
      cases patch with
      | wildcard => exact ⟨a, b, 0, ha, hb, hz, rfl⟩
      | number c => exact ⟨a, b, c, ha, hb, hc, rfl⟩

/-- The triples from the floor of parts on are those that a lower limit with them admits. -/
theorem aboveLower_floor (u : Option Release) (upperIn : Bool) :
    (Interval.mk (ofParts p).floor u true upperIn).aboveLower (.ofNumbers a b c) = true ↔
      p.Admits (some .atLeast) [a, b, c] := by
  obtain ⟨major, minor, patch⟩ := p
  rw [Interval.aboveLower_eq_true_iff]
  cases major <;> cases minor <;> cases patch <;>
    simp [ofParts, floor, Release.origin, Release.compare_ofNumbers_eq_lt_iff,
      Release.compare_ofNumbers_eq_eq_iff, Parts.Admits, Parts.leading, Parts.components, leadingNumbers] <;>
    omega

/-- The upper end of parts, behind the triples that an upper limit with them admits. -/
theorem exists_upper (hp : p.Short) :
    ∃ u upperIn, (ofParts p).lessEqual = .ok ⟨.origin, u, true, upperIn⟩ ∧
      (ofParts p).equal = .ok ⟨(ofParts p).floor, u, true, upperIn⟩ ∧
      ∀ {l lowerIn a b c}, (Interval.mk l u lowerIn upperIn).belowUpper (.ofNumbers a b c) = true ↔
        p.Admits (some .atMost) [a, b, c] := by
  obtain ⟨major, minor, patch⟩ := p
  obtain ⟨ha, hb, hc⟩ := hp
  cases major with
  | wildcard =>
    refine ⟨none, false, rfl, rfl, ?_⟩
    simp [Interval.belowUpper, Parts.Admits, Parts.leading, Parts.components, leadingNumbers]
  | number a =>
    cases minor with
    | wildcard =>
      have hn := nextMajor_eq ha
      refine ⟨some (.ofNumbers (a + 1) 0 0), false, ?_, ?_, ?_⟩
      · simp [ofParts, lessEqual, ceiling?, hn, Except.map]
      · simp [ofParts, equal, ceiling?, hn, Except.map]
      · intro l lowerIn x y z
        rw [Interval.belowUpper_eq_true_iff rfl]
        simp [Release.compare_ofNumbers_eq_lt_iff, Parts.Admits, Parts.leading, Parts.components, leadingNumbers]
        omega
    | number b =>
      cases patch with
      | wildcard =>
        have hn := nextMinor_eq a hb
        refine ⟨some (.ofNumbers a (b + 1) 0), false, ?_, ?_, ?_⟩
        · simp [ofParts, lessEqual, ceiling?, hn, Except.map]
        · simp [ofParts, equal, ceiling?, hn, Except.map]
        · intro l lowerIn x y z
          rw [Interval.belowUpper_eq_true_iff rfl]
          simp [Release.compare_ofNumbers_eq_lt_iff, Parts.Admits, Parts.leading, Parts.components, leadingNumbers]
          omega
      | number c =>
        refine ⟨some (.ofNumbers a b c), true, rfl, rfl, ?_⟩
        intro l lowerIn x y z
        rw [Interval.belowUpper_eq_true_iff rfl]
        simp [Release.compare_ofNumbers_eq_lt_iff, Release.compare_ofNumbers_eq_eq_iff, Parts.Admits,
          Parts.leading, Parts.components, leadingNumbers]
        omega

end Partial

def Operator.ofSide? : Option Side → Operator
  | none => .equal
  | some .atLeast => .greaterEqual
  | some .atMost => .lessEqual

open Partial in
theorem interval_ofParts (side? : Option Side) {p : Parts} (hp : p.Short) :
    ∃ i, (ofParts p).interval (.ofSide? side?) = .ok i ∧ i.Represents (p.Admits side?) := by
  have hf := floor_ofParts hp
  obtain ⟨u, upperIn, hle, heq, hbelow⟩ := exists_upper hp
  cases side? with
  | none =>
    refine ⟨_, heq, ⟨rfl, hf⟩, ?_⟩
    intro a b c
    rw [Interval.contains_eq_true_iff, aboveLower_floor, hbelow, Parts.admits_none_iff]
  | some side =>
    cases side with
    | atLeast =>
      refine ⟨_, rfl, ⟨rfl, hf⟩, ?_⟩
      intro a b c
      rw [Interval.contains_eq_true_iff, Interval.since, aboveLower_floor]
      exact and_iff_left (Interval.belowUpper_of_unbounded rfl _)
    | atMost =>
      refine ⟨_, hle, Interval.anchored_origin u upperIn, ?_⟩
      intro a b c
      rw [Interval.contains_eq_true_iff, hbelow]
      refine and_iff_right ?_
      rw [Interval.aboveLower_eq_true_iff, Release.origin, Release.compare_ofNumbers_eq_lt_iff,
        Release.compare_ofNumbers_eq_eq_iff]
      simp only [and_true]
      omega

theorem takeOperator_of_not_endsOperator {c : Char} (hc : endsOperator c = false) (cs : List Char) :
    takeOperator (c :: cs) = (.equal, c :: cs) := by
  simp only [endsOperator, Bool.or_eq_false_iff, beq_eq_false_iff_ne] at hc
  obtain ⟨⟨⟨⟨hgt, hlt⟩, heq⟩, hcaret⟩, htilde⟩ := hc
  rw [takeOperator] <;> simp_all

theorem endsOperator_of_isDigit {c : Char} (hc : c.isDigit = true) : endsOperator c = false := by
  simp only [endsOperator, Bool.or_eq_false_iff, beq_eq_false_iff_ne]
  exact ⟨⟨⟨⟨Text.ne_of_isDigit hc rfl, Text.ne_of_isDigit hc rfl⟩, Text.ne_of_isDigit hc rfl⟩,
    Text.ne_of_isDigit hc rfl⟩, Text.ne_of_isDigit hc rfl⟩

theorem endsOperator_of_mem_component {comp : Component} {c : Char} (h : c ∈ comp.chars) :
    endsOperator c = false := by
  rcases Component.mem_chars h with h | rfl
  · exact endsOperator_of_isDigit h
  · rfl

theorem takeOperator_comparatorChars (side? : Option Side) (p : Parts) :
    takeOperator (Version.comparatorChars side? p) = (.ofSide? side?, p.chars) := by
  cases side? with
  | some side => cases side <;> rfl
  | none =>
    obtain ⟨c, cs, hc⟩ := List.exists_cons_of_ne_nil p.major.chars_ne_nil
    have hp : p.chars = c :: (cs ++ '.' :: (p.minor.chars ++ '.' :: p.patch.chars)) := by
      rw [Parts.chars_eq, hc, List.cons_append]
    change takeOperator p.chars = (.equal, p.chars)
    rw [hp]
    exact takeOperator_of_not_endsOperator (endsOperator_of_mem_component (hc ▸ List.mem_cons_self)) _

/-- A comparator of short parts is read as an interval of the triples that the parts admit. -/
theorem readComparator_comparatorChars (side? : Option Side) {p : Parts} (hp : p.Short) :
    ∃ i, readComparator (Version.comparatorChars side? p) = .ok i ∧ i.Represents (p.Admits side?) := by
  obtain ⟨i, hi, hr⟩ := interval_ofParts side? hp
  refine ⟨i, ?_, hr⟩
  rw [readComparator, takeOperator_comparatorChars]
  change (Partial.read p.chars >>= fun q => q.interval (.ofSide? side?)) = .ok i
  rw [Partial.read_chars hp]
  exact hi

end Range

end RuntimeRanges
