import RuntimeRanges.Proofs.Lexicographic
import RuntimeRanges.Proofs.Range.Operand
import RuntimeRanges.Proofs.Range.Single
import RuntimeRanges.Proofs.Release.Local

/-!
Carets and tildes. The floor of a partial version has its numbers, whatever pre-release stands behind them. A caret or a
tilde admits the triples from the floor on that have the leading numbers in common with it.
-/

namespace RuntimeRanges

namespace Release

variable {r s : Release} {ms ns : List Nat} {tail : List Char}

theorem eq_of_readAll_digits (h : readAll (ns.map Numeral.digits) = .ok ms) : ms = ns := by
  induction ns generalizing ms with
  | nil =>
    cases h
    rfl
  | cons n ns ih =>
    obtain ⟨m, hm, h⟩ := bind_eq_ok_iff.1 h
    obtain ⟨ms, hms, h⟩ := bind_eq_ok_iff.1 h
    cases h
    rw [(readDigits_digits_eq_ok_iff.1 hm).2, ih hms]

theorem numbers_of_read {n : Nat} (hhyphen : ∀ c ∈ tail.head?, c = '-') (hblank : ∀ c ∈ tail, Text.isBlank c = false)
    (hmark : '!' ∉ tail) (h : read (joined '.' ((n :: ns).map Numeral.digits) ++ tail) = .ok r) :
    r.epoch = 0 ∧ r.numbers = n :: ns := by
  obtain ⟨hepoch, hnumbers⟩ :=
    readAll_of_read_runs (isRun_of_mem_map (n :: ns)) (fun c hc => .inl (hhyphen c hc)) hblank hmark h
  exact ⟨hepoch, eq_of_readAll_digits hnumbers⟩

theorem isLE_compareNumbers_iff (h : ms.length = ns.length) : (compareNumbers ms ns).isLE = true ↔ ms ≤ ns := by
  induction ms generalizing ns with
  | nil =>
    obtain rfl := List.eq_nil_of_length_eq_zero h.symm
    exact iff_of_true (by rw [compareNumbers]; rfl) le_rfl
  | cons m ms ih =>
    cases ns with
    | nil => cases h
    | cons n ns =>
      rw [compareNumbers, numbers_le_numbers_iff, ← ih (Nat.succ.inj h), Ordering.isLE_then_iff_or]
      simp [Nat.compare_eq_lt]

/-- The release ends those triples, from the numbers on, that have the first `k` of the numbers. -/
def Closes (u : Release) (ns : List Nat) (k : Nat) : Prop :=
  ∀ x y z, ns ≤ [x, y, z] → ((ofNumbers x y z).compare u = .lt ↔ [x, y, z].take k = ns.take k)

theorem closes_major (a : Nat) (ns : List Nat) : (ofNumbers (a + 1) 0 0).Closes (a :: ns) 1 := by
  intro x y z h
  rw [numbers_le_numbers_iff] at h
  rw [compare_ofNumbers_eq_lt_iff]
  simp only [List.take_succ_cons, List.take_zero, List.cons.injEq, and_true]
  omega

theorem closes_minor (a b : Nat) (ns : List Nat) : (ofNumbers a (b + 1) 0).Closes (a :: b :: ns) 2 := by
  intro x y z h
  rw [numbers_le_numbers_iff, numbers_le_numbers_iff] at h
  rw [compare_ofNumbers_eq_lt_iff]
  simp only [List.take_succ_cons, List.take_zero, List.cons.injEq, and_true]
  omega

theorem closes_patch (a b c : Nat) : (ofNumbers a b (c + 1)).Closes [a, b, c] 3 := by
  intro x y z h
  rw [numbers_le_numbers_iff, numbers_le_numbers_iff, numbers_le_numbers_iff] at h
  rw [compare_ofNumbers_eq_lt_iff]
  simp only [List.take_succ_cons, List.take_zero, List.cons.injEq, and_true]
  omega

end Release

namespace Range

namespace Partial

open Numeral (ShortRuns)

variable {p : Partial} {cs : List Char} {a b c x y z k : Nat} {r : Release}

theorem numbers_of_readRelease {pre : List Char} (hpre : ∀ c ∈ pre, isTagChar c = true)
    (h : readRelease (releaseChars a b c pre) = .ok r) : r.epoch = 0 ∧ r.numbers = [a, b, c] := by
  have hsplit : releaseChars a b c pre =
      Release.joined '.' ([a, b, c].map Numeral.digits) ++ (if pre.isEmpty then [] else '-' :: pre) := by
    simp [releaseChars, Release.joined]
  rw [readRelease_eq_ok_iff, hsplit] at h
  refine Release.numbers_of_read ?_ ?_ ?_ h
  · cases pre with
    | nil => rintro _ ⟨⟩
    | cons c pre => rintro _ ⟨⟩; rfl
  · cases pre with
    | nil => exact List.forall_mem_nil _
    | cons c pre =>
      refine List.forall_mem_cons.2 ⟨rfl, fun d hd => ?_⟩
      exact isBlank_of_isOperandChar (isOperandChar_of_isTagChar (hpre d hd))
  · have hmark : '!' ∉ releaseChars a b c pre := not_mem_releaseChars hpre (by decide)
    rw [hsplit] at hmark
    exact fun hm => hmark (List.mem_append_right _ hm)

theorem numbers_floor_of_read (h : read cs = .ok p) :
    p.floor.epoch = 0 ∧ p.floor.numbers = p.numbers ++ List.replicate (3 - p.numbers.length) 0 := by
  cases p with
  | any | major a | minor a b => exact ⟨rfl, rfl⟩
  | full a b c r =>
    rw [read] at h
    split at h
    · cases h
    · next s hs =>
      obtain h | ⟨_, _, -, -, h⟩ | ⟨_, _, _, _, -, -, h⟩ | ⟨_, _, _, _, _, _, _, -, -, hr, h⟩ := ofSpelling_cases h
      · cases h
      · cases h
      · cases h
      · cases h
        exact numbers_of_readRelease (isTagChar_of_ofChars? hs) hr

/-- A triple from the floor on is not before the numbers of the partial version. -/
theorem numbers_le_of_floor (h : read cs = .ok p) (hle : (p.floor.compare (.ofNumbers x y z)).isLE = true) :
    p.numbers ≤ [x, y, z] := by
  obtain ⟨hepoch, hnumbers⟩ := numbers_floor_of_read h
  have hlen : [x, y, z].length = p.numbers.length + (3 - p.numbers.length) := by
    cases p <;> rfl
  have hcompare : (Release.compareNumbers p.floor.numbers [x, y, z]).isLE = true := by
    rw [Release.compare, hepoch] at hle
    exact Ordering.isLE_left_of_isLE_then hle
  rw [hnumbers, Release.isLE_compareNumbers_iff (by simp [hlen]), append_zeros_le_iff hlen] at hcompare
  exact hcompare.trans (take_le _ _)

/-- Whether a triple is not before the floor and has the first `k` numbers of the partial version; nothing else is asked
of it where no number is given. -/
def Keeps (p : Partial) (k x y z : Nat) : Prop :=
  p.numbers = [] ∨ (p.floor.compare (.ofNumbers x y z)).isLE = true ∧ [x, y, z].take k = p.numbers.take k

/-- How many of the numbers a caret keeps: those up to the first one that is not zero, and all if there is none. -/
def caretWidth : List Nat → Nat
  | [] => 0
  | n :: ns => if n = 0 then caretWidth ns + 1 else 1

def tildeWidth (ns : List Nat) : Nat :=
  min 2 ns.length

theorem nextPatch_eq (a b : Nat) (hc : Numeral.Short c) : nextPatch a b c = .ok (.ofNumbers a b (c + 1)) := by
  rw [nextPatch, next_eq hc]
  rfl

theorem contains_between_iff {u : Release} (h : read cs = .ok p) (hne : p.numbers ≠ []) (hu : u.Closes p.numbers k) :
    (Interval.between p.floor u).contains (.ofNumbers x y z) = true ↔ p.Keeps k x y z := by
  have hlower : (Interval.between p.floor u).aboveLower (.ofNumbers x y z) = true ↔
      (p.floor.compare (.ofNumbers x y z)).isLE = true := by
    rw [Interval.aboveLower_eq_true_iff, Ordering.isLE_iff_eq_lt_or_eq_eq]
    exact or_congr_right (and_iff_left rfl)
  have hupper : (Interval.between p.floor u).belowUpper (.ofNumbers x y z) = true ↔
      (Release.ofNumbers x y z).compare u = .lt := by
    rw [Interval.belowUpper_eq_true_iff rfl]
    exact or_iff_left fun hin => Bool.noConfusion hin.2
  rw [Interval.contains_eq_true_iff, hlower, hupper, Keeps, or_iff_right hne]
  exact and_congr_right fun hle => hu x y z (numbers_le_of_floor h hle)

theorem caretWidth_zero (ns : List Nat) : caretWidth (0 :: ns) = caretWidth ns + 1 := rfl

theorem caretWidth_pos (ha : 0 < a) (ns : List Nat) : caretWidth (a :: ns) = 1 :=
  if_neg ha.ne'

theorem exists_caret (hp : p.Short) (hne : p.numbers ≠ []) :
    ∃ u, p.interval .caret = .ok (.between p.floor u) ∧ u.Closes p.numbers (caretWidth p.numbers) := by
  cases p with
  | any => exact absurd rfl hne
  | major a =>
    have hmajor := nextMajor_eq (hp a List.mem_cons_self)
    have hk : caretWidth [a] = 1 := ite_self 1
    refine ⟨_, by rw [interval, caret, hmajor]; rfl, ?_⟩
    rw [numbers, hk]
    exact Release.closes_major a []
  | minor a b =>
    have hmajor := nextMajor_eq (hp a List.mem_cons_self)
    have hminor := nextMinor_eq a (hp b (List.mem_cons_of_mem _ List.mem_cons_self))
    rcases Nat.eq_zero_or_pos a with rfl | ha
    · have hk : caretWidth [b] = 1 := ite_self 1
      refine ⟨_, by rw [interval, caret, if_neg (Nat.lt_irrefl 0), hminor]; rfl, ?_⟩
      rw [numbers, caretWidth_zero, hk]
      exact Release.closes_minor 0 b []
    · refine ⟨_, by rw [interval, caret, if_pos ha, hmajor]; rfl, ?_⟩
      rw [numbers, caretWidth_pos ha]
      exact Release.closes_major a [b]
  | full a b c r =>
    have hmajor := nextMajor_eq (hp a List.mem_cons_self)
    have hminor := nextMinor_eq a (hp b (List.mem_cons_of_mem _ List.mem_cons_self))
    have hpatch := nextPatch_eq a b (hp c (List.mem_cons_of_mem _ (List.mem_cons_of_mem _ List.mem_cons_self)))
    rcases Nat.eq_zero_or_pos a with rfl | ha
    · rcases Nat.eq_zero_or_pos b with rfl | hb
      · have hk : caretWidth [c] = 1 := ite_self 1
        refine ⟨_, by rw [interval, caret, if_neg (Nat.lt_irrefl 0), if_neg (Nat.lt_irrefl 0), hpatch]; rfl, ?_⟩
        rw [numbers, caretWidth_zero, caretWidth_zero, hk]
        exact Release.closes_patch 0 0 c
      · refine ⟨_, by rw [interval, caret, if_neg (Nat.lt_irrefl 0), if_pos hb, hminor]; rfl, ?_⟩
        rw [numbers, caretWidth_zero, caretWidth_pos hb]
        exact Release.closes_minor 0 b [c]
    · refine ⟨_, by rw [interval, caret, if_pos ha, hmajor]; rfl, ?_⟩
      rw [numbers, caretWidth_pos ha]
      exact Release.closes_major a [b, c]

theorem exists_tilde (hp : p.Short) (hne : p.numbers ≠ []) :
    ∃ u, p.interval .tilde = .ok (.between p.floor u) ∧ u.Closes p.numbers (tildeWidth p.numbers) := by
  cases p with
  | any => exact absurd rfl hne
  | major a =>
    have hmajor := nextMajor_eq (hp a List.mem_cons_self)
    exact ⟨_, by rw [interval, tilde, hmajor]; rfl, Release.closes_major a []⟩
  | minor a b =>
    have hminor := nextMinor_eq a (hp b (List.mem_cons_of_mem _ List.mem_cons_self))
    exact ⟨_, by rw [interval, tilde, hminor]; rfl, Release.closes_minor a b []⟩
  | full a b c r =>
    have hminor := nextMinor_eq a (hp b (List.mem_cons_of_mem _ List.mem_cons_self))
    exact ⟨_, by rw [interval, tilde, hminor]; rfl, Release.closes_minor a b [c]⟩

end Partial

variable {release text : String} {a b c : Nat} {p : Partial}

/-- A triple satisfies a caret or a tilde with a partial version where it is not before its floor and has its leading
numbers: for a caret up to the first one that is not zero, for a tilde the first two. -/
theorem satisfies_caret_tilde (hr : readRelease release.toList = .ok (.ofNumbers a b c))
    (hp : Partial.read (Text.trimEnd text.toList) = .ok p) (hruns : Numeral.ShortRuns text.toList) :
    ∃ caret tilde : Bool, satisfies release ("^" ++ text) = .ok caret ∧ satisfies release ("~" ++ text) = .ok tilde ∧
      satisfies release ("~>" ++ text) = .ok tilde ∧
      (caret = true ↔ p.Keeps (Partial.caretWidth p.numbers) a b c) ∧
      (tilde = true ↔ p.Keeps (Partial.tildeWidth p.numbers) a b c) := by
  have hshort : p.Short := Partial.short_of_read hruns.trimEnd hp
  have hany := Interval.contains_any a b c
  have hsign : "~>" ∈ Operator.tilde.signs := List.mem_cons_of_mem _ List.mem_cons_self
  by_cases hne : p.numbers = []
  · obtain rfl : p = .any := by cases p <;> first | rfl | cases hne
    have hcaret : Partial.any.interval .caret = .ok .any := rfl
    have htilde : Partial.any.interval .tilde = .ok .any := rfl
    refine ⟨_, _, satisfies_sign_of_origin hr hany hp List.mem_cons_self hcaret,
      satisfies_sign_of_origin hr hany hp List.mem_cons_self htilde,
      satisfies_sign_of_origin hr hany hp hsign htilde, ?_, ?_⟩
    · exact iff_of_true hany (.inl rfl)
    · exact iff_of_true hany (.inl rfl)
  · obtain ⟨u, hcaret, hu⟩ := Partial.exists_caret hshort hne
    obtain ⟨v, htilde, hv⟩ := Partial.exists_tilde hshort hne
    refine ⟨_, _, satisfies_sign_of_origin hr hany hp List.mem_cons_self hcaret,
      satisfies_sign_of_origin hr hany hp List.mem_cons_self htilde,
      satisfies_sign_of_origin hr hany hp hsign htilde, ?_, ?_⟩
    · exact Partial.contains_between_iff hp hne hu
    · exact Partial.contains_between_iff hp hne hv

/-- The caret keeps the zero and the number behind it, so that a triple after a pre-release of `0.2.0` satisfies it. -/
theorem satisfies_caret_tilde_prerelease : satisfies "0.2.7" "^0.2.0-rc1" = .ok true := by
  have hr : readRelease "0.2.7".toList = .ok (.ofNumbers 0 2 7) := by rfl
  have hp : Partial.read (Text.trimEnd "0.2.0-rc1".toList) =
      .ok (.full 0 2 0 { numbers := [0, 2, 0], pre := some (.candidate, 1) }) := by rfl
  obtain ⟨caret, tilde, hcaret, -, -, hiff, -⟩ :=
    satisfies_caret_tilde hr hp (Numeral.shortRuns_of_length_lt (by decide))
  obtain rfl : caret = true := by
    refine hiff.2 (.inr ⟨?_, rfl⟩)
    simp only [Partial.floor, Release.compare, Release.ofNumbers, Release.compareNumbers]
    rfl
  exact hcaret

end Range

end RuntimeRanges
