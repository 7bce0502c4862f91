import RuntimeRanges.Proofs.Outcome
import RuntimeRanges.Range
import RuntimeRanges.Proofs.Range.Partial
import RuntimeRanges.Proofs.Release.Plain

/-!
The ends of the intervals that ranges are read into: plain releases, whatever comparators, hyphens and alternatives the
range has.
-/

namespace RuntimeRanges

open Numeral (Writable)

/-- The ends of the interval are plain releases. -/
structure Interval.PlainEnds (i : Interval) : Prop where
  lower : i.lower.Plain
  upper : ∀ u ∈ i.upper, u.Plain

namespace Interval

variable {i j : Interval} {u : Release}

theorem plain_origin : Release.origin.Plain :=
  Release.plain_ofNumbers (by decide +kernel) (by decide +kernel) (by decide +kernel)

theorem lower_meet (i j : Interval) : (i.meet j).lower = i.lower ∨ (i.meet j).lower = j.lower := by
  cases h : i.lower.compare j.lower <;> simp [meet, meetLower, h]

theorem upper_meet (i j : Interval) : (i.meet j).upper = i.upper ∨ (i.meet j).upper = j.upper := by
  cases hu : i.upper with
  | none => cases hw : j.upper <;> simp [meet, meetUpper, hu, hw]
  | some u =>
    cases hw : j.upper with
    | none => simp [meet, meetUpper, hu, hw]
    | some w => cases h : u.compare w <;> simp [meet, meetUpper, hu, hw, h]

theorem PlainEnds.meet (hi : i.PlainEnds) (hj : j.PlainEnds) : (i.meet j).PlainEnds where
  lower := by
    rcases lower_meet i j with h | h
    · exact h ▸ hi.lower
    · exact h ▸ hj.lower
  upper := by
    rcases upper_meet i j with h | h
    · exact h ▸ hi.upper
    · exact h ▸ hj.upper

theorem plainEnds_any : any.PlainEnds :=
  ⟨plain_origin, nofun⟩

end Interval

namespace Range

open RuntimeRanges.Interval (PlainEnds plainEnds_any plain_origin)

variable {cs : List Char} {i : Interval}

namespace Partial

variable {p : Partial} {a b c : Nat} {r : Release}

/-- The numbers of the partial version can be written, and its release is plain. -/
def Plain : Partial → Prop
  | any => True
  | major a => Writable a
  | minor a b => Writable a ∧ Writable b
  | full a b c release => (Writable a ∧ Writable b ∧ Writable c) ∧ release.Plain

theorem writable_of_readNumber (h : readNumber cs = .ok a) : Writable a :=
  Numeral.writable_of_read (mapError_eq_ok_iff.1 h)

theorem isTagChar_of_takeTag? {mark : Char} {tag rest : List Char} (h : takeTag? mark cs = some (tag, rest)) :
    ∀ c ∈ tag, isTagChar c = true := by
  rw [takeTag?] at h
  split at h
  · cases h
    exact List.forall_mem_nil _
  · dsimp only at h
    split at h
    · cases h
    · cases h
      exact List.all_eq_true.1 List.all_takeWhile

theorem isTagChar_of_ofChars? {s : Spelling} (h : Spelling.ofChars? cs = some s) : ∀ c ∈ s.pre, isTagChar c = true := by
  simp only [Spelling.ofChars?, Option.bind_eq_bind] at h
  obtain ⟨_, -, h⟩ := Option.bind_eq_some_iff.1 h
  obtain ⟨⟨pre, rest⟩, hpre, h⟩ := Option.bind_eq_some_iff.1 h
  obtain ⟨_, -, h⟩ := Option.bind_eq_some_iff.1 h
  split at h
  · cases h
    exact isTagChar_of_takeTag? hpre
  · cases h

theorem not_mem_releaseChars {mark : Char} {pre : List Char} (hpre : ∀ c ∈ pre, isTagChar c = true)
    (hmark : mark.isDigit = false ∧ isTagChar mark = false) : mark ∉ releaseChars a b c pre := by
  obtain ⟨hdigit, htag⟩ := hmark
  have hnumber (n : Nat) : mark ∉ Numeral.digits n := by
    intro hm
    rw [Numeral.isDigit_of_mem_digits hm] at hdigit
    cases hdigit
  have hpoint : mark ≠ '.' := by
    rintro rfl
    cases htag
  have hhyphen : mark ≠ '-' := by
    rintro rfl
    cases htag
  have hpre : mark ∉ pre := by
    intro hm
    rw [hpre mark hm] at htag
    cases htag
  rw [releaseChars]
  split <;> simp [hnumber, hpoint, hhyphen, hpre]

theorem plain_of_readRelease {pre : List Char} (hpre : ∀ c ∈ pre, isTagChar c = true)
    (h : readRelease (releaseChars a b c pre) = .ok r) : r.Plain :=
  Release.plain_of_read (readRelease_eq_ok_iff.1 h) (not_mem_releaseChars hpre (by decide))
    (not_mem_releaseChars hpre (by decide))

/-- A partial version has the numbers in front of the first wildcard, and a release if all three are given. -/
theorem ofSpelling_cases {s : Spelling} (h : ofSpelling s = .ok p) :
    p = any ∨
      (∃ as a, s.major = .digits as ∧ readNumber as = .ok a ∧ p = major a) ∨
      (∃ as bs a b, (s.major = .digits as ∧ s.minor = .digits bs) ∧ (readNumber as = .ok a ∧ readNumber bs = .ok b) ∧
        p = minor a b) ∨
      ∃ as bs cs a b c r, (s.major = .digits as ∧ s.minor = .digits bs ∧ s.patch = .digits cs) ∧
        (readNumber as = .ok a ∧ readNumber bs = .ok b ∧ readNumber cs = .ok c) ∧
        readRelease (releaseChars a b c s.pre) = .ok r ∧ p = full a b c r := by
  rw [ofSpelling] at h
  split at h
  · cases h
    exact .inl rfl
  · next as hmajor _ =>
    obtain ⟨a, ha, rfl⟩ := map_eq_ok_iff.1 h
    exact .inr (.inl ⟨as, a, hmajor, ha, rfl⟩)
  · next as bs hmajor hminor _ =>
    obtain ⟨a, ha, h⟩ := bind_eq_ok_iff.1 h
    obtain ⟨b, hb, h⟩ := bind_eq_ok_iff.1 h
    cases h
    exact .inr (.inr (.inl ⟨as, bs, a, b, ⟨hmajor, hminor⟩, ⟨ha, hb⟩, rfl⟩))
  · next as bs cs hmajor hminor hpatch =>
    obtain ⟨a, ha, h⟩ := bind_eq_ok_iff.1 h
    obtain ⟨b, hb, h⟩ := bind_eq_ok_iff.1 h
    obtain ⟨c, hc, h⟩ := bind_eq_ok_iff.1 h
    obtain ⟨r, hr, h⟩ := bind_eq_ok_iff.1 h
    cases h
    exact .inr (.inr (.inr ⟨as, bs, cs, a, b, c, r, ⟨hmajor, hminor, hpatch⟩, ⟨ha, hb, hc⟩, hr, rfl⟩))

theorem plain_of_ofSpelling {s : Spelling} (hpre : ∀ c ∈ s.pre, isTagChar c = true) (h : ofSpelling s = .ok p) :
    p.Plain := by
  obtain rfl | ⟨_, a, -, ha, rfl⟩ | ⟨_, _, a, b, -, ⟨ha, hb⟩, rfl⟩ | ⟨_, _, _, a, b, c, r, -, ⟨ha, hb, hc⟩, hr, rfl⟩ :=
    ofSpelling_cases h
  · trivial
  · exact writable_of_readNumber ha
  · exact ⟨writable_of_readNumber ha, writable_of_readNumber hb⟩
  · exact ⟨⟨writable_of_readNumber ha, writable_of_readNumber hb, writable_of_readNumber hc⟩,
      plain_of_readRelease hpre hr⟩

theorem plain_of_read (h : read cs = .ok p) : p.Plain := by
  rw [read] at h
  split at h
  · cases h
  · next s hs => exact plain_of_ofSpelling (isTagChar_of_ofChars? hs) h

theorem writable_zero : Writable 0 := by decide +kernel

theorem Plain.floor (hp : p.Plain) : p.floor.Plain := by
  cases p with
  | any => exact plain_origin
  | major a => exact Release.plain_ofNumbers hp writable_zero writable_zero
  | minor a b => exact Release.plain_ofNumbers hp.1 hp.2 writable_zero
  | full a b c r => exact hp.2

theorem writable_of_next (h : next a = .ok b) : Writable b := by
  unfold next Numeral.write at h
  split at h
  · next hw =>
    cases h
    split at hw
    · next hlt => exact hlt
    · cases hw
  · cases h

theorem plain_of_nextMajor (h : nextMajor a = .ok r) : r.Plain := by
  obtain ⟨n, hn, rfl⟩ := map_eq_ok_iff.1 h
  exact Release.plain_ofNumbers (writable_of_next hn) writable_zero writable_zero

theorem plain_of_nextMinor (ha : Writable a) (h : nextMinor a b = .ok r) : r.Plain := by
  obtain ⟨n, hn, rfl⟩ := map_eq_ok_iff.1 h
  exact Release.plain_ofNumbers ha (writable_of_next hn) writable_zero

theorem plain_of_nextPatch (ha : Writable a) (hb : Writable b) (h : nextPatch a b c = .ok r) : r.Plain := by
  obtain ⟨n, hn, rfl⟩ := map_eq_ok_iff.1 h
  exact Release.plain_ofNumbers ha hb (writable_of_next hn)

theorem Plain.ceiling? {o : Option Release} (hp : p.Plain) (h : p.ceiling? = .ok o) : ∀ u ∈ o, u.Plain := by
  cases p with
  | any =>
    cases h
    exact nofun
  | major a =>
    rw [Partial.ceiling?, map_eq_ok_iff] at h
    obtain ⟨r, hr, rfl⟩ := h
    rintro _ ⟨⟩
    exact plain_of_nextMajor hr
  | minor a b =>
    rw [Partial.ceiling?, map_eq_ok_iff] at h
    obtain ⟨r, hr, rfl⟩ := h
    rintro _ ⟨⟩
    exact plain_of_nextMinor hp.1 hr
  | full a b c release =>
    rw [Partial.ceiling?, map_eq_ok_iff] at h
    obtain ⟨r, hr, rfl⟩ := h
    rintro _ ⟨⟩
    exact plain_of_nextPatch hp.1.1 hp.1.2.1 hr

theorem plainEnds_between {l u : Release} (hl : l.Plain) (hu : u.Plain) : (Interval.between l u).PlainEnds :=
  ⟨hl, by rintro _ ⟨⟩; exact hu⟩

theorem Plain.equal (hp : p.Plain) (h : p.equal = .ok i) : i.PlainEnds := by
  cases p with
  | full a b c release =>
    cases h
    exact ⟨hp.2, by rintro _ ⟨⟩; exact hp.2⟩
  | any | major a | minor a b =>
    rw [Partial.equal, map_eq_ok_iff] at h
    · obtain ⟨o, ho, rfl⟩ := h
      exact ⟨hp.floor, hp.ceiling? ho⟩
    · exact nofun

theorem Plain.lessEqual (hp : p.Plain) (h : p.lessEqual = .ok i) : i.PlainEnds := by
  cases p with
  | full a b c release =>
    cases h
    exact ⟨plain_origin, by rintro _ ⟨⟩; exact hp.2⟩
  | any | major a | minor a b =>
    rw [Partial.lessEqual, map_eq_ok_iff] at h
    · obtain ⟨o, ho, rfl⟩ := h
      exact ⟨plain_origin, hp.ceiling? ho⟩
    · exact nofun

theorem Plain.greater (hp : p.Plain) (h : p.greater = .ok i) : i.PlainEnds := by
  cases p with
  | full a b c release =>
    cases h
    exact ⟨hp.2, nofun⟩
  | any | major a | minor a b =>
    rw [Partial.greater, map_eq_ok_iff] at h
    · obtain ⟨o, ho, rfl⟩ := h
      cases o with
      | none => exact plainEnds_between plain_origin plain_origin
      | some u => exact ⟨hp.ceiling? ho u rfl, nofun⟩
    · exact nofun

theorem Plain.less (hp : p.Plain) : p.less.PlainEnds := by
  cases p with
  | any => exact plainEnds_between plain_origin plain_origin
  | major a | minor a b | full a b c release => exact plainEnds_between plain_origin hp.floor

theorem Plain.caret (hp : p.Plain) (h : p.caret = .ok i) : i.PlainEnds := by
  cases p with
  | any =>
    cases h
    exact plainEnds_any
  | major a =>
    rw [Partial.caret, map_eq_ok_iff] at h
    obtain ⟨u, hu, rfl⟩ := h
    exact plainEnds_between hp.floor (plain_of_nextMajor hu)
  | minor a b =>
    rw [Partial.caret, map_eq_ok_iff] at h
    obtain ⟨u, hu, rfl⟩ := h
    refine plainEnds_between hp.floor ?_
    split at hu
    · exact plain_of_nextMajor hu
    · exact plain_of_nextMinor hp.1 hu
  | full a b c release =>
    rw [Partial.caret, map_eq_ok_iff] at h
    obtain ⟨u, hu, rfl⟩ := h
    refine plainEnds_between hp.floor ?_
    split at hu
    · exact plain_of_nextMajor hu
    · split at hu
      · exact plain_of_nextMinor hp.1.1 hu
      · exact plain_of_nextPatch hp.1.1 hp.1.2.1 hu

theorem Plain.tilde (hp : p.Plain) (h : p.tilde = .ok i) : i.PlainEnds := by
  cases p with
  | any =>
    cases h
    exact plainEnds_any
  | major a =>
    rw [Partial.tilde, map_eq_ok_iff] at h
    obtain ⟨u, hu, rfl⟩ := h
    exact plainEnds_between hp.floor (plain_of_nextMajor hu)
  | minor a b =>
    rw [Partial.tilde, map_eq_ok_iff] at h
    obtain ⟨u, hu, rfl⟩ := h
    exact plainEnds_between hp.floor (plain_of_nextMinor hp.1 hu)
  | full a b c release =>
    rw [Partial.tilde, map_eq_ok_iff] at h
    obtain ⟨u, hu, rfl⟩ := h
    exact plainEnds_between hp.floor (plain_of_nextMinor hp.1.1 hu)

theorem Plain.interval {operator : Operator} (hp : p.Plain) (h : p.interval operator = .ok i) : i.PlainEnds := by
  cases operator with
  | equal => exact hp.equal h
  | less =>
    cases h
    exact hp.less
  | lessEqual => exact hp.lessEqual h
  | greater => exact hp.greater h
  | greaterEqual =>
    cases h
    exact ⟨hp.floor, nofun⟩
  | caret => exact hp.caret h
  | tilde => exact hp.tilde h

end Partial

theorem plainEnds_of_readComparator (h : readComparator cs = .ok i) : i.PlainEnds := by
  obtain ⟨p, hp, h⟩ := bind_eq_ok_iff.1 h
  exact (Partial.plain_of_read hp).interval h

theorem plainEnds_of_meetAll {tokens : List (List Char)} {j : Interval} (hj : j.PlainEnds) (h : meetAll j tokens = .ok i) :
    i.PlainEnds := by
  induction tokens generalizing j with
  | nil =>
    cases h
    exact hj
  | cons token tokens ih =>
    obtain ⟨k, hk, h⟩ := bind_eq_ok_iff.1 h
    exact ih (hj.meet (plainEnds_of_readComparator hk)) h

theorem plainEnds_of_readHyphen {low high : List Char} (h : readHyphen low high = .ok i) : i.PlainEnds := by
  obtain ⟨p, hp, h⟩ := bind_eq_ok_iff.1 h
  obtain ⟨q, hq, h⟩ := bind_eq_ok_iff.1 h
  obtain ⟨upper, hu, h⟩ := bind_eq_ok_iff.1 h
  cases h
  have hlow : (Interval.since p.floor).PlainEnds := ⟨(Partial.plain_of_read hp).floor, nofun⟩
  exact hlow.meet ((Partial.plain_of_read hq).lessEqual hu)

theorem plainEnds_of_readAlternative (h : readAlternative cs = .ok i) : i.PlainEnds := by
  rw [readAlternative] at h
  split at h
  · exact plainEnds_of_readHyphen h
  · exact plainEnds_of_meetAll plainEnds_any h

theorem plainEnds_of_readAlternatives {css : List (List Char)} {is : List Interval} (h : readAlternatives css = .ok is) :
    ∀ i ∈ is, i.PlainEnds := by
  induction css generalizing is with
  | nil =>
    cases h
    exact List.forall_mem_nil _
  | cons cs css ih =>
    obtain ⟨i, hi, h⟩ := bind_eq_ok_iff.1 h
    obtain ⟨js, hjs, h⟩ := bind_eq_ok_iff.1 h
    cases h
    exact List.forall_mem_cons.2 ⟨plainEnds_of_readAlternative hi, ih hjs⟩

/-- A range is read into intervals that are not empty and whose ends are plain releases. -/
theorem plainEnds_of_read {text : String} {is : List Interval} (h : read text = .ok is) :
    ∀ i ∈ is, i.PlainEnds ∧ i.isEmpty = false := by
  obtain ⟨js, hjs, rfl⟩ := map_eq_ok_iff.1 h
  intro i hi
  obtain ⟨hmem, hne⟩ := List.mem_filter.1 hi
  exact ⟨plainEnds_of_readAlternatives hjs i hmem, by simpa using hne⟩

end Range

end RuntimeRanges
