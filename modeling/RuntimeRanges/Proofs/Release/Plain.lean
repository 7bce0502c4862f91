import RuntimeRanges.Proofs.Release.Cutting

/-!
Plain releases, those without an epoch and without a local part. A text without the marks of both is read as one, and all
its numbers can be written.
-/

namespace RuntimeRanges

namespace Numeral

variable {n : Nat} {cs : List Char}

theorem digitsFrom_lt (n : Nat) (cs : List Char) : digitsFrom n cs < (n + 1) * Nat.pow 10 cs.length := by
  induction cs generalizing n with
  | nil => exact Nat.lt_of_lt_of_le (Nat.lt_succ_self n) (Nat.le_mul_of_pos_right _ Nat.one_pos)
  | cons c cs ih =>
    have hdigit : (Text.digitValue? c).getD 0 < 10 := by
      cases hc : Text.digitValue? c with
      | none => exact Nat.zero_lt_succ 9
      | some d => exact Text.digitValue?_lt hc
    have hpow : Nat.pow 10 (c :: cs).length = 10 * Nat.pow 10 cs.length := Nat.pow_succ'
    calc digitsFrom n (c :: cs)
        < (n * 10 + (Text.digitValue? c).getD 0 + 1) * Nat.pow 10 cs.length := ih _
      _ ≤ (n + 1) * 10 * Nat.pow 10 cs.length := Nat.mul_le_mul_right _ (by omega)
      _ = (n + 1) * Nat.pow 10 (c :: cs).length := by rw [hpow, Nat.mul_assoc]

theorem value_lt {k : Nat} (h : cs.length ≤ k) : value cs < Nat.pow 10 k := by
  have hlt := digitsFrom_lt 0 cs
  rw [Nat.zero_add, Nat.one_mul] at hlt
  exact Nat.lt_of_lt_of_le hlt (Nat.pow_le_pow_right (by decide) h)

theorem writable_of_read (h : read cs = .ok n) : Writable n := by
  rw [read] at h
  split at h
  · next hlen =>
    cases h
    exact value_lt hlen
  · cases h

end Numeral

namespace Text

variable {c : Char} {cs : List Char}

/-- A small letter alone can come from another character when case is ignored. -/
theorem toLower_of_lt (h : c.toLower.toNat < 97) : c.toLower = c := by
  unfold Char.toLower at h ⊢
  split
  · next hc =>
    rw [dif_pos hc] at h
    have hlow : 65 ≤ c.val.toNat := hc.1
    have hhigh : c.val.toNat ≤ 90 := hc.2
    have hsum : (c.val + ('a'.val - 'A'.val)).toNat = (c.val.toNat + 32) % 2 ^ 32 := UInt32.toNat_add _ _
    change (c.val + ('a'.val - 'A'.val)).toNat < 97 at h
    omega
  · rfl

theorem mem_of_mem_map_toLower (hlt : c.toNat < 97) (h : c ∈ cs.map Char.toLower) : c ∈ cs := by
  obtain ⟨d, hd, rfl⟩ := List.mem_map.1 h
  rwa [toLower_of_lt hlt]

theorem mem_of_mem_trim (h : c ∈ trim cs) : c ∈ cs := by
  have hend {ds : List Char} (h : c ∈ trimEnd ds) : c ∈ ds :=
    List.mem_reverse.1 ((List.dropWhile_suffix isBlank).subset (List.mem_reverse.1 h))
  exact (List.dropWhile_suffix isBlank).subset (hend h)

end Text

namespace Release

open Numeral (Writable)

/-- A release without an epoch and without a local part, all numbers of which can be written. -/
structure Plain (r : Release) : Prop where
  epoch : r.epoch = 0
  numbers_ne_nil : r.numbers ≠ []
  numbers : ∀ n ∈ r.numbers, Writable n
  pre : ∀ p ∈ r.pre, Writable p.2
  post : ∀ n ∈ r.post, Writable n
  dev : ∀ n ∈ r.dev, Writable n
  localParts : r.localParts = []

theorem plain_ofNumbers {a b c : Nat} (ha : Writable a) (hb : Writable b) (hc : Writable c) :
    (ofNumbers a b c).Plain where
  epoch := rfl
  numbers_ne_nil := List.cons_ne_nil _ _
  numbers := by
    intro n hn
    simp only [ofNumbers, List.mem_cons, List.not_mem_nil, or_false] at hn
    obtain rfl | rfl | rfl := hn
    · exact ha
    · exact hb
    · exact hc
  pre := nofun
  post := nofun
  dev := nofun
  localParts := rfl

section Cutting

variable {cs rest : List Char}

/-- Only an exclamation mark ends an epoch. -/
theorem takeEpoch_of_noMark (h : '!' ∉ cs) : takeEpoch cs = ([], cs) := by
  rw [takeEpoch]
  split
  · rfl
  · next digits rest _ hdigits =>
    have hrest : '!' :: rest <:+ cs := by
      rw [← show (takeDigits cs).2 = '!' :: rest by rw [hdigits]]
      exact (leavesAscii_takeDigits cs).suffix
    exact absurd (hrest.subset List.mem_cons_self) h
  · rfl

theorem eq_nil_of_takeLocal?_append {pieces : List (List Char)} (hplus : '+' ∉ cs)
    (h : takeLocal? (cs ++ rest) = some pieces) : cs = [] := by
  cases cs with
  | nil => rfl
  | cons c cs =>
    have hc : c ≠ '+' := fun hc => hplus (hc ▸ List.mem_cons_self)
    rw [List.cons_append, takeLocal?] at h
    · cases h
    · exact List.cons_ne_nil c _
    · rintro _ ⟨⟩
      exact hc rfl

theorem takeLocal?_of_noMark {pieces : List (List Char)} (h : takeLocal? cs = some pieces) (hplus : '+' ∉ cs) :
    pieces = [] := by
  rw [← List.append_nil cs] at h
  obtain rfl := eq_nil_of_takeLocal?_append hplus h
  cases h
  rfl

theorem ofChars?_of_noMarks {s : Spelling} (h : Spelling.ofChars? cs = some s) (hmark : '!' ∉ cs) (hplus : '+' ∉ cs) :
    s.epoch = [] ∧ s.numbers ≠ [] ∧ s.localParts = [] := by
  obtain ⟨hepoch, hnumbers, rest, hrest, hlocal⟩ := exists_of_ofChars? h
  rw [takeEpoch_of_noMark fun hm => hmark ((leavesAscii_v cs).suffix.subset hm)] at hepoch
  exact ⟨hepoch, hnumbers, takeLocal?_of_noMark hlocal fun hm => hplus (hrest.suffix.subset hm)⟩

end Cutting

variable {r : Release} {cs : List Char} {n : Nat}

theorem writable_of_readDigits (h : readDigits cs = .ok n) : Writable n :=
  Numeral.writable_of_read (mapError_eq_ok_iff.1 h)

theorem writable_of_readAll {pieces : List (List Char)} {ns : List Nat} (h : readAll pieces = .ok ns) :
    ns.length = pieces.length ∧ ∀ n ∈ ns, Writable n := by
  induction pieces generalizing ns with
  | nil =>
    cases h
    exact ⟨rfl, nofun⟩
  | cons piece pieces ih =>
    obtain ⟨m, hm, h⟩ := bind_eq_ok_iff.1 h
    obtain ⟨ms, hms, h⟩ := bind_eq_ok_iff.1 h
    cases h
    obtain ⟨hlen, hw⟩ := ih hms
    exact ⟨congrArg (· + 1) hlen, List.forall_mem_cons.2 ⟨writable_of_readDigits hm, hw⟩⟩

theorem writable_of_readOptional {piece : Option (List Char)} {o : Option Nat} (h : readOptional piece = .ok o) :
    ∀ n ∈ o, Writable n := by
  cases piece with
  | none =>
    cases h
    exact nofun
  | some digits =>
    obtain ⟨m, hm, rfl⟩ := map_eq_ok_iff.1 h
    rintro _ ⟨⟩
    exact writable_of_readDigits hm

theorem parts_of_ofSpelling {s : Spelling} (h : ofSpelling s = .ok r) :
    readDigits s.epoch = .ok r.epoch ∧ readAll s.numbers = .ok r.numbers ∧
      (∃ n, readOptional (s.pre.map Prod.snd) = .ok n ∧ r.pre = s.pre.map fun p => (p.1, n.getD 0)) ∧
      readOptional s.post = .ok r.post ∧ readOptional s.dev = .ok r.dev ∧ readLocal s.localParts = .ok r.localParts := by
  simp only [ofSpelling] at h
  obtain ⟨epoch, he, h⟩ := bind_eq_ok_iff.1 h
  obtain ⟨ns, hns, h⟩ := bind_eq_ok_iff.1 h
  obtain ⟨preNumber, hpre, h⟩ := bind_eq_ok_iff.1 h
  obtain ⟨post, hpost, h⟩ := bind_eq_ok_iff.1 h
  obtain ⟨dev, hdev, h⟩ := bind_eq_ok_iff.1 h
  obtain ⟨locals, hlocals, h⟩ := bind_eq_ok_iff.1 h
  cases h
  exact ⟨he, hns, ⟨preNumber, hpre, rfl⟩, hpost, hdev, hlocals⟩

theorem plain_of_ofSpelling {s : Spelling} (h : ofSpelling s = .ok r) (hepoch : s.epoch = []) (hnumbers : s.numbers ≠ [])
    (hlocal : s.localParts = []) : r.Plain := by
  obtain ⟨he, hns, ⟨preNumber, hpre, hr⟩, hpost, hdev, hlocals⟩ := parts_of_ofSpelling h
  obtain ⟨hlen, hw⟩ := writable_of_readAll hns
  rw [hepoch] at he
  rw [hlocal] at hlocals
  refine ⟨(Except.ok.inj he).symm, ?_, hw, ?_, writable_of_readOptional hpost, writable_of_readOptional hdev,
    (Except.ok.inj hlocals).symm⟩
  · exact List.ne_nil_of_length_pos (hlen ▸ List.length_pos_iff.2 hnumbers)
  · intro p hp
    rw [hr] at hp
    obtain ⟨⟨stage, digits⟩, hstage, rfl⟩ := Option.map_eq_some_iff.1 hp
    rw [hstage] at hpre
    obtain ⟨m, hm, rfl⟩ := map_eq_ok_iff.1 hpre
    exact writable_of_readDigits hm

/-- A text without the marks of an epoch and of a local part is read as a plain release. -/
theorem plain_of_read (h : read cs = .ok r) (hmark : '!' ∉ cs) (hplus : '+' ∉ cs) : r.Plain := by
  have hmem {c : Char} (hc : c ∈ (Text.trim cs).map Char.toLower) (hlt : c.toNat < 97) : c ∈ cs :=
    Text.mem_of_mem_trim (Text.mem_of_mem_map_toLower hlt hc)
  obtain ⟨s, hs, hr⟩ := read_eq_ok_iff.1 h
  have hnone := ofChars?_of_noMarks hs (fun hc => hmark (hmem hc (by decide))) fun hc => hplus (hmem hc (by decide))
  exact plain_of_ofSpelling hr hnone.1 hnone.2.1 hnone.2.2

end Release

end RuntimeRanges
