import RuntimeRanges.Proofs.Version.Pattern
import RuntimeRanges.Proofs.Version.RoundTrip

/-!
Satisfaction as a search. The test is asked about the ways to fill in digits, from the least one on in lexicographic
order, until it accepts one of them or fails; nothing else is asked.
-/

namespace RuntimeRanges

/-- The texts that a test was asked about, each with the range. -/
abbrev Calls := List (String × String)

section

variable {ε : Type}

/-- The test that writes down what it is asked before it answers or fails. -/
def recorded (leaf : String → String → Except ε Bool) (text range : String) : ExceptT ε (StateM Calls) Bool :=
  ExceptT.mk do
    modify (· ++ [(text, range)])
    return leaf text range

variable {leaf : String → String → Except ε Bool} {range text : String} {texts : List String} {calls : Calls}

theorem run_anyM_recorded_cons :
    ((text :: texts).anyM (recorded leaf · range)).run.run calls =
      match leaf text range with
      | .ok false => (texts.anyM (recorded leaf · range)).run.run (calls ++ [(text, range)])
      | answer => (answer, calls ++ [(text, range)]) := by
  have hrecorded : (recorded leaf text range).run.run calls = (leaf text range, calls ++ [(text, range)]) := rfl
  rw [List.anyM_cons, ExceptT.run_bind, StateT.run_bind, hrecorded]
  cases leaf text range with
  | error e => rfl
  | ok found => cases found <;> rfl

theorem run_anyM_recorded_of_refused (h : ∀ text ∈ texts, leaf text range = .ok false) :
    (texts.anyM (recorded leaf · range)).run.run calls = (.ok false, calls ++ texts.map (·, range)) := by
  -- Each text is asked about behind the calls that were made before, so the induction is over any calls.
  induction texts generalizing calls with
  | nil =>
    rw [List.map_nil, List.append_nil]
    rfl
  | cons text texts ih =>
    rw [List.forall_mem_cons] at h
    rw [run_anyM_recorded_cons, h.1]
    dsimp only
    rw [ih h.2, List.append_assoc]
    rfl

theorem run_anyM_recorded_of_settled {before after : List String} (h : ∀ t ∈ before, leaf t range = .ok false)
    (hs : leaf text range ≠ .ok false) :
    ((before ++ text :: after).anyM (recorded leaf · range)).run.run calls =
      (leaf text range, calls ++ (before ++ [text]).map (·, range)) := by
  induction before generalizing calls with
  | nil =>
    rw [List.nil_append, run_anyM_recorded_cons]
    split
    · next hrefused => exact absurd hrefused hs
    · rfl
  | cons first before ih =>
    rw [List.forall_mem_cons] at h
    rw [List.cons_append, run_anyM_recorded_cons, h.1]
    dsimp only
    rw [ih h.2, List.append_assoc]
    rfl

end

/-- How a search through texts goes: those that are refused are passed over, the first other one ends it with its own
answer or failure, and the test is asked about the texts up to there, in order and each with the range. Where the test
always answers, the search finds out whether it accepts one of the texts. -/
structure Explores {ε : Type} (texts : List String) (range : String) (leaf : String → String → Except ε Bool)
    (result : Except ε Bool × Calls) : Prop where
  refused : (∀ t ∈ texts, leaf t range = .ok false) → result = (.ok false, texts.map (·, range))
  settled :
    ∀ before text after, texts = before ++ text :: after → (∀ t ∈ before, leaf t range = .ok false) →
      leaf text range ≠ .ok false → result = (leaf text range, (before ++ [text]).map (·, range))
  answered :
    (∀ t ∈ texts, ∃ answer, leaf t range = .ok answer) →
      (result.1 = .ok true ↔ ∃ t ∈ texts, leaf t range = .ok true)

theorem refused_or_settled {ε : Type} (leaf : String → String → Except ε Bool) (range : String) (texts : List String) :
    (∀ t ∈ texts, leaf t range = .ok false) ∨
      ∃ before text after, texts = before ++ text :: after ∧ (∀ t ∈ before, leaf t range = .ok false) ∧
        leaf text range ≠ .ok false := by
  induction texts with
  | nil => exact .inl (List.forall_mem_nil _)
  | cons first texts ih =>
    by_cases hfirst : leaf first range = .ok false
    · rcases ih with hrest | ⟨before, text, after, rfl, hbefore, htext⟩
      · exact .inl (List.forall_mem_cons.2 ⟨hfirst, hrest⟩)
      · exact .inr ⟨first :: before, text, after, rfl, List.forall_mem_cons.2 ⟨hfirst, hbefore⟩, htext⟩
    · exact .inr ⟨[], first, texts, rfl, List.forall_mem_nil _, hfirst⟩

theorem explores_anyM {ε : Type} (leaf : String → String → Except ε Bool) (range : String) (texts : List String) :
    Explores texts range leaf ((texts.anyM (recorded leaf · range)).run.run []) where
  refused h := run_anyM_recorded_of_refused h
  settled before text after htexts h hs := by
    rw [htexts]
    exact run_anyM_recorded_of_settled h hs
  answered hanswers := by
    rcases refused_or_settled leaf range texts with hall | ⟨before, text, after, rfl, hbefore, htext⟩
    · rw [run_anyM_recorded_of_refused hall]
      refine iff_of_false nofun ?_
      rintro ⟨t, ht, haccept⟩
      rw [hall t ht] at haccept
      cases haccept
    · have hmem : text ∈ before ++ text :: after := List.mem_append_right _ List.mem_cons_self
      obtain ⟨answer, hanswer⟩ := hanswers text hmem
      have haccept : leaf text range = .ok true := by
        cases answer with
        | true => exact hanswer
        | false => exact absurd hanswer htext
      rw [run_anyM_recorded_of_settled hbefore htext]
      exact iff_of_true haccept ⟨text, hmem, haccept⟩

namespace Component

def numbers : Component → List Nat
  | number n => [n]
  | wildcard => wildcardDigits

theorem choices_eq (comp : Component) : comp.choices = comp.numbers.map number := by
  cases comp <;> rfl

theorem pairwise_numbers (comp : Component) : comp.numbers.Pairwise (· < ·) := by
  cases comp with
  | number n => exact List.pairwise_singleton _ n
  | wildcard => exact List.pairwise_lt_range

theorem length_numbers (comp : Component) : comp.numbers.length = Nat.pow 10 ([comp].countP isWildcard) := by
  cases comp <;> rfl

end Component

namespace Parts

variable {p : Parts}

def text (p : Parts) : String :=
  String.ofList p.chars

def wildcards (p : Parts) : Nat :=
  p.components.countP Component.isWildcard

def expansionTexts (p : Parts) : List String :=
  p.expansions.map text

theorem expansions_eq (p : Parts) :
    p.expansions =
      p.major.numbers.flatMap fun a => p.minor.numbers.flatMap fun b => p.patch.numbers.map fun c => ofNumbers a b c := by
  simp only [expansions, Component.choices_eq, List.flatMap_map, List.map_map]
  rfl

theorem length_expansions (p : Parts) : p.expansions.length = Nat.pow 10 p.wildcards := by
  have hcount : p.wildcards =
      [p.major].countP Component.isWildcard + [p.minor].countP Component.isWildcard +
        [p.patch].countP Component.isWildcard := by
    rw [← List.countP_append, ← List.countP_append]
    rfl
  have hpow (k l : Nat) : Nat.pow 10 (k + l) = Nat.pow 10 k * Nat.pow 10 l := Nat.pow_add 10 k l
  rw [expansions_eq, hcount, hpow, hpow, ← Component.length_numbers, ← Component.length_numbers,
    ← Component.length_numbers]
  simp [List.length_flatMap, Nat.mul_assoc]

theorem allWildcards_iff : p.allWildcards = true ↔ ∀ comp ∈ p.components, comp.isWildcard = true := by
  simp [allWildcards, components, and_assoc]

theorem length_expansions_le (h : p.allWildcards = false) : p.expansions.length ≤ 100 := by
  have hne : p.wildcards ≠ p.components.length := by
    rw [wildcards, Ne, List.countP_eq_length, ← allWildcards_iff, h]
    exact nofun
  have hle : p.wildcards ≤ p.components.length := List.countP_le_length
  have hlen : p.components.length = 3 := rfl
  rw [length_expansions]
  exact Nat.pow_le_pow_right (by decide) (show p.wildcards ≤ 2 by omega)

/-- Parts are filled in with all numbers that fit, from the least ones on, so that the first place varies slowest. -/
structure Enumerates (p : Parts) (qs : List Parts) : Prop where
  mem : ∀ q, q ∈ qs ↔ ∃ a b c, q = ofNumbers a b c ∧ p.Covers [a, b, c]
  ascending : qs.Pairwise fun q r => q.leading < r.leading

theorem mem_numbers_iff {comp : Component} {n : Nat} : n ∈ comp.numbers ↔ comp = .number n ∨ comp = .wildcard ∧ n ≤ 9 := by
  rw [← Component.number_mem_choices_iff, Component.choices_eq]
  simp

theorem enumerates_expansions (p : Parts) : p.Enumerates p.expansions where
  mem q := by
    simp only [expansions_eq, List.mem_flatMap, List.mem_map, mem_numbers_iff, Covers, components, List.zip_cons_cons,
      List.zip_nil_right, List.forall_mem_cons]
    constructor
    · rintro ⟨a, ha, b, hb, c, hc, rfl⟩
      exact ⟨a, b, c, rfl, ha, hb, hc, List.forall_mem_nil _⟩
    · rintro ⟨a, b, c, rfl, ha, hb, hc, -⟩
      exact ⟨a, ha, b, hb, c, hc, rfl⟩
  ascending := by
    have hlt (a b c a' b' c' : Nat) (h : a < a' ∨ a = a' ∧ (b < b' ∨ b = b' ∧ c < c')) :
        (ofNumbers a b c).leading < (ofNumbers a' b' c').leading := by
      change [a, b, c] < [a', b', c']
      simpa [List.cons_lt_cons_iff] using h
    rw [expansions_eq, List.pairwise_flatMap]
    refine ⟨fun a _ => ?_, p.major.pairwise_numbers.imp fun ha => ?_⟩
    · rw [List.pairwise_flatMap]
      refine ⟨fun b _ => ?_, p.minor.pairwise_numbers.imp fun hb => ?_⟩
      · rw [List.pairwise_map]
        exact p.patch.pairwise_numbers.imp fun hc => hlt _ _ _ _ _ _ (.inr ⟨rfl, .inr ⟨rfl, hc⟩⟩)
      · simp only [List.forall_mem_map]
        exact fun c _ c' _ => hlt _ _ _ _ _ _ (.inr ⟨rfl, .inl hb⟩)
    · simp only [List.mem_flatMap, List.mem_map]
      rintro _ ⟨b, -, c, -, rfl⟩ _ ⟨b', -, c', -, rfl⟩
      exact hlt _ _ _ _ _ _ (.inl ha)

theorem text_injective : Function.Injective text := by
  intro p q h
  have hchars : p.chars = q.chars := String.ofList_injective h
  have hversion : (Version.exact p).text = (Version.exact q).text := by
    rw [Version.text, Version.text, Version.chars, Version.chars, hchars]
  exact Version.exact.inj (Version.text_injective hversion)

theorem nodup_expansionTexts (p : Parts) : p.expansionTexts.Nodup := by
  rw [expansionTexts, List.Nodup, List.pairwise_map]
  refine p.enumerates_expansions.ascending.imp ?_
  intro q r h heq
  rw [text_injective heq] at h
  exact lt_irrefl _ h

theorem anyM_expansions {m : Type → Type} [Monad m] [LawfulMonad m] (f : String → m Bool) (p : Parts) :
    (p.expansions.anyM fun q => f q.text) = p.expansionTexts.anyM f := by
  simp only [expansionTexts, List.map_eq_flatMap, anyM_flatMap, anyM_singleton]

end Parts

namespace Version

/-- Whether a version satisfies a range, with what the test was asked to find that out. -/
def search {ε : Type} (v : Version) (leaf : String → String → Except ε Bool) (range : String) : Except ε Bool × Calls :=
  ((v.satisfiesWith (recorded leaf) range).run.run []).run

section

variable {m : Type → Type} [Monad m] {leaf : String → String → m Bool} {range : String} {v : Version}

theorem satisfiesWith_of_allWildcards (h : v.parts.allWildcards = true) : v.satisfiesWith leaf range = pure true := by
  rw [satisfiesWith, if_pos h]

theorem satisfiesWith_eq_anyM [LawfulMonad m] (h : v.parts.allWildcards = false) :
    v.satisfiesWith leaf range = v.parts.expansionTexts.anyM (leaf · range) := by
  rw [satisfiesWith, if_neg (by simp [h]), Parts.tryDigits_eq_anyM, Parts.fillings_slots, ← Parts.anyM_expansions]
  rfl

/-- The search can be seen as one that fills in the first wildcard, which is an edit that is never refused, and goes on
with the version that this gives. -/
theorem satisfiesWith_fill {slot : Slot} (h : v.parts.allWildcards = false)
    (hslot : Parts.slots.find? (fun s => (v.parts.get s).isWildcard) = some slot) :
    v.satisfiesWith leaf range =
        (wildcardDigits.anyM fun digit =>
          (v.withParts (v.parts.set slot (.number digit))).satisfiesWith leaf range) ∧
      ∀ digit : Nat, v.replacePart slot.name (.int digit) = .ok (v.withParts (v.parts.set slot (.number digit))) := by
  constructor
  · have hset (digit : Nat) : (v.parts.set slot (.number digit)).allWildcards = false := by
      cases slot <;> simp [Parts.allWildcards, Parts.set, Component.isWildcard]
    simp only [satisfiesWith, parts_withParts, h, hset, Bool.false_eq_true, if_false]
    generalize v.parts = p at h hslot
    obtain ⟨major, minor, patch⟩ := p
    cases major with
    | wildcard =>
      cases hslot
      rfl
    | number a =>
      cases minor with
      | wildcard =>
        cases hslot
        rfl
      | number b =>
        cases patch with
        | wildcard =>
          cases hslot
          rfl
        | number c => cases hslot
  · intro digit
    cases slot <;> rfl

end

/-- Satisfaction asks the test about exactly the ways to fill in digits: all of them in ascending order if it accepts
none, otherwise those up to the first that it accepts or fails on. A version of wildcards alone asks nothing. Only the
parts of the version play a part. -/
theorem satisfiesWith_explores (v : Version) (range : String) :
    (v.parts.allWildcards = true →
        ∀ {ε : Type} (leaf : String → String → Except ε Bool), v.search leaf range = (.ok true, [])) ∧
      (v.parts.allWildcards = false →
        v.parts.Enumerates v.parts.expansions ∧ v.parts.expansionTexts.Nodup ∧
          v.parts.expansionTexts.length = Nat.pow 10 v.parts.wildcards ∧ v.parts.expansionTexts.length ≤ 100 ∧
          (∀ {ε : Type} (leaf : String → String → Except ε Bool),
            Explores v.parts.expansionTexts range leaf (v.search leaf range)) ∧
          ∀ {m : Type → Type} [Monad m] [LawfulMonad m] (leaf : String → String → m Bool),
            v.satisfiesWith leaf range = v.parts.expansionTexts.anyM (leaf · range)) ∧
      ∀ w : Version, w.parts = v.parts →
        ∀ {m : Type → Type} [Monad m] (leaf : String → String → m Bool),
          w.satisfiesWith leaf range = v.satisfiesWith leaf range := by
  refine ⟨?_, ?_, ?_⟩
  · intro h ε leaf
    rw [search, satisfiesWith_of_allWildcards h]
    rfl
  · intro h
    have hlen : v.parts.expansionTexts.length = v.parts.expansions.length := List.length_map _
    refine ⟨v.parts.enumerates_expansions, v.parts.nodup_expansionTexts, hlen.trans v.parts.length_expansions,
      hlen ▸ Parts.length_expansions_le h, ?_, fun leaf => satisfiesWith_eq_anyM h⟩
    intro ε leaf
    rw [search, satisfiesWith_eq_anyM h]
    exact explores_anyM leaf range _
  · intro w hw m _ leaf
    rw [satisfiesWith, satisfiesWith, hw]

/-- The digits of `>=v1.x.3` are tried up to the one that is accepted, and so are those of `v1.x.3`. -/
theorem satisfiesWith_explores_third :
    let leaf : String → String → Except Empty Bool := fun text _ => .ok (text == "1.2.3")
    let v : Version := limit ⟨.atLeast, ⟨.number 1, .wildcard, .number 3⟩⟩
    v.search leaf "^1.2" = (.ok true, [("1.0.3", "^1.2"), ("1.1.3", "^1.2"), ("1.2.3", "^1.2")]) ∧
      (exact v.parts).search leaf "^1.2" = v.search leaf "^1.2" ∧
      (exact ⟨.wildcard, .wildcard, .wildcard⟩).search leaf "^1.2" = (.ok true, []) := by
  intro leaf v
  refine ⟨?_, ?_, (satisfiesWith_explores (exact ⟨.wildcard, .wildcard, .wildcard⟩) "^1.2").1 rfl leaf⟩
  · obtain ⟨-, -, -, -, hexplores, -⟩ := (satisfiesWith_explores v "^1.2").2.1 rfl
    exact (hexplores leaf).settled ["1.0.3", "1.1.3"] "1.2.3"
      ["1.3.3", "1.4.3", "1.5.3", "1.6.3", "1.7.3", "1.8.3", "1.9.3"] (by decide +kernel) (by decide) (by decide)
  · have hsame := (satisfiesWith_explores v "^1.2").2.2 (exact v.parts) rfl (recorded leaf)
    rw [search, hsame]
    rfl

end Version

end RuntimeRanges
