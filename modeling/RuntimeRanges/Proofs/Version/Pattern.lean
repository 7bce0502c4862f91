import RuntimeRanges.Proofs.Version.Satisfaction

/-!
Versions as patterns: filling in digits for wildcards, and the exact targets that a pattern satisfies.
-/

namespace RuntimeRanges

namespace Parts

theorem set_get (p : Parts) (slot : Slot) : p.set slot (p.get slot) = p := by
  cases slot <;> rfl

/-- All ways to fill in digits for the wildcards at the given places. -/
def fillings : List Slot → Parts → List Parts
  | [], p => [p]
  | slot :: slots, p => (p.get slot).choices.flatMap fun comp => fillings slots (p.set slot comp)

theorem fillings_slots (p : Parts) : fillings slots p = p.expansions := by
  simp [slots, fillings, expansions, List.map_eq_flatMap, get, set]

theorem fillings_cons_number {slot : Slot} {p : Parts} {n : Nat} (h : p.get slot = .number n)
    (slots : List Slot) : fillings (slot :: slots) p = fillings slots p := by
  have hs : p.set slot (.number n) = p := by rw [← h, set_get]
  rw [fillings, h]
  simp [Component.choices, hs]

theorem fillings_cons_wildcard {slot : Slot} {p : Parts} (h : p.get slot = .wildcard) (slots : List Slot) :
    fillings (slot :: slots) p =
      wildcardDigits.flatMap fun digit => fillings slots (p.set slot (.number digit)) := by
  rw [fillings, h, Component.choices, List.flatMap_map]

end Parts

section

variable {m : Type → Type} [Monad m] [LawfulMonad m] {α β : Type} {f : α → m Bool}

theorem anyM_append (l l' : List α) :
    (l ++ l').anyM f = l.anyM f >>= fun found => if found then pure true else l'.anyM f := by
  induction l with
  | nil => simp
  | cons a l ih =>
    rw [List.cons_append, List.anyM_cons, List.anyM_cons, bind_assoc]
    congr 1
    funext found
    cases found <;> simp [ih]

theorem anyM_flatMap (g : β → List α) (l : List β) : (l.flatMap g).anyM f = l.anyM fun b => (g b).anyM f := by
  induction l with
  | nil => rfl
  | cons b l ih => rw [List.flatMap_cons, anyM_append, List.anyM_cons, ih]

theorem anyM_singleton (a : α) : [a].anyM f = f a := by
  rw [List.anyM_cons]
  conv => rhs; rw [← bind_pure (f a)]
  congr 1
  funext found
  cases found <;> rfl

theorem Parts.tryDigits_eq_anyM {leaf : String → String → m Bool} {range : String} (slots : List Slot) (p : Parts) :
    tryDigits leaf range slots p = (fillings slots p).anyM fun q => leaf (String.ofList q.chars) range := by
  induction slots generalizing p with
  | nil => rw [tryDigits, fillings, anyM_singleton]
  | cons slot slots ih =>
    cases hp : p.get slot with
    | number n =>
      rw [fillings_cons_number hp, tryDigits, hp]
      exact ih p
    | wildcard =>
      rw [fillings_cons_wildcard hp, anyM_flatMap, tryDigits, hp]
      simp only [ih]

end

theorem anyM_eq_ok_any {ε α : Type} {g : α → Except ε Bool} {f : α → Bool} {l : List α}
    (h : ∀ a ∈ l, g a = .ok (f a)) : l.anyM g = .ok (l.any f) := by
  induction l with
  | nil => rfl
  | cons a l ih =>
    rw [List.anyM_cons, h a List.mem_cons_self, ih fun b hb => h b (List.mem_cons_of_mem _ hb)]
    cases hf : f a <;> simp [hf] <;> rfl

/-- Where every filling can be tested, the search finds out whether one of them passes. -/
theorem Parts.tryDigits_eq_ok {ε : Type} {leaf : String → String → Except ε Bool} {range : String} {f : Parts → Bool}
    {slots : List Slot} {p : Parts} (h : ∀ q ∈ fillings slots p, leaf (String.ofList q.chars) range = .ok (f q)) :
    tryDigits leaf range slots p = .ok ((fillings slots p).any f) := by
  rw [tryDigits_eq_anyM]
  exact anyM_eq_ok_any h

namespace Component

theorem number_mem_choices_iff {comp : Component} {n : Nat} :
    number n ∈ comp.choices ↔ comp = number n ∨ comp = wildcard ∧ n ≤ 9 := by
  cases comp with
  | number m => simp [choices, eq_comm]
  | wildcard =>
    simp only [choices, wildcardDigits, List.mem_map, List.mem_range, number.injEq, exists_eq_right]
    simp
    omega

theorem exists_mem_choices (comp : Component) : ∃ n, number n ∈ comp.choices := by
  cases comp with
  | number m => exact ⟨m, number_mem_choices_iff.2 (.inl rfl)⟩
  | wildcard => exact ⟨0, number_mem_choices_iff.2 (.inr ⟨rfl, by decide⟩)⟩

theorem Short.of_mem_choices {comp : Component} (h : comp.Short) {choice : Component}
    (hc : choice ∈ comp.choices) : ∃ n, choice = number n ∧ Numeral.Short n := by
  cases comp with
  | number m => exact ⟨m, List.mem_singleton.1 hc, h⟩
  | wildcard =>
    obtain ⟨n, hn, rfl⟩ := List.mem_map.1 hc
    exact ⟨n, rfl, Numeral.short_of_lt_ten (List.mem_range.1 hn)⟩

end Component

namespace Parts

theorem mem_expansions_iff {p q : Parts} :
    q ∈ p.expansions ↔
      q.major ∈ p.major.choices ∧ q.minor ∈ p.minor.choices ∧ q.patch ∈ p.patch.choices := by
  simp only [expansions, List.mem_flatMap, List.mem_map]
  constructor
  · rintro ⟨a, ha, b, hb, c, hc, rfl⟩
    exact ⟨ha, hb, hc⟩
  · rintro ⟨ha, hb, hc⟩
    exact ⟨_, ha, _, hb, _, hc, rfl⟩

theorem Short.of_mem_expansions {p q : Parts} (hp : p.Short) (hq : q ∈ p.expansions) :
    ∃ a b c, q = ofNumbers a b c ∧ Numeral.Short a ∧ Numeral.Short b ∧ Numeral.Short c := by
  obtain ⟨hmajor, hminor, hpatch⟩ := hp
  obtain ⟨ha, hb, hc⟩ := mem_expansions_iff.1 hq
  obtain ⟨a, ha, hsa⟩ := hmajor.of_mem_choices ha
  obtain ⟨b, hb, hsb⟩ := hminor.of_mem_choices hb
  obtain ⟨c, hc, hsc⟩ := hpatch.of_mem_choices hc
  obtain ⟨major, minor, patch⟩ := q
  refine ⟨a, b, c, ?_, hsa, hsb, hsc⟩
  rw [ofNumbers, ← ha, ← hb, ← hc]

/-- Whether a pattern covers numbers, place by place: with the number itself or with a wildcard for a digit. -/
def Covers (p : Parts) (ns : List Nat) : Prop :=
  ∀ x ∈ p.components.zip ns, x.1 = .number x.2 ∨ x.1 = .wildcard ∧ x.2 ≤ 9

instance (p : Parts) (ns : List Nat) : Decidable (p.Covers ns) :=
  inferInstanceAs (Decidable (∀ x ∈ _, _))

theorem covers_iff_choices {p : Parts} {ns : List Nat} :
    p.Covers ns ↔ ∀ x ∈ p.components.zip ns, .number x.2 ∈ x.1.choices := by
  simp only [Covers, Component.number_mem_choices_iff]

theorem mem_zip_append {α β : Type} {l : List α} {m : List β} {x : α × β} (h : x ∈ l.zip m) (rest : List β) :
    x ∈ l.zip (m ++ rest) := by
  induction l generalizing m with
  | nil => cases h
  | cons a l ih =>
    cases m with
    | nil => cases h
    | cons b m =>
      rw [List.zip_cons_cons, List.mem_cons] at h
      rw [List.cons_append, List.zip_cons_cons, List.mem_cons]
      exact h.imp_right ih

theorem admits_none_of_leading {t : Parts} {a b c : Nat} (h : t.Admits none [a, b, c]) :
    ∃ rest, [a, b, c] = t.leading ++ rest := by
  refine ⟨[a, b, c].drop t.leading.length, ?_⟩
  have hs := List.take_append_drop t.leading.length [a, b, c]
  rw [show [a, b, c].take t.leading.length = t.leading from h] at hs
  exact hs.symm

/-- Digits can be filled in so that exact parts admit the result exactly where the pattern covers their leading
numbers. -/
theorem exists_expansion_iff {p t : Parts} (hp : p.Short) :
    (∃ q ∈ p.expansions, t.Admits none q.leading) ↔ p.Covers t.leading := by
  rw [covers_iff_choices]
  constructor
  · rintro ⟨q, hq, ht⟩ x hx
    obtain ⟨a, b, c, rfl, -, -, -⟩ := hp.of_mem_expansions hq
    obtain ⟨ha, hb, hc⟩ := mem_expansions_iff.1 hq
    obtain ⟨rest, hrest⟩ := admits_none_of_leading ht
    have hmem : x ∈ p.components.zip [a, b, c] := by
      rw [hrest]
      exact mem_zip_append hx rest
    simp only [components, List.zip_cons_cons, List.zip_nil_right, List.mem_cons, List.not_mem_nil, or_false] at hmem
    rcases hmem with rfl | rfl | rfl
    · exact ha
    · exact hb
    · exact hc
  · intro h
    obtain ⟨a, ha⟩ := p.major.exists_mem_choices
    obtain ⟨b, hb⟩ := p.minor.exists_mem_choices
    obtain ⟨c, hc⟩ := p.patch.exists_mem_choices
    obtain ⟨major, minor, patch⟩ := t
    cases major with
    | wildcard => exact ⟨ofNumbers a b c, mem_expansions_iff.2 ⟨ha, hb, hc⟩, rfl⟩
    | number x =>
      have hx : .number x ∈ p.major.choices :=
        h (p.major, x) (by simp [components, leading, leadingNumbers])
      cases minor with
      | wildcard => exact ⟨ofNumbers x b c, mem_expansions_iff.2 ⟨hx, hb, hc⟩, rfl⟩
      | number y =>
        have hy : .number y ∈ p.minor.choices :=
          h (p.minor, y) (by simp [components, leading, leadingNumbers])
        cases patch with
        | wildcard => exact ⟨ofNumbers x y c, mem_expansions_iff.2 ⟨hx, hy, hc⟩, rfl⟩
        | number z =>
          have hz : .number z ∈ p.patch.choices :=
            h (p.patch, z) (by simp [components, leading, leadingNumbers])
          exact ⟨ofNumbers x y z, mem_expansions_iff.2 ⟨hx, hy, hz⟩, rfl⟩

end Parts

namespace Version

/-- Whether a pattern matches exact parts: always if it has wildcards alone, and otherwise if it covers the leading
numbers of these parts. -/
def Matches (v : Version) (t : Parts) : Prop :=
  v.parts.allWildcards = true ∨ v.parts.Covers t.leading

instance (v : Version) (t : Parts) : Decidable (v.Matches t) :=
  inferInstanceAs (Decidable (_ ∨ _))

theorem Short.parts {v : Version} (h : v.Short) : v.parts.Short := by
  cases v with
  | exact p => exact h
  | limit l => exact h
  | pair l u => exact h.1

theorem satisfies_exact_rangeText {v : Version} {t : Parts} (hv : v.Short) (ht : t.Short) :
    v.satisfies (exact t).rangeText = .ok (decide (v.Matches t)) := by
  rw [satisfies, satisfiesWith]
  cases hw : v.parts.allWildcards with
  | true =>
    have hm : v.Matches t := .inl hw
    simp [hm]
    rfl
  | false =>
    obtain ⟨is, hread, hr⟩ := Range.read_rangeText (v := exact t) ht
    have hleaf : ∀ q ∈ Parts.fillings Parts.slots v.parts,
        Range.satisfies (String.ofList q.chars) (exact t).rangeText = .ok (decide (t.Admits none q.leading)) := by
      intro q hq
      rw [Parts.fillings_slots] at hq
      obtain ⟨a, b, c, rfl, ha, hb, hc⟩ := hv.parts.of_mem_expansions hq
      exact Range.satisfies_of_represent hread hr ha hb hc
    have hm : (v.parts.expansions.any fun q => decide (t.Admits none q.leading)) = decide (v.Matches t) := by
      rw [Bool.eq_iff_iff, List.any_eq_true, decide_eq_true_iff, Matches, hw]
      simpa using Parts.exists_expansion_iff hv.parts
    rw [if_neg (by simp), Parts.tryDigits_eq_ok hleaf, Parts.fillings_slots, hm]

end Version

end RuntimeRanges
