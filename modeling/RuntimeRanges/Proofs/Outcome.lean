/-!
Outcomes that are values. Where a computation in steps succeeds, each of its steps does; and steps that are checks can
be put into one list, of which the first that fails gives the error.
-/

namespace RuntimeRanges

variable {ε ε' α β : Type} {x : Except ε α} {b : β}

theorem bind_eq_ok_iff {f : α → Except ε β} : x >>= f = .ok b ↔ ∃ a, x = .ok a ∧ f a = .ok b := by
  cases x with
  | error e =>
    constructor
    · intro h
      cases h
    · rintro ⟨a, h, -⟩
      cases h
  | ok a =>
    constructor
    · exact fun h => ⟨a, rfl, h⟩
    · rintro ⟨a', h, hf⟩
      cases h
      exact hf

theorem map_eq_ok_iff {f : α → β} : x.map f = .ok b ↔ ∃ a, x = .ok a ∧ f a = b := by
  cases x <;> simp [Except.map]

theorem mapError_eq_ok_iff {f : ε → ε'} {a : α} : x.mapError f = .ok a ↔ x = .ok a := by
  cases x with
  | error e => exact iff_of_false nofun nofun
  | ok a' =>
    change Except.ok a' = Except.ok a ↔ _
    rw [Except.ok.injEq, Except.ok.injEq]

/-- Steps fail where one of them does, the first one or a later one. -/
theorem bind_eq_error_iff {f : α → Except ε β} {e : ε} :
    x >>= f = .error e ↔ x = .error e ∨ ∃ a, x = .ok a ∧ f a = .error e := by
  cases x with
  | error e' =>
    change Except.error e' = Except.error e ↔ _
    simp
  | ok a =>
    change f a = .error e ↔ _
    simp

theorem map_eq_error_iff {f : α → β} {e : ε} : x.map f = .error e ↔ x = .error e := by
  cases x <;> simp [Except.map]

theorem mapError_eq_error_iff {f : ε → ε'} {e' : ε'} : x.mapError f = .error e' ↔ ∃ e, x = .error e ∧ f e = e' := by
  cases x with
  | error e =>
    change Except.error (f e) = Except.error e' ↔ _
    simp
  | ok a => exact iff_of_false nofun nofun

theorem eq_ok_of_toOption {a : α} (h : x.toOption = some a) : x = .ok a := by
  cases x with
  | error e => cases h
  | ok a' => exact congrArg _ (Option.some.inj h)

/-- The result of checks in order: the error of the first that fails, or the value if none does. -/
def firstError (checks : List (Option ε)) (a : α) : Except ε α :=
  match checks.findSome? id with
  | some e => .error e
  | none => .ok a

variable {checks checks' : List (Option ε)} {a : α}

theorem firstError_eq_ok_iff {a' : α} : firstError checks a = .ok a' ↔ (∀ e ∈ checks, e = none) ∧ a = a' := by
  rw [firstError]
  cases h : checks.findSome? id with
  | none =>
    have hpass : ∀ e ∈ checks, e = none := List.findSome?_eq_none_iff.1 h
    rw [Except.ok.injEq, and_iff_right hpass]
  | some e =>
    obtain ⟨o, ho, he⟩ := List.exists_of_findSome?_eq_some h
    simp only [reduceCtorEq, false_iff, not_and]
    intro hall
    rw [hall o ho] at he
    cases he

theorem mem_of_firstError_eq_error {e : ε} (h : firstError checks a = .error e) : some e ∈ checks := by
  rw [firstError] at h
  split at h
  · next e' hfirst =>
    cases h
    obtain ⟨o, ho, he⟩ := List.exists_of_findSome?_eq_some hfirst
    obtain rfl : o = some e := he
    exact ho
  · cases h

theorem firstError_bind {f : α → Except ε β} (hf : (∀ e ∈ checks, e = none) → f a = firstError checks' b) :
    firstError checks a >>= f = firstError (checks ++ checks') b := by
  cases h : checks.findSome? id with
  | none =>
    have hpass : ∀ e ∈ checks, e = none := List.findSome?_eq_none_iff.1 h
    rw [firstError_eq_ok_iff.2 ⟨hpass, rfl⟩]
    change f a = _
    rw [hf hpass, firstError, firstError, List.findSome?_append, h, Option.none_or]
  | some e =>
    rw [firstError, firstError, List.findSome?_append, h]
    rfl

theorem firstError_map (f : α → β) : (firstError checks a).map f = firstError checks (f a) := by
  rw [firstError, firstError]
  cases checks.findSome? id <;> rfl

end RuntimeRanges
