import RuntimeRanges.Document.Schema

/-!
What it means to keep to a schema: a document has no violations if and only if it conforms to the schema, part by part.
-/

namespace RuntimeRanges.Schema

variable {schema : Schema} {properties : List (String × Schema)} {path : List PathStep} {d : Document}
  {fields : List (Scalar × Document)}

/-- The documents that keep to a schema. -/
inductive Conforms : Schema → Document → Prop
  | text {nonEmpty : Bool} {s : String} (h : nonEmpty = true → s ≠ "") : Conforms (text nonEmpty) (.text s)
  | unpaired {nonEmpty : Bool} {codes : List Nat} (h : nonEmpty = true → codes ≠ []) :
      Conforms (text nonEmpty) (.scalar (.unpaired codes))
  | list {items : Schema} {ds : List Document} (h : ∀ d ∈ ds, Conforms items d) : Conforms (list items) (.list ds)
  | object {properties : List (String × Schema)} {fields : List (Scalar × Document)}
      (present : ∀ p ∈ properties, (Document.field? (.text p.1) fields).isSome = true)
      (known : ∀ f ∈ fields, ∃ p ∈ properties, f.1 = .text p.1)
      (values : ∀ p ∈ properties, ∀ d, Document.field? (.text p.1) fields = some d → Conforms p.2 d) :
      Conforms (object properties) (.object fields)

theorem unexpectedKeys_eq_nil_iff :
    unexpectedKeys properties fields = [] ↔ ∀ f ∈ fields, ∃ p ∈ properties, f.1 = .text p.1 := by
  rw [unexpectedKeys, ← List.length_eq_zero_iff, List.length_mergeSort, List.length_eq_zero_iff, List.filter_eq_nil_iff]
  simp

theorem keyFaults_eq_nil_iff :
    keyFaults properties fields = [] ↔
      (∀ p ∈ properties, (Document.field? (.text p.1) fields).isSome = true) ∧
        ∀ f ∈ fields, ∃ p ∈ properties, f.1 = .text p.1 := by
  have hothers : (if (unexpectedKeys properties fields).isEmpty then []
      else [Fault.unexpected (unexpectedKeys properties fields)]) = [] ↔ unexpectedKeys properties fields = [] := by
    rw [← List.isEmpty_iff]
    split <;> simp_all
  rw [keyFaults, List.append_eq_nil_iff, List.map_eq_nil_iff, List.filter_eq_nil_iff, hothers, unexpectedKeys_eq_nil_iff]
  apply and_congr_left'
  simp [Option.isSome_iff_ne_none]

theorem violationsAt_list_eq_nil {items : Schema} {ds : List Document}
    (h : violationsAt path (list items) (.list ds) = []) : ∀ d ∈ ds, ∃ path, violationsAt path items d = [] := by
  intro d hd
  rw [violationsAt, List.flatMap_eq_nil_iff] at h
  obtain ⟨i, hi, rfl⟩ := List.getElem_of_mem hd
  have hmem : (i, ds[i]) ∈ (List.range ds.length).zip ds := by
    rw [List.mem_iff_getElem]
    exact ⟨i, by simpa using hi, by simp⟩
  exact ⟨_, h _ hmem⟩

mutual

theorem conforms_of_violationsAt :
    ∀ (schema : Schema) (path : List PathStep) (d : Document), violationsAt path schema d = [] → Conforms schema d
  | .text nonEmpty, path, d, h => by
    rw [violationsAt.eq_def] at h
    dsimp only at h
    split at h
    · refine .text ?_
      rintro rfl rfl
      cases h
    · refine .unpaired ?_
      rintro rfl rfl
      cases h
    · cases h
  | .list items, path, d, h => by
    cases d with
    | list ds =>
      apply Conforms.list
      intro d hd
      obtain ⟨path, h⟩ := violationsAt_list_eq_nil h d hd
      exact conforms_of_violationsAt items path d h
    | scalar s => simp [violationsAt] at h
    | object fields => simp [violationsAt] at h
  | .object properties, path, d, h => by
    cases d with
    | object fields =>
      rw [violationsAt, List.append_eq_nil_iff, List.map_eq_nil_iff, keyFaults_eq_nil_iff] at h
      exact .object h.1.1 h.1.2 (conforms_of_fieldViolations properties path fields h.2)
    | scalar s => simp [violationsAt] at h
    | list ds => simp [violationsAt] at h

theorem conforms_of_fieldViolations :
    ∀ (properties : List (String × Schema)) (path : List PathStep) (fields : List (Scalar × Document)),
      fieldViolations path fields properties = [] →
        ∀ p ∈ properties, ∀ d, Document.field? (.text p.1) fields = some d → Conforms p.2 d
  | [], path, fields, _ => fun _ hp => nomatch hp
  | (name, schema) :: properties, path, fields, h => by
    rw [fieldViolations, List.append_eq_nil_iff] at h
    refine List.forall_mem_cons.2 ⟨?_, conforms_of_fieldViolations properties path fields h.2⟩
    intro d hd
    have hhead := h.1
    rw [hd] at hhead
    exact conforms_of_violationsAt schema _ d hhead

end

theorem fieldViolations_eq_nil
    (h : ∀ p ∈ properties, ∀ d, Document.field? (.text p.1) fields = some d → ∀ path, violationsAt path p.2 d = []) :
    fieldViolations path fields properties = [] := by
  induction properties with
  | nil => rw [fieldViolations]
  | cons p properties ih =>
    rw [List.forall_mem_cons] at h
    rw [fieldViolations, ih h.2, List.append_nil]
    split
    · rfl
    · next d hd => exact h.1 d hd _

theorem Conforms.violationsAt_eq_nil (h : Conforms schema d) (path : List PathStep) : violationsAt path schema d = [] := by
  induction h generalizing path with
  | @text nonEmpty s h =>
    have hok : ¬ (nonEmpty && decide (s = "")) = true := by simpa using h
    rw [violationsAt, if_neg hok]
  | @unpaired nonEmpty codes h =>
    have hok : ¬ (nonEmpty && codes.isEmpty) = true := by simpa using h
    rw [violationsAt, if_neg hok]
  | list h ih =>
    rw [violationsAt, List.flatMap_eq_nil_iff]
    rintro ⟨i, d⟩ hmem
    exact ih d (List.of_mem_zip hmem).2 _
  | object present known values ih =>
    rw [violationsAt, keyFaults_eq_nil_iff.2 ⟨present, known⟩, fieldViolations_eq_nil ih]
    rfl

/-- A document keeps to a schema exactly if it has no violations. -/
theorem violations_eq_nil_iff : schema.violations d = [] ↔ Conforms schema d := by
  rw [violations, ← List.length_eq_zero_iff, List.length_mergeSort, List.length_eq_zero_iff]
  exact ⟨conforms_of_violationsAt schema [] d, fun h => h.violationsAt_eq_nil []⟩

end RuntimeRanges.Schema
