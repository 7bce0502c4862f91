import RuntimeRanges.Proofs.Document.Json
import RuntimeRanges.Proofs.Document.Schema

/-!
Violations of a schema. Each of them is a fault that the schema has for a part of the document, and its path leads to
this part. Two paths into one document can be compared: where they part, both name fields or both count items.
-/

namespace RuntimeRanges.Schema

/-- The faults that a schema has for the parts of a document, with the paths to these. -/
inductive Finds : Schema → Document → List PathStep → Fault → Prop
  | emptyText : Finds (text true) (.text "") [] .emptyText
  | emptyCodes : Finds (text true) (.scalar (.unpaired [])) [] .emptyText
  | noText {nonEmpty : Bool} {d : Document} (h : ∀ s, d = .scalar s → ¬ s.IsString) :
      Finds (text nonEmpty) d [] (.wrongType d "string")
  | noList {items : Schema} {d : Document} (h : ∀ ds, d ≠ .list ds) : Finds (list items) d [] (.wrongType d "array")
  | item {items : Schema} {ds : List Document} {i : Nat} {d : Document} {path : List PathStep} {f : Fault}
      (hd : ds[i]? = some d) (h : Finds items d path f) : Finds (list items) (.list ds) (.item i :: path) f
  | noObject {properties : List (String × Schema)} {d : Document} (h : ∀ fields, d ≠ .object fields) :
      Finds (object properties) d [] (.wrongType d "object")
  | keys {properties : List (String × Schema)} {fields : List (Scalar × Document)} {f : Fault}
      (h : f ∈ keyFaults properties fields) : Finds (object properties) (.object fields) [] f
  | field {properties : List (String × Schema)} {fields : List (Scalar × Document)} {name : String} {schema : Schema}
      {d : Document} {path : List PathStep} {f : Fault} (hp : (name, schema) ∈ properties)
      (hd : Document.field? (.text name) fields = some d) (h : Finds schema d path f) :
      Finds (object properties) (.object fields) (.key name :: path) f

variable {schema : Schema} {properties : List (String × Schema)} {path : List PathStep} {d : Document}
  {fields : List (Scalar × Document)} {v : Violation} {f : Fault}

mutual

theorem exists_finds :
    ∀ (schema : Schema) (path : List PathStep) (d : Document), v ∈ violationsAt path schema d →
      ∃ rest, v.path = path ++ rest ∧ Finds schema d rest v.fault
  | .text nonEmpty, path, d, h => by
    rw [violationsAt.eq_def] at h
    dsimp only at h
    split at h
    · split at h
      · next hempty =>
        rw [Bool.and_eq_true, decide_eq_true_iff] at hempty
        obtain ⟨rfl, rfl⟩ := hempty
        rw [List.mem_singleton.1 h]
        exact ⟨[], (List.append_nil _).symm, .emptyText⟩
      · cases h
    · split at h
      · next hempty =>
        rw [Bool.and_eq_true, List.isEmpty_iff] at hempty
        obtain ⟨rfl, rfl⟩ := hempty
        rw [List.mem_singleton.1 h]
        exact ⟨[], (List.append_nil _).symm, .emptyCodes⟩
      · cases h
    · next htext hunpaired =>
      rw [List.mem_singleton.1 h]
      refine ⟨[], (List.append_nil _).symm, .noText ?_⟩
      rintro s rfl hs
      cases s with
      | text s => exact htext s rfl
      | unpaired codes => exact hunpaired codes rfl
      | _ => cases hs
  | .list items, path, d, h => by
    cases d with
    | list ds =>
      rw [violationsAt] at h
      obtain ⟨⟨i, d⟩, hmem, h⟩ := List.mem_flatMap.1 h
      obtain ⟨rest, hpath, hfinds⟩ := exists_finds items _ d h
      have hd : ds[i]? = some d := by
        obtain ⟨j, hj, heq⟩ := List.getElem_of_mem hmem
        rw [List.getElem_zip, List.getElem_range] at heq
        cases heq
        exact List.getElem?_eq_getElem _
      refine ⟨.item i :: rest, ?_, .item hd hfinds⟩
      rw [hpath, List.append_assoc, List.singleton_append]
    | scalar s =>
      rw [violationsAt, List.mem_singleton] at h
      · rw [h]
        exact ⟨[], (List.append_nil _).symm, .noList nofun⟩
      · exact nofun
    | object fields =>
      rw [violationsAt, List.mem_singleton] at h
      · rw [h]
        exact ⟨[], (List.append_nil _).symm, .noList nofun⟩
      · exact nofun
  | .object properties, path, d, h => by
    cases d with
    | object fields =>
      rw [violationsAt] at h
      rcases List.mem_append.1 h with h | h
      · obtain ⟨f, hf, rfl⟩ := List.mem_map.1 h
        exact ⟨[], (List.append_nil _).symm, .keys hf⟩
      · obtain ⟨name, schema, d, rest, hp, hd, hpath, hfinds⟩ := exists_finds_field properties path fields h
        exact ⟨.key name :: rest, hpath, .field hp hd hfinds⟩
    | scalar s =>
      rw [violationsAt, List.mem_singleton] at h
      · rw [h]
        exact ⟨[], (List.append_nil _).symm, .noObject nofun⟩
      · exact nofun
    | list ds =>
      rw [violationsAt, List.mem_singleton] at h
      · rw [h]
        exact ⟨[], (List.append_nil _).symm, .noObject nofun⟩
      · exact nofun

theorem exists_finds_field :
    ∀ (properties : List (String × Schema)) (path : List PathStep) (fields : List (Scalar × Document)),
      v ∈ fieldViolations path fields properties →
        ∃ name schema d rest, (name, schema) ∈ properties ∧ Document.field? (.text name) fields = some d ∧
          v.path = path ++ .key name :: rest ∧ Finds schema d rest v.fault
  | [], path, fields, h => by
    rw [fieldViolations] at h
    cases h
  | (name, schema) :: properties, path, fields, h => by
    rw [fieldViolations] at h
    rcases List.mem_append.1 h with h | h
    · split at h
      · cases h
      · next d hd =>
        obtain ⟨rest, hpath, hfinds⟩ := exists_finds schema _ d h
        refine ⟨name, schema, d, rest, List.mem_cons_self, hd, ?_, hfinds⟩
        rw [hpath, List.append_assoc, List.singleton_append]
    · obtain ⟨name', schema', d, rest, hp, hrest⟩ := exists_finds_field properties path fields h
      exact ⟨name', schema', d, rest, List.mem_cons_of_mem _ hp, hrest⟩

end

theorem mem_fieldViolations {name : String} (hp : (name, schema) ∈ properties)
    (hd : Document.field? (.text name) fields = some d) (hv : v ∈ violationsAt (path ++ [.key name]) schema d) :
    v ∈ fieldViolations path fields properties := by
  induction properties with
  | nil => cases hp
  | cons p properties ih =>
    obtain ⟨name', schema'⟩ := p
    rw [fieldViolations, List.mem_append]
    rcases List.mem_cons.1 hp with heq | hp
    · cases heq
      refine .inl ?_
      rw [hd]
      exact hv
    · exact .inr (ih hp)

theorem Finds.mem_violationsAt {rest : List PathStep} (h : Finds schema d rest f) (path : List PathStep) :
    ⟨path ++ rest, f⟩ ∈ violationsAt path schema d := by
  induction h generalizing path with
  | emptyText =>
    rw [violationsAt, List.append_nil]
    exact List.mem_cons_self
  | emptyCodes =>
    rw [violationsAt, List.append_nil]
    exact List.mem_cons_self
  | @noText nonEmpty d h =>
    rw [violationsAt.eq_def, List.append_nil]
    dsimp only
    split
    · exact absurd trivial (h _ rfl)
    · exact absurd trivial (h _ rfl)
    · exact List.mem_cons_self
  | @noList items d h =>
    rw [violationsAt, List.append_nil]
    · exact List.mem_cons_self
    · exact h
  | @item items ds i d rest f hd h ih =>
    obtain ⟨hi, rfl⟩ := List.getElem?_eq_some_iff.1 hd
    rw [violationsAt, List.mem_flatMap]
    refine ⟨(i, ds[i]), ?_, ?_⟩
    · rw [List.mem_iff_getElem]
      exact ⟨i, by simpa using hi, by simp⟩
    · have hmem := ih (path ++ [.item i])
      rwa [List.append_assoc, List.singleton_append] at hmem
  | @noObject properties d h =>
    rw [violationsAt, List.append_nil]
    · exact List.mem_cons_self
    · exact h
  | keys h =>
    rw [violationsAt, List.append_nil]
    exact List.mem_append_left _ (List.mem_map_of_mem h)
  | @field properties fields name schema d rest f hp hd h ih =>
    rw [violationsAt]
    have hmem := ih (path ++ [.key name])
    rw [List.append_assoc, List.singleton_append] at hmem
    exact List.mem_append_right _ (mem_fieldViolations hp hd hmem)

/-- The violations are the faults of all parts. -/
theorem mem_violations_iff : v ∈ schema.violations d ↔ Finds schema d v.path v.fault := by
  rw [violations, (List.mergeSort_perm _ _).mem_iff]
  constructor
  · intro h
    obtain ⟨rest, hpath, hfinds⟩ := exists_finds schema [] d h
    rwa [hpath]
  · exact fun h => h.mem_violationsAt []

/-- Two paths can be compared: where they part, both go on to fields or both go on to items. -/
def Comparable : List PathStep → List PathStep → Prop
  | .key a :: as, .key b :: bs => a = b → Comparable as bs
  | .item a :: as, .item b :: bs => a = b → Comparable as bs
  | .key _ :: _, .item _ :: _ | .item _ :: _, .key _ :: _ => False
  | [], _ | _, [] => True

theorem comparable_nil (path : List PathStep) : Comparable path [] := by
  cases path with
  | nil => trivial
  | cons step path => cases step <;> trivial

/-- Paths into one document can be compared, whatever schemas they come from. -/
theorem Finds.comparable {schema' : Schema} {path' : List PathStep} {f' : Fault} (h : Finds schema d path f)
    (h' : Finds schema' d path' f') : Comparable path path' := by
  induction h generalizing schema' path' f' with
  | item hd h ih =>
    cases h' with
    | item hd' h' =>
      rintro rfl
      cases hd.symm.trans hd'
      exact ih h'
    | _ => exact comparable_nil _
  | field hp hd h ih =>
    cases h' with
    | field hp' hd' h' =>
      rintro rfl
      cases hd.symm.trans hd'
      exact ih h'
    | _ => exact comparable_nil _
  | _ => trivial

theorem comparePaths_eq_compareLex (p q : List PathStep) : comparePaths p q = List.compareLex PathStep.compare p q := by
  induction p generalizing q with
  | nil => cases q <;> rfl
  | cons a p ih =>
    cases q with
    | nil => rfl
    | cons b q => rw [comparePaths, List.compareLex_cons_cons, ih]

instance : Std.TransCmp PathStep.compare where
  eq_swap {a b} := by
    cases a with
    | key a =>
      cases b with
      | key b => exact Std.OrientedOrd.eq_swap
      | item j => rfl
    | item i =>
      cases b with
      | key b => rfl
      | item j => exact Std.OrientedOrd.eq_swap
  isLE_trans {a b c} hab hbc := by
    cases a <;> cases b <;> cases c
    case key.key.key => exact Std.TransOrd.isLE_trans hab hbc
    case item.item.item => exact Std.TransOrd.isLE_trans hab hbc
    all_goals first | rfl | exact absurd hab Bool.false_ne_true | exact absurd hbc Bool.false_ne_true

theorem before_eq_isLE (v w : Violation) :
    v.before w = (List.compareLex PathStep.compare v.path w.path).isLE := by
  rw [Violation.before, comparePaths_eq_compareLex]
  cases List.compareLex PathStep.compare v.path w.path <;> rfl

theorem pairwise_violations (schema : Schema) (d : Document) :
    (schema.violations d).Pairwise fun v w => v.before w = true := by
  apply List.pairwise_mergeSort
  · intro u v w huv hvw
    rw [before_eq_isLE] at huv hvw ⊢
    exact Std.TransCmp.isLE_trans huv hvw
  · intro v w
    have hswap : List.compareLex PathStep.compare v.path w.path =
        (List.compareLex PathStep.compare w.path v.path).swap := Std.OrientedCmp.eq_swap
    rw [before_eq_isLE, before_eq_isLE, hswap]
    cases List.compareLex PathStep.compare w.path v.path <;> rfl

end RuntimeRanges.Schema
