import RuntimeRanges.Proofs.Document.Violations

/-!
The wording of faults in JSON documents. It can be written, since no integer in such a document is too long, and it has
no line break, since texts are quoted.
-/

namespace RuntimeRanges

namespace Text

def OneLine (s : String) : Prop :=
  '\n' ∉ s.toList

instance (s : String) : Decidable (OneLine s) :=
  inferInstanceAs (Decidable ('\n' ∉ s.toList))

theorem oneLine_append {s t : String} : OneLine (s ++ t) ↔ OneLine s ∧ OneLine t := by
  rw [OneLine, OneLine, OneLine, String.toList_append, List.mem_append, not_or]

theorem oneLine_separated {separator : String} (hs : OneLine separator) {parts : List String}
    (h : ∀ p ∈ parts, OneLine p) : OneLine (separated separator parts) := by
  fun_induction separated separator parts with
  | case1 => decide
  | case2 s => exact h s List.mem_cons_self
  | case3 s parts hne ih =>
    rw [List.forall_mem_cons] at h
    rw [oneLine_append, oneLine_append]
    exact ⟨⟨h.1, hs⟩, ih h.2⟩

theorem not_mem_of_isDigit {cs : List Char} (h : ∀ c ∈ cs, c.isDigit = true) : '\n' ∉ cs :=
  fun hmem => nomatch h _ hmem

theorem oneLine_numeral (n : Int) : OneLine (Numeral.text n) := by
  have hdigits : '\n' ∉ Numeral.digits n.natAbs :=
    not_mem_of_isDigit fun c hc => Nat.isDigit_of_mem_toDigits (by decide) (by decide) hc
  rw [OneLine, Numeral.text, String.toList_ofList, List.mem_append, not_or]
  refine ⟨?_, hdigits⟩
  split <;> decide

namespace Quoted

theorem not_mem_hexDigits (width n : Nat) : '\n' ∉ hexDigits width n := by
  have hdigit : ∀ m < 16, '\n' ≠ Nat.digitChar m := by decide
  induction width generalizing n with
  | zero => exact List.not_mem_nil
  | succ width ih =>
    rw [hexDigits, List.mem_append, not_or, List.mem_singleton]
    exact ⟨ih _, hdigit _ (Nat.mod_lt _ (by decide))⟩

theorem not_mem_escape {quote : Char} (hquote : '\n' ≠ quote) (c : Char) : '\n' ∉ escape quote c := by
  by_cases hc : '\n' = c
  · subst hc
    rw [escape, if_neg (by simp [hquote]), if_pos rfl]
    decide
  · have hhex (kind : Char) (hkind : '\n' ≠ kind) (width : Nat) : '\n' ∉ '\\' :: kind :: hexDigits width c.toNat := by
      simp [hkind, not_mem_hexDigits]
    unfold escape
    split
    · simp [hc]
    · split
      · decide
      · split
        · decide
        · split
          · decide
          · split
            · simp [hc]
            · split
              · exact hhex _ (by decide) _
              · split
                · exact hhex _ (by decide) _
                · exact hhex _ (by decide) _

theorem not_mem_escapeCode {quote : Char} (hquote : '\n' ≠ quote) (n : Nat) : '\n' ∉ escapeCode quote n := by
  rw [escapeCode]
  split
  · exact not_mem_escape hquote _
  · simp [not_mem_hexDigits]

end Quoted

theorem oneLine_quoted (s : String) : OneLine (quoted s) := by
  have hquote : '\n' ≠ Quoted.quoteFor s.toList := by
    rw [Quoted.quoteFor]
    split <;> decide
  rw [OneLine, quoted, String.toList_ofList, Quoted.encode]
  simp [hquote, Quoted.not_mem_escape hquote]

theorem oneLine_encodeCodes (codes : List Nat) : OneLine (String.ofList (Quoted.encodeCodes codes)) := by
  rw [OneLine, String.toList_ofList, Quoted.encodeCodes]
  split <;> simp [Quoted.not_mem_escapeCode]

end Text

open Text (OneLine oneLine_append oneLine_separated)

namespace Decimal

theorem not_mem_toDigits (n : Nat) : '\n' ∉ Nat.toDigits 10 n :=
  Text.not_mem_of_isDigit fun _ hc => Nat.isDigit_of_mem_toDigits (by decide) (by decide) hc

theorem not_mem_positional {digits : List Char} (h : '\n' ∉ digits) (point : Int) :
    '\n' ∉ positional digits point := by
  unfold positional
  split
  · simp [h, List.mem_replicate]
  · split
    · simp [h, List.mem_replicate]
    · have htake : '\n' ∉ digits.take point.toNat := fun hmem => h (List.mem_of_mem_take hmem)
      have hdrop : '\n' ∉ digits.drop point.toNat := fun hmem => h (List.mem_of_mem_drop hmem)
      simp [htake, hdrop]

theorem not_mem_scientific {digits : List Char} (h : '\n' ∉ digits) (point : Int) :
    '\n' ∉ scientific digits point := by
  have htake : '\n' ∉ digits.take 1 := fun hmem => h (List.mem_of_mem_take hmem)
  have htail : '\n' ∉ digits.tail := fun hmem => h (List.mem_of_mem_tail hmem)
  have hexponent := not_mem_toDigits (point - 1).natAbs
  unfold scientific
  dsimp only
  simp only [List.mem_append, List.mem_cons, not_or]
  refine ⟨⟨htake, ?_⟩, by decide, ?_, ?_⟩
  · split
    · exact List.not_mem_nil
    · simp [htail]
  · split <;> decide
  · split
    · simp [hexponent]
    · exact hexponent

theorem not_mem_text (d : Scaled) : '\n' ∉ d.text := by
  unfold Scaled.text
  split
  · decide
  · have hall := not_mem_toDigits d.digits
    have hdigits : '\n' ∉ ((Nat.toDigits 10 d.digits).reverse.dropWhile (· == '0')).reverse := by
      intro hmem
      exact hall (List.mem_reverse.1 ((List.dropWhile_sublist _).mem (List.mem_reverse.1 hmem)))
    dsimp only
    split
    · exact not_mem_positional hdigits _
    · exact not_mem_scientific hdigits _

theorem oneLine_text (x : Floating) : OneLine x.text := by
  cases x with
  | undefined => decide
  | infinite negative => cases negative <;> decide
  | finite negative mantissa exponent =>
    rw [OneLine, Floating.text, String.toList_ofList, List.mem_append, not_or]
    refine ⟨?_, not_mem_text _⟩
    split <;> decide

end Decimal

namespace Scalar

theorem IsJson.oneLine_literal {s : Scalar} (h : s.IsJson) : OneLine s.literal := by
  cases s with
  | null => decide
  | bool b => cases b <;> decide
  | int n => exact Text.oneLine_numeral n
  | float x => exact Decimal.oneLine_text x
  | text s => exact Text.oneLine_quoted s
  | unpaired codes => exact Text.oneLine_encodeCodes codes
  | date d => cases h
  | moment m => cases h

theorem IsString.oneLine_literal {s : Scalar} (h : s.IsString) : OneLine s.literal := by
  cases s with
  | text s => exact Text.oneLine_quoted s
  | unpaired codes => exact Text.oneLine_encodeCodes codes
  | _ => cases h

end Scalar

namespace Document

variable {d : Document}

theorem areWritable_iff {items : List Document} : areWritable items = true ↔ ∀ d ∈ items, d.isWritable = true := by
  induction items with
  | nil => exact iff_of_true (by rw [areWritable]) (List.forall_mem_nil _)
  | cons d items ih => rw [areWritable, Bool.and_eq_true, ih, List.forall_mem_cons]

theorem fieldsAreWritable_iff {fields : List (Scalar × Document)} :
    fieldsAreWritable fields = true ↔ ∀ f ∈ fields, f.1.isWritable = true ∧ f.2.isWritable = true := by
  induction fields with
  | nil => exact iff_of_true (by rw [fieldsAreWritable]) (List.forall_mem_nil _)
  | cons f fields ih =>
    rw [fieldsAreWritable, Bool.and_eq_true, Bool.and_eq_true, ih, List.forall_mem_cons]

theorem literals_eq_map (items : List Document) : literals items = items.map literal := by
  induction items with
  | nil => rw [literals, List.map_nil]
  | cons d items ih => rw [literals, List.map_cons, ih]

theorem fieldLiterals_eq_map (fields : List (Scalar × Document)) :
    fieldLiterals fields = fields.map fun f => f.1.literal ++ ": " ++ f.2.literal := by
  induction fields with
  | nil => rw [fieldLiterals, List.map_nil]
  | cons f fields ih => rw [fieldLiterals, List.map_cons, ih]

theorem IsJson.isWritable (h : d.IsJson) : d.isWritable = true := by
  induction h with
  | scalar h =>
    rw [Document.isWritable]
    exact h.isWritable
  | list h ih =>
    rw [Document.isWritable, areWritable_iff]
    exact ih
  | object distinct names values ih =>
    rw [Document.isWritable, fieldsAreWritable_iff]
    exact fun f hf => ⟨(names f hf).isWritable, ih f hf⟩

theorem IsJson.oneLine_literal (h : d.IsJson) : OneLine d.literal := by
  induction h with
  | scalar h =>
    rw [literal]
    exact h.oneLine_literal
  | list h ih =>
    rw [literal, literals_eq_map, oneLine_append, oneLine_append]
    exact ⟨⟨by decide, oneLine_separated (by decide) (List.forall_mem_map.2 ih)⟩, by decide⟩
  | object distinct names values ih =>
    rw [literal, fieldLiterals_eq_map, oneLine_append, oneLine_append]
    refine ⟨⟨by decide, oneLine_separated (by decide) (List.forall_mem_map.2 fun f hf => ?_)⟩, by decide⟩
    rw [oneLine_append, oneLine_append]
    exact ⟨⟨(names f hf).oneLine_literal, by decide⟩, ih f hf⟩

theorem IsJson.of_field? {fields : List (Scalar × Document)} (h : IsJson (.object fields)) {key : Scalar}
    (hd : field? key fields = some d) : d.IsJson := by
  cases h with
  | object distinct names values =>
    clear distinct names
    induction fields with
    | nil => cases hd
    | cons f fields ih =>
      rw [List.forall_mem_cons] at values
      rw [field?] at hd
      split at hd
      · cases hd
        exact values.1
      · exact ih hd values.2

end Document

namespace Schema

variable {schema : Schema} {d : Document} {path : List PathStep} {f : Fault}

/-- A fault of a part of a JSON document can be written, in one line. -/
theorem Finds.wording (h : Finds schema d path f) (hd : d.IsJson) : f.isWritable = true ∧ OneLine f.message := by
  induction h with
  | emptyText | emptyCodes => exact ⟨rfl, by decide⟩
  | noText _ | noList _ | noObject _ =>
    have hvalue := oneLine_append.2 ⟨hd.oneLine_literal, (by decide : OneLine " is not of type '")⟩
    exact ⟨hd.isWritable, oneLine_append.2 ⟨oneLine_append.2 ⟨hvalue, by decide⟩, by decide⟩⟩
  | item hi h ih =>
    cases hd with
    | list hitems => exact ih (hitems _ (List.mem_of_getElem? hi))
  | @keys properties fields f h =>
    cases hd with
    | object distinct names values =>
      rw [keyFaults] at h
      rcases List.mem_append.1 h with h | h
      · obtain ⟨name, -, rfl⟩ := List.mem_map.1 h
        exact ⟨rfl, oneLine_append.2 ⟨Text.oneLine_quoted name, by decide⟩⟩
      · have hkeys : ∀ key ∈ unexpectedKeys properties fields, key.IsString := by
          intro key hkey
          rw [unexpectedKeys, (List.mergeSort_perm _ _).mem_iff] at hkey
          obtain ⟨f, hf, rfl⟩ := List.mem_map.1 (List.mem_filter.1 hkey).1
          exact names f hf
        split at h
        · cases h
        · obtain rfl := List.mem_singleton.1 h
          refine ⟨List.all_eq_true.2 fun key hkey => (hkeys key hkey).isWritable, ?_⟩
          have hlist : OneLine (Text.separated ", " ((unexpectedKeys properties fields).map Scalar.literal)) :=
            oneLine_separated (by decide) (List.forall_mem_map.2 fun key hkey => (hkeys key hkey).oneLine_literal)
          have hverb : OneLine (if (unexpectedKeys properties fields).length = 1 then " was" else " were") := by
            split <;> decide
          exact oneLine_append.2 ⟨oneLine_append.2 ⟨oneLine_append.2 ⟨by decide, hlist⟩, hverb⟩, by decide⟩
  | field hp hfield h ih => exact ih (hd.of_field? hfield)

end Schema

end RuntimeRanges
