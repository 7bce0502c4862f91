import RuntimeRanges.Range
import RuntimeRanges.Proofs.Text.Cut

/-!
Alternatives of a range that were put together from comparators: blanks around a single comparator and between
two of them do not matter.
-/

namespace RuntimeRanges.Range

variable {cs ds before after : List Char} {c : Char} {inGap : Bool}

theorem closeGaps_of_noBlank (hcs : ∀ d ∈ cs, Text.isBlank d = false) : closeGaps inGap cs = cs := by
  induction cs generalizing inGap with
  | nil => rfl
  | cons d cs ih =>
    have hd : Text.isBlank d = false := hcs d (by simp)
    simp only [closeGaps, hd, Bool.and_false, Bool.false_eq_true, ↓reduceIte]
    rw [ih fun e he => hcs e (List.mem_cons_of_mem _ he)]

/-- A gap can only begin behind a character that ends an operator. -/
theorem closeGaps_append (hcs : ∀ d ∈ cs, Text.isBlank d = false) (hc : Text.isBlank c = false)
    (ds : List Char) : closeGaps inGap (cs ++ c :: ds) = cs ++ c :: closeGaps (endsOperator c) ds := by
  induction cs generalizing inGap with
  | nil => simp [closeGaps, hc]
  | cons d cs ih =>
    have hd : Text.isBlank d = false := hcs d (by simp)
    simp only [List.cons_append, closeGaps, hd, Bool.and_false, Bool.false_eq_true, ↓reduceIte]
    rw [ih fun e he => hcs e (List.mem_cons_of_mem _ he)]

theorem readAlternative_between (hb : ∀ d ∈ before, Text.isBlank d = true)
    (ha : ∀ d ∈ after, Text.isBlank d = true) (hne : cs ≠ []) (hcs : ∀ d ∈ cs, Text.isBlank d = false) :
    readAlternative (before ++ cs ++ after) = meetAll .any [cs] := by
  have ht : Text.trim (before ++ cs ++ after) = cs :=
    Text.trim_append hb ha (fun d hd => hcs d (List.mem_of_mem_head? hd))
      (fun d hd => hcs d (List.mem_of_mem_getLast? hd)) hne
  simp only [readAlternative, Text.words_between hb ha hne hcs, ht, closeGaps_of_noBlank hcs,
    Text.words_of_noBlank hne hcs]

theorem readAlternative_two (hcs : ∀ d ∈ cs, Text.isBlank d = false) (hc : Text.isBlank c = false)
    (hop : endsOperator c = false) (hne : ds ≠ []) (hds : ∀ d ∈ ds, Text.isBlank d = false) :
    readAlternative (cs ++ [c] ++ ' ' :: ds) = meetAll .any [cs ++ [c], ds] := by
  have hfirst : ∀ d ∈ cs ++ [c], Text.isBlank d = false := by
    intro d hd
    rcases List.mem_append.1 hd with hd | hd
    · exact hcs d hd
    · exact List.mem_singleton.1 hd ▸ hc
  have hw : Text.words (cs ++ [c] ++ ' ' :: ds) = [cs ++ [c], ds] := by
    rw [Text.words_append (by simp) hfirst (by simp; rfl), Text.words_cons_of_blank rfl,
      Text.words_of_noBlank hne hds]
  have ht : Text.trim (cs ++ [c] ++ ' ' :: ds) = cs ++ [c] ++ ' ' :: ds :=
    Text.trim_append_cons (by simp) hfirst hne hds
  have hg : closeGaps false (cs ++ [c] ++ ' ' :: ds) = cs ++ [c] ++ ' ' :: ds := by
    have hblank : closeGaps false (' ' :: ds) = ' ' :: ds := by
      simp [closeGaps, closeGaps_of_noBlank hds]
    rw [List.append_assoc, List.singleton_append, closeGaps_append hcs hc, hop, hblank]
  simp only [readAlternative, hw, ht, hg]

end RuntimeRanges.Range
