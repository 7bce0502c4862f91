import Mathlib.Data.List.TakeWhile
import RuntimeRanges.Command.Output

/-!
Texts on the standard streams. The standard output takes a text exactly if all its code points stand for characters;
what is put together from several texts is written on the standard error as these are, one after the other.
-/

namespace RuntimeRanges

namespace Scalar

def Encodable (t : Scalar) : Prop :=
  ∀ n ∈ t.codes, n.isValidChar

theorem codes_text (s : String) : (text s).codes = s.toList.map Char.toNat := rfl

theorem encodable_text (s : String) : (text s).Encodable := by
  rw [Encodable, codes_text]
  exact List.forall_mem_map.2 fun c _ => c.valid

theorem map_toNat_ofNat {codes : List Nat} (h : ∀ n ∈ codes, n.isValidChar) :
    (codes.map Char.ofNat).map Char.toNat = codes := by
  induction codes with
  | nil => rfl
  | cons n codes ih =>
    rw [List.forall_mem_cons] at h
    have hn : (Char.ofNat n).toNat = n := by
      rw [Char.ofNat, dif_pos h.1]
      rfl
    rw [List.map_cons, List.map_cons, hn, ih h.2]

theorem codes_ofCodes (codes : List Nat) : (ofCodes codes).codes = codes := by
  rw [ofCodes]
  split
  · next h =>
    rw [codes_text, String.toList_ofList]
    exact map_toNat_ofNat (by simpa using h)
  · rfl

theorem codes_joined (parts : List Scalar) : (joined parts).codes = parts.flatMap codes :=
  codes_ofCodes _

end Scalar

namespace Command

variable {t : Scalar} {s : String} {codes : List Nat}

theorem unencodable?_eq_none_iff : unencodable? codes = none ↔ ∀ n ∈ codes, n.isValidChar := by
  have hdrop : codes.dropWhile (fun n => decide n.isValidChar) = [] ↔ ∀ n ∈ codes, n.isValidChar := by
    rw [List.dropWhile_eq_nil_iff]
    exact forall₂_congr fun _ _ => decide_eq_true_iff
  rw [← hdrop, unencodable?]
  split
  · next h => exact iff_of_true rfl h
  · next h => exact iff_of_false nofun (h ▸ List.cons_ne_nil _ _)

/-- The standard output takes a text as the string with its code points. -/
theorem onStdout_eq_ok_iff : onStdout t = .ok s ↔ t.codes = s.toList.map Char.toNat := by
  rw [onStdout]
  cases h : unencodable? t.codes with
  | none =>
    have hcodes := Scalar.map_toNat_ofNat (unencodable?_eq_none_iff.1 h)
    constructor
    · intro heq
      rw [← Except.ok.inj heq, String.toList_ofList, hcodes]
    · intro heq
      rw [heq, List.map_map]
      change Except.ok (String.ofList (s.toList.map fun c => Char.ofNat c.toNat)) = _
      simp
  | some u =>
    refine iff_of_false nofun fun heq => ?_
    have hall : (Scalar.text s).Encodable := Scalar.encodable_text s
    rw [Scalar.Encodable, Scalar.codes_text, ← heq, ← unencodable?_eq_none_iff, h] at hall
    cases hall

theorem onStdout_text (s : String) : onStdout (.text s) = .ok s :=
  onStdout_eq_ok_iff.2 rfl

theorem exists_onStdout (h : t.Encodable) : ∃ s, onStdout t = .ok s := by
  rw [onStdout, unencodable?_eq_none_iff.2 h]
  exact ⟨_, rfl⟩

theorem exists_unencodable (h : ¬ t.Encodable) : ∃ u, onStdout t = .error (.unencodable u) := by
  rw [onStdout]
  cases hu : unencodable? t.codes with
  | none => exact absurd (unencodable?_eq_none_iff.1 hu) h
  | some u => exact ⟨u, rfl⟩

theorem onStderr_text (s : String) : onStderr (.text s) = s := by
  have hchar (c : Char) : stderrChars c.toNat = [c] := by
    rw [stderrChars, if_pos (show c.toNat.isValidChar from c.valid), Char.ofNat_toNat]
  rw [onStderr, Scalar.codes_text, List.flatMap_map]
  simp [hchar]

theorem onStderr_joined (parts : List Scalar) : onStderr (.joined parts) = String.join (parts.map onStderr) := by
  rw [onStderr, Scalar.codes_joined, ← String.toList_inj, String.toList_ofList, String.toList_join, List.flatMap_assoc,
    List.flatMap_map]
  simp [onStderr]

end Command

end RuntimeRanges
