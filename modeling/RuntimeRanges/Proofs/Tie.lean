import RuntimeRanges.Proofs.Overlap
import RuntimeRanges.Proofs.Resolution
import RuntimeRanges.Proofs.Version.Start

/-!
Ties: candidates of one identity that are kept for the same exact target. Resolution looks at the parts of a version
alone and the search for overlaps at its whole range, so that a tie need not be an overlap.
-/

namespace RuntimeRanges

/-- Whether the later one of two starts is admitted by the second bounds of both versions. -/
def Version.ReachSharedStart (v w : Version) : Prop :=
  v.Reaches (v.sharedStart w) ∧ w.Reaches (v.sharedStart w)

instance (v w : Version) : Decidable (v.ReachSharedStart w) :=
  inferInstanceAs (Decidable (_ ∧ _))

section

variable {a b c : Nat} {cs : List Candidate}

theorem resolve_eq_filter (ha : Numeral.Short a) (hb : Numeral.Short b) (hc : Numeral.Short c)
    (hcs : ∀ c ∈ cs, c.Short) :
    resolve (.exact (.ofNumbers a b c)) cs =
      .ok (cs.filter fun d => decide (d.version.simplify.Matches (.ofNumbers a b c))) :=
  Candidate.outcome_selectTraced fun d hd => (hcs d hd).outcome_matchesTraced ⟨ha, hb, hc⟩

/-- A tie for a target without wildcards is on record as an overlap exactly if both second bounds, where they count,
admit the later one of the two starts. -/
theorem tie_recorded_iff (ha : Numeral.Short a) (hb : Numeral.Short b) (hc : Numeral.Short c)
    (hcs : ∀ c ∈ cs, c.Short) :
    ∃ kept groups, resolve (.exact (.ofNumbers a b c)) cs = .ok kept ∧ Overlap.find cs = .ok groups ∧
      ∀ i j, i < j → cs.get i ∈ kept → cs.get j ∈ kept → ((cs.get i).identity == (cs.get j).identity) = true →
        ((∃ o ∈ groups.get (cs.get i).identity, o.first = (cs.get i).version ∧ o.second = (cs.get j).version) ↔
          (cs.get i).version.simplify.ReachSharedStart (cs.get j).version.simplify) := by
  refine ⟨_, _, resolve_eq_filter ha hb hc hcs, Overlap.find_eq_table hcs, ?_⟩
  intro i j hij hi hj hsame
  have hmi := of_decide_eq_true (List.mem_filter.1 hi).2
  have hmj := of_decide_eq_true (List.mem_filter.1 hj).2
  have hci := hcs (cs.get i) (cs.get_mem i)
  have hcj := hcs (cs.get j) (cs.get_mem j)
  have hrecord := Overlap.exists_record_iff hij hsame
  exact hrecord.trans (Version.overlaps_iff_reaches hci.version hcj.version hmi hmj)

end

/-- Three candidates of one package that all match `1.2.3`: `>=v1.x.x_<=v1.1.x`, `v1.2.3` and `v1.x.x`. -/
def tied : List Candidate :=
  [ .ofLodash (.pair ⟨.atLeast, ⟨.number 1, .wildcard, .wildcard⟩⟩ ⟨.atMost, ⟨.number 1, .number 1, .wildcard⟩⟩),
    .ofLodash (.exact (.ofNumbers 1 2 3)), .ofLodash (.exact ⟨.number 1, .wildcard, .wildcard⟩) ]

theorem short_tied : ∀ c ∈ tied, c.Short := by decide +kernel

theorem resolve_tied : resolve (.exact (.ofNumbers 1 2 3)) tied = .ok tied :=
  resolve_eq_filter (by decide +kernel) (by decide +kernel) (by decide +kernel) short_tied

theorem tie_recorded_tied :
    ∃ groups, Overlap.find tied = .ok groups ∧
      (∃ o ∈ groups.get tied[1].identity, o.first = tied[1].version ∧ o.second = tied[2].version) ∧
      ¬∃ o ∈ groups.get tied[0].identity, o.first = tied[0].version ∧ o.second = tied[1].version := by
  have h₁ : Numeral.Short 1 := by decide +kernel
  have h₂ : Numeral.Short 2 := by decide +kernel
  have h₃ : Numeral.Short 3 := by decide +kernel
  obtain ⟨kept, groups, hkept, hfind, h⟩ := tie_recorded_iff h₁ h₂ h₃ short_tied
  rw [resolve_tied] at hkept
  cases hkept
  have h₀₁ := h ⟨0, by decide⟩ ⟨1, by decide⟩ (by decide) (by decide) (by decide) (by decide)
  have h₁₂ := h ⟨1, by decide⟩ ⟨2, by decide⟩ (by decide) (by decide) (by decide) (by decide)
  refine ⟨groups, hfind, h₁₂.2 (by decide), ?_⟩
  intro hr
  exact absurd (h₀₁.1 hr) (by decide)

/-- The first two of the candidates are both kept, and no overlap is found. -/
theorem tie_without_overlap :
    resolve (.exact (.ofNumbers 1 2 3)) (tied.take 2) = .ok (tied.take 2) ∧ Overlap.find (tied.take 2) = .ok [] := by
  have hshort : ∀ c ∈ tied.take 2, c.Short := fun c hc => short_tied c (List.mem_of_mem_take hc)
  have hnone : ¬tied[0].version.Overlaps tied[1].version := by
    have h₀ := short_tied tied[0] (List.getElem_mem _)
    have h₁ := short_tied tied[1] (List.getElem_mem _)
    have hiff : tied[0].version.Overlaps tied[1].version ↔ _ :=
      Version.overlaps_iff_reaches (a := 1) (b := 2) (c := 3) h₀.version h₁.version (by decide) (by decide)
    rw [hiff]
    decide
  constructor
  · exact resolve_eq_filter (by decide +kernel) (by decide +kernel) (by decide +kernel) hshort
  · rw [Overlap.find_eq_table hshort, Overlap.table, List.filter_eq_nil_iff.2]
    · rfl
    · intro k hk
      have howned : Overlap.owned k (tied.take 2) = tied.take 2 := by
        obtain rfl := List.mem_singleton.1 hk
        decide
      rw [howned, decide_eq_true_iff]
      rintro ⟨⟨i, hi⟩, ⟨j, hj⟩, hij, ho⟩
      have hlt : i < j := hij
      change j < 2 at hj
      obtain ⟨rfl, rfl⟩ : i = 0 ∧ j = 1 := by omega
      exact hnone ho

end RuntimeRanges
