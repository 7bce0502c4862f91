import RuntimeRanges.Resolution
import RuntimeRanges.Proofs.Version.Pattern

/-!
Resolution in a closed form: the candidates whose reduced version matches the target, place by place.
-/

namespace RuntimeRanges

namespace Candidate

variable {target : String} {c : Candidate} {cs : List Candidate} {t : Parts}

theorem outcome_matchesTraced {matched : Bool} (h : c.version.simplify.satisfies target = .ok matched)
    (hw : c.identity.write = .ok c.identity.label) : (c.matchesTraced target).outcome = .ok matched := by
  simp only [matchesTraced, Log.Traced.outcome_bind, Version.outcome_simplifyTraced, Log.Traced.outcome_lift,
    Log.Traced.outcome_emit, Log.Traced.outcome_pure, hw]
  simp only [bind, Except.bind, Except.mapError, h]

theorem Short.outcome_matchesTraced (hc : c.Short) (ht : t.Short) :
    (c.matchesTraced (Version.exact t).rangeText).outcome = .ok (decide (c.version.simplify.Matches t)) :=
  Candidate.outcome_matchesTraced (Version.satisfies_exact_rangeText hc.version.simplify ht) hc.write_identity

/-- Where every candidate can be tested, those that pass are selected, in order. -/
theorem outcome_selectTraced {f : Candidate → Bool}
    (h : ∀ c ∈ cs, (c.matchesTraced target).outcome = .ok (f c)) :
    (selectTraced target cs).outcome = .ok (cs.filter f) := by
  induction cs with
  | nil => rfl
  | cons c cs ih =>
    simp only [selectTraced, Log.Traced.outcome_bind, Log.Traced.outcome_pure, h c List.mem_cons_self,
      ih fun d hd => h d (List.mem_cons_of_mem _ hd)]
    cases hf : f c <;> simp [hf] <;> rfl

theorem outcome_selectTraced_exact (ht : t.Short) (hcs : ∀ c ∈ cs, c.Short) :
    (selectTraced (Version.exact t).rangeText cs).outcome =
      .ok (cs.filter fun c => decide (c.version.simplify.Matches t)) :=
  outcome_selectTraced fun c hc => (hcs c hc).outcome_matchesTraced ht

end Candidate

/-- The candidates that cover an exact target are those whose reduced version matches it; resolution never fails for
short numbers, and keeps order and repetitions. -/
theorem resolve_exact {t : Parts} {cs : List Candidate} (ht : t.Short) (hcs : ∀ c ∈ cs, c.Short) :
    resolve (.exact t) cs = .ok (cs.filter fun c => decide (c.version.simplify.Matches t)) :=
  Candidate.outcome_selectTraced fun c hc => (hcs c hc).outcome_matchesTraced ht

theorem resolve_exact_two :
    resolve (.exact ⟨.number 1, .number 2, .wildcard⟩)
      [.ofLodash (.exact ⟨.number 1, .wildcard, .number 30⟩), .ofLodash (.limit ⟨.atLeast, .ofNumbers 1 1 0⟩)] =
        .ok [.ofLodash (.exact ⟨.number 1, .wildcard, .number 30⟩)] :=
  resolve_exact (by decide +kernel) (by decide +kernel)

end RuntimeRanges
