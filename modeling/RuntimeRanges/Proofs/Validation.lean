import RuntimeRanges.Report
import RuntimeRanges.Proofs.Entry
import RuntimeRanges.Proofs.Merge
import RuntimeRanges.Proofs.Overlap

/-!
What a validation does with its entries. Each of them is accounted for once, as a candidate or as a problem, and the
other problems are the overlaps among the candidates; reports count them all.
-/

namespace RuntimeRanges

variable {start : Option Scalar} {es : List Entry} {cs : List Candidate} {rs : List (Identity × Version.Fault)}
  {k : Identity}

namespace Overlap

noncomputable def conflicts (cs : List Candidate) : List (Candidate × Candidate) :=
  (pairs cs).filter fun p => p.1.identity == p.2.identity && decide (p.1.version.Overlaps p.2.version)

theorem conflicts_eq_nil_iff :
    conflicts cs = [] ↔
      ∀ p ∈ pairs cs, (p.1.identity == p.2.identity) = true → ¬ p.1.version.Overlaps p.2.version := by
  rw [conflicts, List.filter_eq_nil_iff]
  simp

theorem conflicts_two {c d : Candidate} (hsame : (c.identity == d.identity) = true)
    (ho : c.version.Overlaps d.version) : conflicts [c, d] = [(c, d)] := by
  have hpairs : pairs [c, d] = [(c, d)] := rfl
  rw [conflicts, hpairs, List.filter_eq_self]
  intro p hp
  obtain rfl := List.mem_singleton.1 hp
  rw [hsame, decide_eq_true ho]
  rfl

theorem conflicts_owned (k : Identity) (cs : List Candidate) :
    conflicts (owned k cs) = (conflicts cs).filter (·.1.identity == k) := by
  rw [conflicts, conflicts, owned, pairs_filter, List.filter_filter, List.filter_filter]
  apply List.filter_congr
  intro p _
  cases hsame : p.1.identity == p.2.identity with
  | false => simp
  | true => rw [← BEq.congr_left hsame, Bool.and_self, Bool.and_comm]

theorem among_owned : among k (owned k cs) = ((conflicts cs).filter (·.1.identity == k)).map (ofPair k) := by
  rw [← conflicts_owned, among_eq_pairs, conflicts]
  congr 1
  apply List.filter_congr
  intro p hp
  obtain ⟨hfirst, hsecond⟩ := mem_of_mem_pairs hp
  have hsame : (p.1.identity == p.2.identity) = true :=
    BEq.trans (List.mem_filter.1 hfirst).2 (BEq.symm (List.mem_filter.1 hsecond).2)
  rw [hsame, Bool.true_and]

theorem proper_table (cs : List Candidate) : (table cs).Proper := by
  refine ⟨distinct_table, ?_⟩
  intro g hg
  obtain ⟨k, hk, rfl⟩ := List.mem_map.1 hg
  exact fun hnil => among_eq_nil_iff.1 hnil (of_decide_eq_true (List.mem_filter.1 hk).2)

theorem exists_key_of_conflict {p : Candidate × Candidate} (h : p ∈ conflicts cs) :
    ∃ k ∈ (table cs).keys, (p.1.identity == k) = true := by
  have hp : p.1.identity ∈ cs.map Candidate.identity :=
    List.mem_map_of_mem (mem_of_mem_pairs (List.mem_filter.1 h).1).1
  obtain ⟨k, hk, hkp⟩ := Grouped.exists_mem_eraseDups hp
  have hpk : (p.1.identity == k) = true := BEq.symm hkp
  have hpresent : Present (owned k cs) := by
    apply Classical.byContradiction
    intro hnone
    have hnil : among k (owned k cs) = [] := among_eq_nil_iff.2 hnone
    rw [among_owned, List.map_eq_nil_iff] at hnil
    exact List.not_mem_nil (hnil ▸ List.mem_filter.2 ⟨h, hpk⟩)
  rw [keys_table]
  exact ⟨k, List.mem_filter.2 ⟨hk, decide_eq_true hpresent⟩, hpk⟩

/-- Every conflict is on record once. -/
theorem size_table : (table cs).size = (conflicts cs).length := by
  apply Grouped.Distinct.size_eq_length (fun p => p.1.identity) distinct_table
  · intro g hg
    obtain ⟨k, hk, rfl⟩ := List.mem_map.1 hg
    rw [among_owned, List.length_map]
  · exact fun p hp => exists_key_of_conflict hp

theorem present_iff_get_table_ne_nil (hk : k ∈ (cs.map Candidate.identity).eraseDups) :
    Present (owned k cs) ↔ (table cs).get k ≠ [] := by
  constructor
  · intro h
    have hkey : k ∈ (table cs).keys := by
      rw [keys_table]
      exact List.mem_filter.2 ⟨hk, decide_eq_true h⟩
    rw [get_table hkey]
    exact fun hnil => among_eq_nil_iff.1 hnil h
  · intro h
    obtain ⟨o, ho⟩ := List.exists_mem_of_ne_nil _ h
    obtain ⟨g, hg, hgk, -⟩ := Grouped.mem_of_mem_get ho
    obtain ⟨k', hk', rfl⟩ := List.mem_map.1 hg
    rw [← owned_congr hgk]
    exact of_decide_eq_true (List.mem_filter.1 hk').2

/-- The identities with overlaps stand in the order of their first candidates. -/
theorem keys_table_eq :
    (table cs).keys = (cs.map Candidate.identity).eraseDups.filter fun k => !((table cs).get k).isEmpty := by
  rw [keys_table]
  apply List.filter_congr
  intro k hk
  rw [Bool.eq_iff_iff, decide_eq_true_iff, present_iff_get_table_ne_nil hk]
  simp

end Overlap

namespace Validation

section

variable {α : Type} {groups : Grouped Identity α} (f : α → Problem)

@[simp]
theorem keys_asProblems : (asProblems f groups).keys = groups.keys := by
  rw [asProblems, Grouped.keys, Grouped.keys, List.map_map]
  rfl

theorem get_asProblems (k : Identity) : (asProblems f groups).get k = (groups.get k).map f := by
  induction groups with
  | nil => rfl
  | cons group groups ih =>
    change (Grouped.get ((group.1, group.2.map f) :: asProblems f groups) k) = _
    rw [Grouped.get, Grouped.get, ih]
    split <;> rfl

theorem proper_asProblems (h : groups.Proper) : (asProblems f groups).Proper := by
  refine ⟨?_, ?_⟩
  · rw [Grouped.Distinct, keys_asProblems]
    exact h.distinct
  · intro g hg
    obtain ⟨group, hgroup, rfl⟩ := List.mem_map.1 hg
    exact mt List.map_eq_nil_iff.1 (h.nonempty group hgroup)

theorem size_asProblems : (asProblems f groups).size = groups.size := by
  rw [Grouped.size_eq_sum, Grouped.size_eq_sum, asProblems, List.map_map]
  simp [Function.comp_def]

end

/-- The validation that has these candidates and these faults. -/
noncomputable def found (cs : List Candidate) (rs : List (Identity × Version.Fault)) : Validation :=
  ⟨cs, Grouped.merge
    [asProblems .unreadable (Grouped.addAll Prod.fst Prod.snd [] rs), asProblems .overlap (Overlap.table cs)]⟩

theorem ofEntries_eq_bind :
    ofEntries start es = Collection.ofEntries start es >>= fun c => (ofCollectionTraced c).outcome :=
  Log.Traced.outcome_bind _ _

theorem ofEntries_eq_found (hn : ∀ e ∈ es, e.Named) (hs : ∀ e ∈ es, e.Short start) :
    ofEntries start es = .ok (found (Entry.accepted start es) (Entry.rejected start es)) := by
  have htable : (Overlap.findTraced (Entry.accepted start es)).outcome = .ok (Overlap.table (Entry.accepted start es)) :=
    Overlap.find_eq_table fun c hc => Entry.short_of_mem_accepted hn hs hc
  rw [ofEntries_eq_bind, Collection.ofEntries_eq hn hs]
  change (ofCollectionTraced _).outcome = _
  rw [ofCollectionTraced, Log.Traced.outcome_bind, Log.Traced.outcome_mapError, htable]
  rfl

theorem proper_faults : (asProblems .unreadable (Grouped.addAll Prod.fst Prod.snd [] rs)).Proper :=
  proper_asProblems _ Grouped.proper_addAll_nil

theorem proper_overlaps : (asProblems .overlap (Overlap.table cs)).Proper :=
  proper_asProblems _ (Overlap.proper_table cs)

theorem get_found (k : Identity) :
    (found cs rs).problems.get k =
      (rs.filter (·.1 == k)).map (fun r => Problem.unreadable r.2) ++ ((Overlap.table cs).get k).map .overlap := by
  have hdistinct : ∀ groups ∈
      [asProblems .unreadable (Grouped.addAll Prod.fst Prod.snd [] rs), asProblems .overlap (Overlap.table cs)],
      groups.Distinct := by
    simp only [List.forall_mem_cons]
    exact ⟨proper_faults.distinct, proper_overlaps.distinct, List.forall_mem_nil _⟩
  rw [found, Grouped.get_merge hdistinct, List.flatMap_cons, List.flatMap_singleton, get_asProblems, get_asProblems,
    Grouped.get_addAll, Grouped.get, List.nil_append, List.map_map]
  rfl

/-- The identities with faults come first, and then the others with overlaps. -/
theorem keys_found :
    (found cs rs).problems.keys =
      (rs.map Prod.fst).eraseDups ++
        (cs.map Candidate.identity).eraseDups.filter fun k =>
          !((Overlap.table cs).get k).isEmpty && !rs.any (·.1 == k) := by
  have hany (k : Identity) : (rs.map Prod.fst).eraseDups.any (· == k) = rs.any (·.1 == k) := by
    rw [Bool.eq_iff_iff, List.any_eq_true, List.any_eq_true]
    constructor
    · rintro ⟨k', hk', heq⟩
      obtain ⟨r, hr, rfl⟩ := List.mem_map.1 (Grouped.mem_of_mem_eraseDups hk')
      exact ⟨r, hr, heq⟩
    · rintro ⟨r, hr, heq⟩
      obtain ⟨k', hk', hrk⟩ := Grouped.exists_mem_eraseDups (List.mem_map_of_mem (f := Prod.fst) hr)
      exact ⟨k', hk', BEq.trans hrk heq⟩
  rw [found, Grouped.keys_merge_pair proper_faults proper_overlaps, keys_asProblems, keys_asProblems,
    Grouped.keys_addAll_nil, Overlap.keys_table_eq, List.filter_filter]
  congr 1
  apply List.filter_congr
  intro k _
  rw [hany, Bool.and_comm]

theorem proper_found : (found cs rs).problems.Proper :=
  Grouped.proper_merge _

theorem problemCount_found : (found cs rs).problemCount = rs.length + (Overlap.conflicts cs).length := by
  rw [problemCount, found, Grouped.size_merge, List.map_cons, List.map_singleton, List.sum_cons, List.sum_singleton,
    size_asProblems, size_asProblems, Grouped.size_addAll, Overlap.size_table, Grouped.size, Nat.zero_add]

variable {v : Validation}

theorem isOk_eq (h : v.problems.Proper) : v.isOk = decide (v.problemCount = 0) := by
  rw [Bool.eq_iff_iff, isOk, List.isEmpty_iff, decide_eq_true_iff, problemCount, h.size_eq_zero_iff]

theorem definitions_eq_nil_iff (h : v.problems.Proper) : v.definitions = [] ↔ v.problemCount = 0 := by
  rw [definitions, List.map_eq_nil_iff, problemCount, h.size_eq_zero_iff]

/-- The number of problems that a definition is listed with in a report. -/
def listedProblems : Document → Nat
  | .object fields =>
    match Document.field? "problems" fields with
    | some (.list problems) => problems.length
    | _ => 0
  | _ => 0

theorem sum_listedProblems (v : Validation) : (v.definitions.map listedProblems).sum = v.problemCount := by
  rw [problemCount, Grouped.size_eq_sum, definitions, List.map_map]
  congr 1
  apply List.map_congr_left
  rintro ⟨k, problems⟩ -
  change (problems.map Problem.toDocument).length = _
  rw [List.length_map]

/-- The report of a validation says in its totals, in its list of definitions and in its answer whether there are
problems that there are `n` of them. -/
structure Totals (v : Validation) (n : Nat) : Prop where
  report :
    v.report =
      .object
        [ ("version", .text "1"), ("hasProblems", .bool (decide (0 < n))), ("definitions", .list v.definitions),
          ( "totals",
            .object
              [ ("candidates", .int v.candidates.length), ("definitions", .int v.definitions.length),
                ("problems", .int n) ] ) ]
  isOk : v.isOk = decide (n = 0)
  definitions : v.definitions = [] ↔ n = 0
  listed : (v.definitions.map listedProblems).sum = n

theorem totals_problemCount (h : v.problems.Proper) : v.Totals v.problemCount where
  report := by
    have hok : (!v.isOk) = decide (0 < v.problemCount) := by
      rw [isOk_eq h, ← decide_not, decide_eq_decide, Nat.pos_iff_ne_zero]
    rw [report, hok]
  isOk := isOk_eq h
  definitions := definitions_eq_nil_iff h
  listed := sum_listedProblems v

/-- A validation holds the candidates of its entries in order, and for each identity its faults in order and then its
overlaps. Identities with faults come first, each where its first fault is, and then those with overlaps only, each
where its first candidate is. -/
structure AccountsFor (v : Validation) (start : Option Scalar) (es : List Entry) (overlaps : Grouped Identity Overlap) :
    Prop where
  candidates : v.candidates = Entry.accepted start es
  problems :
    ∀ k, v.problems.get k =
      ((Entry.rejected start es).filter (·.1 == k)).map (fun r => Problem.unreadable r.2) ++
        (overlaps.get k).map .overlap
  keys :
    v.problems.keys =
      ((Entry.rejected start es).map Prod.fst).eraseDups ++
        (v.candidates.map Candidate.identity).eraseDups.filter fun k =>
          !(overlaps.get k).isEmpty && !(Entry.rejected start es).any (·.1 == k)
  proper : v.problems.Proper

theorem rejected_eq_nil_iff (hn : ∀ e ∈ es, e.Named) (hs : ∀ e ∈ es, e.Short start) :
    Entry.rejected start es = [] ↔ ∀ e ∈ es, ∃ v, Collection.readRange start e.range = .ok v := by
  rw [Entry.rejected, List.filterMap_eq_nil_iff]
  apply forall₂_congr
  intro e he
  obtain ⟨k, hk, -, -, ⟨v, hv, -, -, hr⟩ | ⟨f, hf, -, hr⟩⟩ := Entry.candidate_or_rejection (hn e he) (hs e he)
  · exact iff_of_true hr ⟨v, hv⟩
  · rw [hr, hf]
    exact iff_of_false (by simp) (by simp)

/-- Validation loses and invents nothing: every entry is one candidate or one fault, problems are the faults and the
overlaps of candidates, and the report counts them all. It succeeds if and only if all ranges can be read and no two of
one identity overlap. -/
theorem ofEntries_accounts_for (hn : ∀ e ∈ es, e.Named) (hs : ∀ e ∈ es, e.Short start) :
    ∃ v overlaps, ofEntries start es = .ok v ∧ Overlap.find v.candidates = .ok overlaps ∧
      (∀ e ∈ es, e.Settled start) ∧ v.AccountsFor start es overlaps ∧
      v.Totals ((Entry.rejected start es).length + (Overlap.conflicts v.candidates).length) ∧
      (v.isOk = true ↔
        (∀ e ∈ es, ∃ w, Collection.readRange start e.range = .ok w) ∧
          ∀ p ∈ pairs v.candidates, (p.1.identity == p.2.identity) = true → ¬ p.1.version.Overlaps p.2.version) := by
  have hshort : ∀ c ∈ Entry.accepted start es, c.Short := fun c hc => Entry.short_of_mem_accepted hn hs hc
  have hproper : (found (Entry.accepted start es) (Entry.rejected start es)).problems.Proper := proper_found
  have htotals := totals_problemCount hproper
  rw [problemCount_found] at htotals
  refine ⟨_, _, ofEntries_eq_found hn hs, Overlap.find_eq_table hshort, fun e he => (hn e he).settled (hs e he),
    ⟨rfl, get_found, keys_found, proper_found⟩, htotals, ?_⟩
  rw [htotals.isOk, decide_eq_true_iff, Nat.add_eq_zero_iff, List.length_eq_zero_iff, List.length_eq_zero_iff,
    rejected_eq_nil_iff hn hs, Overlap.conflicts_eq_nil_iff]
  rfl

/-- Three definitions of one package: the ranges of the first two overlap, and the third is no range. -/
def mixed : List Entry :=
  [⟨"lodash", "v4.x.x", "flow_>=v1.x.x"⟩, ⟨"lodash", "v4.x.x", "flow_v1.2.3"⟩, ⟨"lodash", "v4.x.x", "v2.x.x"⟩]

theorem named_of_mem_mixed : ∀ e ∈ mixed, e.Named := by decide +kernel

theorem short_of_mem_mixed : ∀ e ∈ mixed, e.Short (some "flow_") := by decide +kernel

theorem ofEntries_accounts_for_mixed :
    ∃ v overlaps, ofEntries (some "flow_") mixed = .ok v ∧ Overlap.find v.candidates = .ok overlaps ∧
      v.candidates = Overlap.sample ∧ v.AccountsFor (some "flow_") mixed overlaps ∧ v.Totals 2 ∧ v.isOk = false := by
  have haccepted : Entry.accepted (some "flow_") mixed = Overlap.sample := by rfl
  have hrejected : (Entry.rejected (some "flow_") mixed).length = 1 := by rfl
  have ho : (Version.limit ⟨.atLeast, ⟨.number 1, .wildcard, .wildcard⟩⟩).Overlaps (.exact (.ofNumbers 1 2 3)) :=
    (Version.overlaps_iff_admits (by decide +kernel) (by decide +kernel)).2 ⟨1, 2, 3, by decide, by decide⟩
  have hsame (v w : Version) : ((Candidate.ofLodash v).identity == (Candidate.ofLodash w).identity) = true := BEq.rfl
  have hconflicts : (Overlap.conflicts Overlap.sample).length = 1 := by
    rw [Overlap.sample, Overlap.conflicts_two (hsame _ _) ho, List.length_singleton]
  obtain ⟨v, overlaps, hv, hfind, -, haccounts, htotals, -⟩ :=
    ofEntries_accounts_for named_of_mem_mixed short_of_mem_mixed
  have hcandidates : v.candidates = Overlap.sample := haccounts.candidates.trans haccepted
  rw [hcandidates, hrejected, hconflicts] at htotals
  exact ⟨v, overlaps, hv, hfind, hcandidates, haccounts, htotals, htotals.isOk⟩

end Validation

end RuntimeRanges
