import RuntimeRanges.Resolution
import RuntimeRanges.Proofs.Grouped
import RuntimeRanges.Proofs.Version.Intersection

/-!
Overlaps between the candidates of one identity: every pair of them whose versions overlap is reported once, in
the order of their positions.
-/

namespace RuntimeRanges

/-- All pairs of positions in a list of the given length, the smaller one first, in lexicographic order. -/
def positionPairs (n : Nat) : List (Fin n × Fin n) :=
  (List.finRange n).flatMap fun i => ((List.finRange n).filter (i < ·)).map (i, ·)

theorem mem_positionPairs {n : Nat} {i j : Fin n} : (i, j) ∈ positionPairs n ↔ i < j := by
  simp [positionPairs]

theorem filter_lt_succ {n : Nat} (i : Fin n) :
    (List.finRange (n + 1)).filter (i.succ < ·) = ((List.finRange n).filter (i < ·)).map Fin.succ := by
  rw [List.finRange_succ, List.filter_cons_of_neg (by simp), List.filter_map]
  congr 1
  apply List.filter_congr
  intro j _
  simp

theorem positionPairs_succ (n : Nat) :
    positionPairs (n + 1) =
      (List.finRange n).map (fun j => (0, j.succ)) ++ (positionPairs n).map fun p => (p.1.succ, p.2.succ) := by
  have hzero : (List.finRange (n + 1)).filter (0 < ·) = (List.finRange n).map Fin.succ := by
    rw [List.finRange_succ, List.filter_cons_of_neg (by simp)]
    apply List.filter_eq_self.2
    intro j hj
    obtain ⟨i, -, rfl⟩ := List.mem_map.1 hj
    simp
  have hrest : ((List.finRange n).map Fin.succ).flatMap (fun i =>
      ((List.finRange (n + 1)).filter (i < ·)).map (i, ·)) =
        (positionPairs n).map fun p => (p.1.succ, p.2.succ) := by
    rw [positionPairs, List.flatMap_map, List.map_flatMap]
    congr 1
    funext i
    rw [filter_lt_succ, List.map_map, List.map_map]
    rfl
  have hsplit : positionPairs (n + 1) =
      (0 :: (List.finRange n).map Fin.succ).flatMap fun i =>
        ((List.finRange (n + 1)).filter (i < ·)).map (i, ·) := by
    rw [← List.finRange_succ, positionPairs]
  rw [hsplit, List.flatMap_cons, hrest, hzero, List.map_map]
  rfl

theorem pairs_eq_map_positionPairs {α : Type} (l : List α) :
    pairs l = (positionPairs l.length).map fun p => (l[p.1], l[p.2]) := by
  induction l with
  | nil => rfl
  | cons a l ih =>
    have hfirst : l.map (a, ·) = (List.finRange l.length).map fun j => (a, l[j]) := by
      apply List.ext_getElem <;> simp
    rw [pairs, ih, hfirst]
    change _ = (positionPairs (l.length + 1)).map _
    rw [positionPairs_succ, List.map_append, List.map_map, List.map_map]
    rfl

theorem mem_of_mem_pairs {α : Type} {l : List α} {p : α × α} (h : p ∈ pairs l) : p.1 ∈ l ∧ p.2 ∈ l := by
  rw [pairs_eq_map_positionPairs] at h
  obtain ⟨q, -, rfl⟩ := List.mem_map.1 h
  exact ⟨List.getElem_mem _, List.getElem_mem _⟩

theorem mem_pairs_of_lt {α : Type} {l : List α} {i j : Fin l.length} (h : i < j) : (l[i], l[j]) ∈ pairs l := by
  rw [pairs_eq_map_positionPairs]
  exact List.mem_map.2 ⟨(i, j), mem_positionPairs.2 h, rfl⟩

theorem pairs_filter {α : Type} (q : α → Bool) (l : List α) :
    pairs (l.filter q) = (pairs l).filter fun p => q p.1 && q p.2 := by
  induction l with
  | nil => rfl
  | cons a l ih =>
    rw [pairs, List.filter_append, ← ih, List.filter_map, List.filter_cons]
    cases ha : q a with
    | true =>
      have hsecond : ((fun p : α × α => q p.1 && q p.2) ∘ (a, ·)) = q := by
        funext b
        simp [ha]
      rw [if_pos rfl, pairs, hsecond]
    | false =>
      have hsecond : ((fun p : α × α => q p.1 && q p.2) ∘ (a, ·)) = fun _ => false := by
        funext b
        simp [ha]
      rw [if_neg (by simp), hsecond]
      simp

theorem mem_pairs_filter {α : Type} {l : List α} {q : α → Bool} {p : α × α} (h : p ∈ pairs l)
    (hfirst : q p.1 = true) (hsecond : q p.2 = true) : p ∈ pairs (l.filter q) := by
  rw [pairs_filter]
  exact List.mem_filter.2 ⟨h, Bool.and_eq_true_iff.2 ⟨hfirst, hsecond⟩⟩

theorem pairs_map {α β : Type} (f : α → β) (l : List α) :
    pairs (l.map f) = (pairs l).map fun p => (f p.1, f p.2) := by
  induction l with
  | nil => rfl
  | cons a l ih =>
    rw [List.map_cons, pairs, pairs, ih, List.map_append, List.map_map, List.map_map]
    rfl

namespace Overlap

open Log (Traced)

variable {k : Identity} {c : Candidate} {cs members : List Candidate}

/-- A candidate with the text of its reduced range. -/
def ranged (c : Candidate) : Candidate × String :=
  (c, c.version.simplify.rangeText)

theorem outcome_groupTraced (groups : Grouped Identity (Candidate × String)) (cs : List Candidate) :
    (groupTraced groups cs).outcome = .ok (groups.addAll Candidate.identity ranged cs) := by
  induction cs generalizing groups with
  | nil => rfl
  | cons c cs ih =>
    rw [groupTraced, Traced.outcome_bind, Version.outcome_simplifyTraced]
    exact ih _

theorem outcome_foundTraced (hk : k.write = .ok k.label) (first second : String) :
    (foundTraced k first second).outcome = .ok () := by
  rw [foundTraced, Traced.outcome_bind, Traced.outcome_lift, hk]
  rfl

def ofPair (k : Identity) (p : Candidate × Candidate) : Overlap :=
  ⟨k, p.1.version, p.2.version⟩

theorem outcome_ofPairsTraced (hk : k.write = .ok k.label) {ps : List (Candidate × Candidate)}
    (hps : ∀ p ∈ ps, p.1.Short ∧ p.2.Short) :
    (ofPairsTraced k (ps.map fun p => (ranged p.1, ranged p.2))).outcome =
      .ok ((ps.filter fun p => decide (p.1.version.Overlaps p.2.version)).map (ofPair k)) := by
  induction ps with
  | nil => rfl
  | cons p ps ih =>
    obtain ⟨hc, hd⟩ := hps p List.mem_cons_self
    have hrest := ih fun q hq => hps q (List.mem_cons_of_mem _ hq)
    have hshared := Version.intersects_rangeText hc.version hd.version
    rw [List.map_cons, ranged, ranged, ofPairsTraced]
    rw [Traced.outcome_bind, Traced.outcome_lift, hshared, List.filter_cons]
    cases hov : decide (p.1.version.Overlaps p.2.version) with
    | true =>
      change (foundTraced k _ _ >>= fun _ => ofPairsTraced k _ >>= _).outcome = _
      rw [Traced.outcome_bind, outcome_foundTraced hk]
      change (ofPairsTraced k _ >>= _).outcome = _
      rw [Traced.outcome_bind, hrest]
      rfl
    | false =>
      change (ofPairsTraced k _ >>= _).outcome = _
      rw [Traced.outcome_bind, hrest]
      rfl

theorem outcome_ofGroupsTraced {groups : Grouped Identity (Candidate × String)}
    {f : Identity × List (Candidate × String) → List Overlap}
    (h : ∀ g ∈ groups, (ofPairsTraced g.1 (pairs g.2)).outcome = .ok (f g)) :
    (ofGroupsTraced groups).outcome = .ok ((groups.map fun g => (g.1, f g)).filter fun g => !g.2.isEmpty) := by
  induction groups with
  | nil => rfl
  | cons g groups ih =>
    have hg := h g List.mem_cons_self
    have hrest := ih fun g' hg' => h g' (List.mem_cons_of_mem _ hg')
    rw [ofGroupsTraced, Traced.outcome_bind, hg]
    change (ofGroupsTraced groups >>= _).outcome = _
    rw [Traced.outcome_bind, hrest, List.map_cons, List.filter_cons]
    cases hf : f g <;> rfl

def owned (k : Identity) (cs : List Candidate) : List Candidate :=
  cs.filter fun c => c.identity == k

/-- The overlaps among candidates of one identity: a record for each pair of positions whose versions overlap, in
lexicographic order. -/
noncomputable def among (k : Identity) (members : List Candidate) : List Overlap :=
  ((positionPairs members.length).filter fun p => decide (members[p.1].version.Overlaps members[p.2].version)).map
    fun p => ⟨k, members[p.1].version, members[p.2].version⟩

/-- Whether two candidates at different positions overlap. -/
def Present (members : List Candidate) : Prop :=
  ∃ i j : Fin members.length, i < j ∧ members[i].version.Overlaps members[j].version

noncomputable instance (members : List Candidate) : Decidable (Present members) :=
  Classical.propDecidable _

theorem among_eq_pairs :
    among k members =
      ((pairs members).filter fun p => decide (p.1.version.Overlaps p.2.version)).map (ofPair k) := by
  rw [pairs_eq_map_positionPairs, List.filter_map, List.map_map]
  rfl

theorem among_eq_nil_iff : among k members = [] ↔ ¬Present members := by
  rw [among, List.map_eq_nil_iff, List.filter_eq_nil_iff]
  constructor
  · rintro h ⟨i, j, hij, ho⟩
    exact h (i, j) (mem_positionPairs.2 hij) (decide_eq_true ho)
  · rintro h ⟨i, j⟩ hp ho
    exact h ⟨i, j, mem_positionPairs.1 hp, of_decide_eq_true ho⟩

theorem isEmpty_among : (among k members).isEmpty = !decide (Present members) := by
  rw [Bool.eq_iff_iff, List.isEmpty_iff, among_eq_nil_iff]
  simp

theorem outcome_ofPairsTraced_pairs (hk : k.write = .ok k.label) (hms : ∀ c ∈ members, c.Short) :
    (ofPairsTraced k (pairs (members.map ranged))).outcome = .ok (among k members) := by
  rw [pairs_map, among_eq_pairs]
  apply outcome_ofPairsTraced hk
  intro p hp
  obtain ⟨hfirst, hsecond⟩ := mem_of_mem_pairs hp
  exact ⟨hms _ hfirst, hms _ hsecond⟩

/-- The overlaps of each identity that has some, in the order of first occurrence. -/
noncomputable def table (cs : List Candidate) : Grouped Identity Overlap :=
  ((cs.map Candidate.identity).eraseDups.filter fun k => decide (Present (owned k cs))).map
    fun k => (k, among k (owned k cs))

theorem find_eq_table (h : ∀ c ∈ cs, c.Short) : find cs = .ok (table cs) := by
  have hgroups : ∀ g ∈ Grouped.addAll Candidate.identity ranged [] cs,
      (ofPairsTraced g.1 (pairs g.2)).outcome = .ok (among g.1 (owned g.1 cs)) := by
    intro g hg
    rw [Grouped.addAll_nil_eq] at hg
    obtain ⟨k, hk, rfl⟩ := List.mem_map.1 hg
    obtain ⟨c, hc, rfl⟩ := List.mem_map.1 (Grouped.mem_of_mem_eraseDups hk)
    apply outcome_ofPairsTraced_pairs (h c hc).write_identity
    intro d hd
    exact h d (List.mem_filter.1 hd).1
  rw [find, findTraced, Traced.outcome_bind, outcome_groupTraced]
  change (ofGroupsTraced _).outcome = _
  rw [outcome_ofGroupsTraced hgroups, Grouped.addAll_nil_eq, List.map_map, List.filter_map, table]
  congr 2
  apply List.filter_congr
  intro k _
  change (!(among k (owned k cs)).isEmpty) = _
  rw [isEmpty_among, Bool.not_not]

theorem keys_table :
    (table cs).keys = (cs.map Candidate.identity).eraseDups.filter fun k => decide (Present (owned k cs)) :=
  Grouped.keys_map_mk ..

theorem distinct_table : (table cs).Distinct := by
  rw [Grouped.Distinct, keys_table]
  exact (Grouped.pairwise_eraseDups _).filter _

theorem get_table (hk : k ∈ (table cs).keys) : (table cs).get k = among k (owned k cs) := by
  rw [keys_table] at hk
  exact distinct_table.get_of_mem (List.mem_map_of_mem hk) BEq.rfl

theorem owned_congr {k' : Identity} (h : (k' == k) = true) : owned k' cs = owned k cs := by
  rw [owned, owned]
  apply List.filter_congr
  intro c _
  rw [BEq.congr_right h]

/-- What is found for an identity is found among its candidates. -/
theorem mem_get_table_iff {o : Overlap} :
    o ∈ (table cs).get k ↔
      ∃ k' ∈ (cs.map Candidate.identity).eraseDups, (k' == k) = true ∧ o ∈ among k' (owned k cs) := by
  constructor
  · intro ho
    obtain ⟨g, hg, hgk, ho⟩ := Grouped.mem_of_mem_get ho
    obtain ⟨k', hk', rfl⟩ := List.mem_map.1 hg
    rw [owned_congr hgk] at ho
    exact ⟨k', (List.mem_filter.1 hk').1, hgk, ho⟩
  · rintro ⟨k', hk', hkk, ho⟩
    rw [← owned_congr hkk] at ho
    have hpresent : Present (owned k' cs) := by
      apply Classical.byContradiction
      intro hnone
      rw [among_eq_nil_iff.2 hnone] at ho
      cases ho
    have hg : (k', among k' (owned k' cs)) ∈ table cs :=
      List.mem_map.2 ⟨k', List.mem_filter.2 ⟨hk', decide_eq_true hpresent⟩, rfl⟩
    rw [distinct_table.get_of_mem hg hkk]
    exact ho

theorem exists_record_iff {i j : Fin cs.length} (hij : i < j) (h : (cs[i].identity == cs[j].identity) = true) :
    (∃ o ∈ (table cs).get cs[i].identity, o.first = cs[i].version ∧ o.second = cs[j].version) ↔
      cs[i].version.Overlaps cs[j].version := by
  constructor
  · rintro ⟨o, ho, hfirst, hsecond⟩
    obtain ⟨k, -, -, ho⟩ := mem_get_table_iff.1 ho
    rw [among_eq_pairs] at ho
    obtain ⟨p, hp, rfl⟩ := List.mem_map.1 ho
    rw [← hfirst, ← hsecond]
    exact of_decide_eq_true (List.mem_filter.1 hp).2
  · intro ho
    have hi : cs[i].identity ∈ cs.map Candidate.identity := List.mem_map_of_mem (cs.getElem_mem i.2)
    obtain ⟨k, hk, hkk⟩ := Grouped.exists_mem_eraseDups hi
    refine ⟨ofPair k (cs[i], cs[j]), mem_get_table_iff.2 ⟨k, hk, hkk, ?_⟩, rfl, rfl⟩
    rw [among_eq_pairs]
    have hp : (cs[i], cs[j]) ∈ pairs (owned cs[i].identity cs) :=
      mem_pairs_filter (mem_pairs_of_lt hij) BEq.rfl (BEq.symm h)
    exact List.mem_map_of_mem (List.mem_filter.2 ⟨hp, decide_eq_true ho⟩)

theorem owned_owned {k' : Identity} (h : (k' == k) = true) : owned k' (owned k cs) = owned k' cs := by
  rw [owned, owned, owned, List.filter_filter]
  apply List.filter_congr
  intro c _
  rw [BEq.congr_right h, Bool.and_self]

theorem table_owned (k : Identity) (cs : List Candidate) :
    table (owned k cs) = (table cs).filter fun g => g.1 == k := by
  have hkeys : ((owned k cs).map Candidate.identity).eraseDups =
      (cs.map Candidate.identity).eraseDups.filter (· == k) := by
    have hmap : (owned k cs).map Candidate.identity = (cs.map Candidate.identity).filter (· == k) := by
      rw [List.filter_map]
      rfl
    rw [hmap, Grouped.eraseDups_filter fun _ _ h => BEq.congr_left h]
  have hpresent : ((cs.map Candidate.identity).eraseDups.filter (· == k)).filter
        (fun k' => decide (Present (owned k' (owned k cs)))) =
      ((cs.map Candidate.identity).eraseDups.filter fun k' => decide (Present (owned k' cs))).filter (· == k) := by
    rw [List.filter_filter, List.filter_filter]
    apply List.filter_congr
    intro k' _
    cases hk : k' == k with
    | true => rw [owned_owned hk, Bool.and_comm]
    | false => rw [Bool.and_false, Bool.false_and]
  rw [table, table, hkeys, hpresent, List.filter_map]
  apply List.map_congr_left
  intro k' hk'
  rw [owned_owned (List.mem_filter.1 hk').2]

/-- The search for overlaps never fails for short numbers. It finds something for the identities that have an
overlapping pair, in the order of first occurrence: one record for each such pair. Candidates of other identities
have no influence. -/
theorem find_reports_overlaps (h : ∀ c ∈ cs, c.Short) :
    ∃ groups, find cs = .ok groups ∧
      groups.keys = ((cs.map Candidate.identity).eraseDups.filter fun k => decide (Present (owned k cs))) ∧
      (∀ k ∈ groups.keys, groups.get k = among k (owned k cs)) ∧
      ∀ k, find (owned k cs) = .ok (groups.filter fun g => g.1 == k) := by
  refine ⟨table cs, find_eq_table h, keys_table, fun k => get_table, ?_⟩
  intro k
  have hk : ∀ c ∈ owned k cs, c.Short := fun c hc => h c (List.mem_filter.1 hc).1
  rw [find_eq_table hk, table_owned]

/-- Two candidates of one package, `>=v1.x.x` and `v1.2.3`. -/
def sample : List Candidate :=
  [.ofLodash (.limit ⟨.atLeast, ⟨.number 1, .wildcard, .wildcard⟩⟩), .ofLodash (.exact (.ofNumbers 1 2 3))]

theorem find_reports_overlaps_sample :
    ∃ groups k, find sample = .ok groups ∧ groups.keys = [k] ∧
      groups.get k = [⟨k, sample[0].version, sample[1].version⟩] := by
  have hshort : ∀ c ∈ sample, c.Short := by decide +kernel
  have ho : sample[0].version.Overlaps sample[1].version :=
    (Version.overlaps_iff_admits (by decide +kernel) (by decide +kernel)).2 ⟨1, 2, 3, by decide, by decide⟩
  obtain ⟨k, hk⟩ : ∃ k, sample[0].identity = k := ⟨_, rfl⟩
  have howned : owned k sample = sample := by
    rw [← hk]
    decide
  have hfirst : (sample.map Candidate.identity).eraseDups = [k] := by
    rw [← hk]
    decide
  have hpresent : Present (owned k sample) := by
    rw [howned]
    exact ⟨⟨0, Nat.zero_lt_two⟩, ⟨1, Nat.one_lt_two⟩, Nat.zero_lt_one, ho⟩
  obtain ⟨groups, hfind, hkeys, hget, -⟩ := find_reports_overlaps hshort
  rw [hfirst, List.filter_cons, if_pos (decide_eq_true hpresent)] at hkeys
  refine ⟨groups, k, hfind, hkeys, ?_⟩
  rw [hget k (by rw [hkeys]; exact List.mem_cons_self), howned, among_eq_pairs]
  change (List.filter _ [(sample[0], sample[1])]).map _ = _
  rw [List.filter_cons, if_pos (decide_eq_true ho)]
  rfl

end Overlap

end RuntimeRanges
