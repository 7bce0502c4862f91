import Mathlib.Data.Sym.Sym2
import RuntimeRanges.Proofs.Validation

/-!
What a validation finds for an identity depends on the entries of this identity alone, and on their order only in the
order of what is found. Overlaps are compared as unordered pairs: which of two candidates comes first is left out.
-/

namespace RuntimeRanges

variable {start : Option Scalar} {es es' : List Entry} {cs cs' : List Candidate} {k : Identity}

/-- The two elements of a pair, without their order. -/
def unordered {α : Type} (p : α × α) : Sym2 α :=
  s(p.1, p.2)

theorem unordered_swap {α : Type} (a b : α) : unordered (a, b) = unordered (b, a) :=
  Sym2.eq_swap

theorem pairs_perm {α : Type} {l l' : List α} (h : l.Perm l') :
    ((pairs l).map unordered).Perm ((pairs l').map unordered) := by
  induction h with
  | nil => exact .refl _
  | cons a h ih =>
    rw [pairs, pairs, List.map_append, List.map_append]
    exact ((h.map _).map _).append ih
  | swap a b l =>
    -- The pair of the two that are swapped is the only one whose own order changes.
    simp only [pairs, List.map_cons, List.map_append, List.cons_append, unordered_swap b a]
    exact (List.perm_append_comm_assoc _ _ _).cons _
  | trans _ _ ih ih' => exact ih.trans ih'

theorem Version.overlaps_comm (v w : Version) : v.Overlaps w ↔ w.Overlaps v := by
  constructor
  · rintro ⟨a, b, c, hv, hw⟩
    exact ⟨a, b, c, hw, hv⟩
  · rintro ⟨a, b, c, hw, hv⟩
    exact ⟨a, b, c, hv, hw⟩

namespace Overlap

theorem conflict_comm (c d : Candidate) :
    (c.identity == d.identity && decide (c.version.Overlaps d.version)) =
      (d.identity == c.identity && decide (d.version.Overlaps c.version)) := by
  rw [BEq.comm, decide_eq_decide.2 (Version.overlaps_comm ..)]

/-- Whether two candidates, in whatever order, are in conflict. -/
noncomputable def inConflict : Sym2 Candidate → Bool :=
  Sym2.lift ⟨fun c d => c.identity == d.identity && decide (c.version.Overlaps d.version), conflict_comm⟩

theorem map_conflicts (cs : List Candidate) :
    (conflicts cs).map unordered = ((pairs cs).map unordered).filter inConflict := by
  rw [List.filter_map]
  rfl

theorem conflicts_perm (h : cs.Perm cs') : ((conflicts cs).map unordered).Perm ((conflicts cs').map unordered) := by
  rw [map_conflicts, map_conflicts]
  exact (pairs_perm h).filter _

def versions (o : Overlap) : Sym2 Version :=
  s(o.first, o.second)

theorem exists_get_table_eq (k : Identity) (cs : List Candidate) :
    ∃ k', (table cs).get k = (conflicts (owned k cs)).map (ofPair k') := by
  -- The key on record is the identity of a candidate, which can be the same as `k` without being equal to it.
  by_cases h : ∃ k' ∈ (table cs).keys, (k' == k) = true
  · obtain ⟨k', hk', hkk⟩ := h
    refine ⟨k', ?_⟩
    rw [← Grouped.get_congr hkk, get_table hk', among_owned, conflicts_owned]
    simp only [BEq.congr_right hkk]
  · have hget : (table cs).get k = [] := by
      apply List.eq_nil_iff_forall_not_mem.2
      intro o ho
      obtain ⟨g, hg, hgk, -⟩ := Grouped.mem_of_mem_get ho
      exact h ⟨g.1, List.mem_map_of_mem hg, hgk⟩
    have hnone : conflicts (owned k cs) = [] := by
      apply List.eq_nil_iff_forall_not_mem.2
      intro p hp
      rw [conflicts_owned] at hp
      obtain ⟨hp, hpk⟩ := List.mem_filter.1 hp
      obtain ⟨k', hk', hpk'⟩ := exists_key_of_conflict hp
      exact h ⟨k', hk', BEq.trans (BEq.symm hpk') hpk⟩
    refine ⟨k, ?_⟩
    rw [hget, hnone, List.map_nil]

theorem versions_table (k : Identity) (cs : List Candidate) :
    ((table cs).get k).map versions = ((conflicts (owned k cs)).map unordered).map (Sym2.map Candidate.version) := by
  obtain ⟨k', hk'⟩ := exists_get_table_eq k cs
  rw [hk', List.map_map, List.map_map]
  rfl

theorem versions_table_perm (h : cs.Perm cs') (k : Identity) :
    (((table cs).get k).map versions).Perm (((table cs').get k).map versions) := by
  rw [versions_table, versions_table]
  exact (conflicts_perm (h.filter _)).map _

theorem get_table_owned (k : Identity) (cs : List Candidate) : (table (owned k cs)).get k = (table cs).get k := by
  rw [table_owned, Grouped.get_filter_self]

end Overlap

namespace Problem

def fault? : Problem → Option Version.Fault
  | unreadable f => some f
  | overlap _ => none

def overlap? : Problem → Option Overlap
  | unreadable _ => none
  | overlap o => some o

end Problem

namespace Validation

def faults (v : Validation) (k : Identity) : List Version.Fault :=
  (v.problems.get k).filterMap Problem.fault?

def overlaps (v : Validation) (k : Identity) : List Overlap :=
  (v.problems.get k).filterMap Problem.overlap?

variable {rs rs' : List (Identity × Version.Fault)}

theorem faults_found (k : Identity) : (found cs rs).faults k = (rs.filter (·.1 == k)).map Prod.snd := by
  have hnone : ((Overlap.table cs).get k).filterMap (Problem.fault? ∘ Problem.overlap) = [] := by
    rw [List.filterMap_eq_nil_iff]
    exact fun _ _ => rfl
  rw [faults, get_found, List.filterMap_append, List.filterMap_map, List.filterMap_map, hnone, List.append_nil]
  exact congrFun (List.filterMap_eq_map (f := Prod.snd)) _

theorem overlaps_found (k : Identity) : (found cs rs).overlaps k = (Overlap.table cs).get k := by
  have hnone : (rs.filter (·.1 == k)).filterMap (Problem.overlap? ∘ fun r => .unreadable r.2) = [] := by
    rw [List.filterMap_eq_nil_iff]
    exact fun _ _ => rfl
  rw [overlaps, get_found, List.filterMap_append, List.filterMap_map, List.filterMap_map, hnone, List.nil_append]
  exact List.filterMap_some

/-- Two validations find the same, up to the order of what they find. -/
structure SameUpToOrder (v w : Validation) : Prop where
  isOk : v.isOk = w.isOk
  problemCount : v.problemCount = w.problemCount
  candidates : v.candidates.Perm w.candidates
  faults : ∀ k, (v.faults k).Perm (w.faults k)
  overlaps : ∀ k, ((v.overlaps k).map Overlap.versions).Perm ((w.overlaps k).map Overlap.versions)

theorem found_perm (hc : cs.Perm cs') (hr : rs.Perm rs') : (found cs rs).SameUpToOrder (found cs' rs') := by
  have hconflicts : (Overlap.conflicts cs).length = (Overlap.conflicts cs').length := by
    simpa only [List.length_map] using (Overlap.conflicts_perm hc).length_eq
  have hcount : (found cs rs).problemCount = (found cs' rs').problemCount := by
    rw [problemCount_found, problemCount_found, hr.length_eq, hconflicts]
  refine ⟨?_, hcount, hc, ?_, ?_⟩
  · rw [isOk_eq proper_found, isOk_eq proper_found, hcount]
  · intro k
    rw [faults_found, faults_found]
    exact (hr.filter _).map _
  · intro k
    rw [overlaps_found, overlaps_found]
    exact Overlap.versions_table_perm hc k

theorem get_found_owned (k : Identity) :
    (found (Overlap.owned k cs) (rs.filter (·.1 == k))).problems.get k = (found cs rs).problems.get k := by
  rw [get_found, get_found, Overlap.get_table_owned, List.filter_filter]
  simp only [Bool.and_self]

end Validation

namespace Entry

def belongsTo (k : Identity) (e : Entry) : Bool :=
  match e.identity with
  | .ok i => i == k
  | .error _ => false

theorem filterMap_filter_eq {α β : Type} {f : α → Option β} {p : α → Bool} {q : β → Bool}
    (h : ∀ a b, f a = some b → q b = p a) (l : List α) : (l.filter p).filterMap f = (l.filterMap f).filter q := by
  induction l with
  | nil => rfl
  | cons a l ih =>
    rw [List.filter_cons, List.filterMap_cons]
    cases hf : f a with
    | none =>
      split
      · rw [List.filterMap_cons_none hf, ih]
      · exact ih
    | some b =>
      rw [List.filter_cons, h a b hf]
      split
      · rw [List.filterMap_cons_some hf, ih]
      · exact ih

theorem accepted_belongsTo (k : Identity) (es : List Entry) :
    accepted start (es.filter (belongsTo k)) = Overlap.owned k (accepted start es) := by
  apply filterMap_filter_eq
  intro e c hc
  rw [belongsTo, (candidate?_eq_some_iff.1 hc).1]

theorem rejected_belongsTo (k : Identity) (es : List Entry) :
    rejected start (es.filter (belongsTo k)) = (rejected start es).filter (·.1 == k) := by
  apply filterMap_filter_eq
  intro e r hr
  rw [belongsTo, (rejection?_eq_some_iff.1 hr).1]

end Entry

namespace Validation

/-- Validation does not depend on the order of the entries, and what it finds for an identity is what it finds where
only the entries of this identity are given. -/
theorem ofEntries_independent (hn : ∀ e ∈ es, e.Named) (hs : ∀ e ∈ es, e.Short start) (hp : es.Perm es') :
    ∃ v w, ofEntries start es = .ok v ∧ ofEntries start es' = .ok w ∧ v.SameUpToOrder w ∧
      ∀ k, ∃ u, ofEntries start (es.filter (Entry.belongsTo k)) = .ok u ∧ u.problems.get k = v.problems.get k := by
  have hn' : ∀ e ∈ es', e.Named := fun e he => hn e (hp.mem_iff.2 he)
  have hs' : ∀ e ∈ es', e.Short start := fun e he => hs e (hp.mem_iff.2 he)
  refine ⟨_, _, ofEntries_eq_found hn hs, ofEntries_eq_found hn' hs', found_perm (hp.filterMap _) (hp.filterMap _), ?_⟩
  intro k
  refine ⟨_, ofEntries_eq_found (fun e he => hn e (List.mem_filter.1 he).1) (fun e he => hs e (List.mem_filter.1 he).1), ?_⟩
  rw [Entry.accepted_belongsTo, Entry.rejected_belongsTo, get_found_owned]

theorem ofEntries_independent_reversed :
    ∃ v w, ofEntries (some "flow_") mixed = .ok v ∧ ofEntries (some "flow_") mixed.reverse = .ok w ∧ v.SameUpToOrder w ∧
      ∀ k, ∃ u, ofEntries (some "flow_") (mixed.filter (Entry.belongsTo k)) = .ok u ∧
        u.problems.get k = v.problems.get k :=
  ofEntries_independent named_of_mem_mixed short_of_mem_mixed (List.reverse_perm mixed).symm

end Validation

end RuntimeRanges
