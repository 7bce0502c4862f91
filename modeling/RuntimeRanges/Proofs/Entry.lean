import RuntimeRanges.Validation
import RuntimeRanges.Proofs.Grouped
import RuntimeRanges.Proofs.Version.Numbers

/-!
Entries of a manifest: each becomes a candidate or is rejected with a fault, and reading a list of entries keeps both
kinds in their order.
-/

namespace RuntimeRanges

open Log (Traced)

namespace Entry

variable {start : Option Scalar} {e : Entry} {k : Identity} {v : Version} {f : Version.Fault}

/-- The name and the version of the package are not empty. -/
structure Named (e : Entry) : Prop where
  name : e.name.isEmpty = false
  version : e.version.isEmpty = false

instance (e : Entry) : Decidable e.Named :=
  decidable_of_iff (e.name.isEmpty = false ∧ e.version.isEmpty = false) ⟨fun ⟨hn, hv⟩ => ⟨hn, hv⟩, fun ⟨hn, hv⟩ => ⟨hn, hv⟩⟩

/-- The range name of an entry: what follows the beginning of directory names, where there is one. -/
def rangeName? (start : Option Scalar) (e : Entry) : Option Scalar :=
  match start with
  | none => some e.range
  | some start => (Text.dropStart? start.codes e.range.codes).map .ofCodes

structure Short (start : Option Scalar) (e : Entry) : Prop where
  name : e.name.Short
  version : e.version.Short
  range : ∀ text ∈ e.rangeName? start, text.ShortName

instance (start : Option Scalar) (e : Entry) : Decidable (e.Short start) :=
  decidable_of_iff (e.name.Short ∧ e.version.Short ∧ ∀ text ∈ e.rangeName? start, text.ShortName)
    ⟨fun ⟨hn, hv, hr⟩ => ⟨hn, hv, hr⟩, fun ⟨hn, hv, hr⟩ => ⟨hn, hv, hr⟩⟩

/-- The candidate that an entry with a readable range is. -/
def candidate? (start : Option Scalar) (e : Entry) : Option Candidate :=
  match e.identity, Collection.readRange start e.range with
  | .ok k, .ok v => some ⟨k, v⟩
  | _, _ => none

/-- The fault of an entry, with the identity that it counts for. -/
def rejection? (start : Option Scalar) (e : Entry) : Option (Identity × Version.Fault) :=
  match e.identity, Collection.readRange start e.range with
  | .ok k, .error (.fault f) => some (k, f)
  | _, _ => none

def accepted (start : Option Scalar) (es : List Entry) : List Candidate :=
  es.filterMap (·.candidate? start)

def rejected (start : Option Scalar) (es : List Entry) : List (Identity × Version.Fault) :=
  es.filterMap (·.rejection? start)

theorem Named.identity_eq (h : e.Named) : e.identity = .ok ⟨e.name, e.version, h.name, h.version⟩ := by
  rw [identity, Identity.make, dif_pos h.name, dif_pos h.version]

theorem candidate?_eq_some_iff {c : Candidate} :
    e.candidate? start = some c ↔ e.identity = .ok c.identity ∧ Collection.readRange start e.range = .ok c.version := by
  obtain ⟨k, v⟩ := c
  rw [candidate?]
  split
  · next k' v' hk hv => simp [hk, hv]
  · next hnone => simpa using fun hk hv => hnone k v hk hv

theorem rejection?_eq_some_iff :
    e.rejection? start = some (k, f) ↔
      e.identity = .ok k ∧ Collection.readRange start e.range = .error (.fault f) := by
  rw [rejection?]
  split
  · next k' f' hk hf => simp [hk, hf]
  · next hnone => simpa using fun hk hf => hnone k f hk hf

theorem readRange_cases (h : ∀ text ∈ e.rangeName? start, text.ShortName) :
    (∃ v, Collection.readRange start e.range = .ok v ∧ v.Short) ∨
      ∃ f, Collection.readRange start e.range = .error (.fault f) := by
  cases start with
  | none => exact Version.read_cases (h e.range rfl)
  | some start =>
    rw [Collection.readRange, Version.readDirectoryName]
    cases hdrop : Text.dropStart? start.codes e.range.codes with
    | none => exact .inr ⟨_, rfl⟩
    | some rest =>
      apply Version.read_cases
      apply h
      rw [rangeName?, hdrop]
      rfl

theorem candidate_or_rejection (hn : e.Named) (hs : e.Short start) :
    ∃ k, e.identity = .ok k ∧ k.name = e.name ∧ k.version = e.version ∧
      ((∃ v, Collection.readRange start e.range = .ok v ∧ v.Short ∧
          e.candidate? start = some ⟨k, v⟩ ∧ e.rejection? start = none) ∨
        ∃ f, Collection.readRange start e.range = .error (.fault f) ∧
          e.candidate? start = none ∧ e.rejection? start = some (k, f)) := by
  refine ⟨_, hn.identity_eq, rfl, rfl, ?_⟩
  rcases readRange_cases hs.range with ⟨v, hv, hshort⟩ | ⟨f, hf⟩
  · refine .inl ⟨v, hv, hshort, candidate?_eq_some_iff.2 ⟨hn.identity_eq, hv⟩, ?_⟩
    rw [rejection?, hn.identity_eq, hv]
  · refine .inr ⟨f, hf, ?_, rejection?_eq_some_iff.2 ⟨hn.identity_eq, hf⟩⟩
    rw [candidate?, hn.identity_eq, hf]

/-- An entry is one candidate if its range can be read, and otherwise it is rejected with one fault. -/
def Settled (start : Option Scalar) (e : Entry) : Prop :=
  ∃ k, e.identity = .ok k ∧
    ((∃ v, Collection.readRange start e.range = .ok v ∧
        e.candidate? start = some ⟨k, v⟩ ∧ e.rejection? start = none) ∨
      ∃ f, Collection.readRange start e.range = .error (.fault f) ∧
        e.candidate? start = none ∧ e.rejection? start = some (k, f))

theorem Named.settled (hn : e.Named) (hs : e.Short start) : e.Settled start := by
  obtain ⟨k, hk, -, -, ⟨v, hv, -, h⟩ | h⟩ := candidate_or_rejection hn hs
  · exact ⟨k, hk, .inl ⟨v, hv, h⟩⟩
  · exact ⟨k, hk, .inr h⟩

theorem Short.candidate {c : Candidate} (hn : e.Named) (hs : e.Short start) (h : e.candidate? start = some c) :
    c.Short := by
  obtain ⟨k, -, hname, hversion, ⟨v, -, hv, hc, -⟩ | ⟨f, -, hc, -⟩⟩ := candidate_or_rejection hn hs
  · rw [hc, Option.some.injEq] at h
    subst h
    exact ⟨hname ▸ hs.name, hversion ▸ hs.version, hv⟩
  · rw [hc] at h
    cases h

theorem short_of_mem_accepted {es : List Entry} (hn : ∀ e ∈ es, e.Named) (hs : ∀ e ∈ es, e.Short start) {c : Candidate}
    (h : c ∈ accepted start es) : c.Short := by
  obtain ⟨e, he, hc⟩ := List.mem_filterMap.1 h
  exact (hs e he).candidate (hn e he) hc

end Entry

namespace Collection

variable {start : Option Scalar} {es : List Entry}

theorem outcome_addTraced_accept {e : Entry} {k : Identity} {v : Version} (hk : e.identity = .ok k)
    (hv : readRange start e.range = .ok v) (candidates : List Candidate) (faults : Grouped Identity Version.Fault) :
    (addTraced start candidates faults (e :: es)).outcome =
      (addTraced start (candidates ++ [⟨k, v⟩]) faults es).outcome := by
  rw [addTraced, Traced.outcome_bind, Traced.outcome_lift, hk, hv]
  rfl

theorem outcome_addTraced_reject {e : Entry} {k : Identity} {f : Version.Fault} (hk : e.identity = .ok k)
    (hlabel : k.write = .ok k.label) (hf : readRange start e.range = .error (.fault f)) (candidates : List Candidate)
    (faults : Grouped Identity Version.Fault) :
    (addTraced start candidates faults (e :: es)).outcome =
      (addTraced start candidates (faults.add k f) es).outcome := by
  rw [addTraced, Traced.outcome_bind, Traced.outcome_lift, hk, hf]
  change (Traced.lift (k.write.mapError Failure.numeral) >>= _).outcome = _
  rw [Traced.outcome_bind, Traced.outcome_lift, hlabel]
  rfl

/-- Reading goes through all entries: the candidates are kept in order, and the faults are grouped by identity. -/
theorem outcome_addTraced (hn : ∀ e ∈ es, e.Named) (hs : ∀ e ∈ es, e.Short start) (candidates : List Candidate)
    (faults : Grouped Identity Version.Fault) :
    (addTraced start candidates faults es).outcome =
      .ok ⟨candidates ++ Entry.accepted start es,
        faults.addAll Prod.fst Prod.snd (Entry.rejected start es)⟩ := by
  -- Both accumulators are carried along: an entry adds to one of them and leaves the other as it is.
  induction es generalizing candidates faults with
  | nil => simp [addTraced, Entry.accepted, Entry.rejected, Grouped.addAll]
  | cons e es ih =>
    have hrest := ih (fun e' he' => hn e' (List.mem_cons_of_mem _ he')) fun e' he' => hs e' (List.mem_cons_of_mem _ he')
    have hshort := hs e List.mem_cons_self
    rw [Entry.accepted, Entry.rejected, List.filterMap_cons, List.filterMap_cons]
    obtain ⟨k, hk, hname, hversion, ⟨v, hv, -, hc, hr⟩ | ⟨f, hf, hc, hr⟩⟩ :=
      Entry.candidate_or_rejection (hn e List.mem_cons_self) hshort
    · rw [outcome_addTraced_accept hk hv, hrest, hc, hr, List.append_assoc]
      rfl
    · have hlabel : k.write = .ok k.label := Identity.write_of_short (hname ▸ hshort.name) (hversion ▸ hshort.version)
      rw [outcome_addTraced_reject hk hlabel hf, hrest, hc, hr]
      rfl

theorem ofEntries_eq (hn : ∀ e ∈ es, e.Named) (hs : ∀ e ∈ es, e.Short start) :
    ofEntries start es =
      .ok ⟨Entry.accepted start es, Grouped.addAll Prod.fst Prod.snd [] (Entry.rejected start es)⟩ :=
  outcome_addTraced hn hs [] []

end Collection

end RuntimeRanges
