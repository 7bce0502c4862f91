import RuntimeRanges.Proofs.Command

/-!
The command that resolves a target accounts for every entry of the manifest: its candidate is printed if resolution
keeps it and left out silently if not, and an entry that cannot be read gets a warning.
-/

namespace RuntimeRanges

theorem Scalar.IsText.eq_of_same {s t : Scalar} (hs : s.IsText) (h : s.same t = true) : s = t := by
  have hnumber : s.number? = none := by
    cases s with
    | text _ | unpaired _ => rfl
    | _ => cases hs
  rw [same.eq_def, hnumber] at h
  cases ht : t.number? with
  | some p =>
    rw [ht] at h
    cases h
  | none =>
    rw [ht] at h
    obtain rfl | ⟨m, n, rfl, -⟩ := sameOther_eq_true_iff.1 h
    · rfl
    · cases hs

def Identity.Textual (k : Identity) : Prop :=
  k.name.IsText ∧ k.version.IsText

theorem Identity.Textual.eq_of_beq {k k' : Identity} (h : k.Textual) (hsame : (k == k') = true) : k = k' := by
  obtain ⟨hname, hversion⟩ := Bool.and_eq_true_iff.1 hsame
  exact Identity.ext (h.1.eq_of_same hname) (h.2.eq_of_same hversion)

namespace Entry

variable {start : Option Scalar} {e : Entry} {es : List Entry}

theorem line_injective : Function.Injective line := by
  rintro ⟨name, version, range⟩ ⟨name', version', range'⟩ h
  cases h
  rfl

theorem textual_of_identity {k : Identity} (h : e.Textual) (hk : e.identity = .ok k) : k.Textual := by
  rw [h.named.identity_eq] at hk
  cases hk
  exact ⟨h.name, h.version⟩

theorem textual_of_mem_rejected (h : ∀ e ∈ es, e.Textual) {r : Identity × Version.Fault} (hr : r ∈ rejected start es) :
    r.1.Textual := by
  obtain ⟨e, he, hrejection⟩ := List.mem_filterMap.1 hr
  exact textual_of_identity (h e he) (rejection?_eq_some_iff.1 hrejection).1

theorem length_accepted_add_rejected (h : ∀ e ∈ es, e.Settled start) :
    (accepted start es).length + (rejected start es).length = es.length := by
  induction es with
  | nil => rfl
  | cons e es ih =>
    obtain ⟨hfirst, hrest⟩ := List.forall_mem_cons.1 h
    have hlater := ih hrest
    rw [accepted, rejected] at hlater ⊢
    rw [List.filterMap_cons, List.filterMap_cons]
    obtain ⟨k, -, ⟨v, -, hcandidate, hrejection⟩ | ⟨f, -, hcandidate, hrejection⟩⟩ := hfirst
    · rw [hcandidate, hrejection]
      dsimp only [List.length_cons]
      omega
    · rw [hcandidate, hrejection]
      dsimp only [List.length_cons]
      omega

theorem read_text_of_mem_accepted {c : Candidate} (h : c ∈ accepted start es) :
    Version.read c.version.text = .ok c.version := by
  obtain ⟨e, -, hc⟩ := List.mem_filterMap.1 h
  have hread : ∃ text, Version.read text = .ok c.version := by
    have hrange := (candidate?_eq_some_iff.1 hc).2
    rw [Collection.readRange.eq_def] at hrange
    split at hrange
    · exact ⟨_, hrange⟩
    · rw [Version.readDirectoryName] at hrange
      split at hrange
      · cases hrange
      · exact ⟨_, hrange⟩
  obtain ⟨text, htext⟩ := hread
  obtain ⟨hwritable, hreadable, -⟩ := Version.of_read_eq_ok htext
  exact (Version.read_text_eq_ok_iff hwritable).2 hreadable

end Entry

namespace Command.Resolve

variable {env : Environment} {o : Options} {settings : Settings} {start : Option Scalar} {es : List Entry} {p : Parts}

def Keeps (target : Version) (c : Candidate) : Prop :=
  resolve target [c] = .ok [c]

instance (target : Version) (c : Candidate) : Decidable (Keeps target c) :=
  inferInstanceAs (Decidable (_ = _))

def LeavesOut (target : Version) (c : Candidate) : Prop :=
  resolve target [c] = .ok []

instance (target : Version) (c : Candidate) : Decidable (LeavesOut target c) :=
  inferInstanceAs (Decidable (_ = _))

/-- The candidates of entries that resolution keeps, each for its entry. -/
def applicable (target : Version) (start : Option Scalar) (es : List Entry) : List Candidate :=
  (Entry.accepted start es).filter fun c => decide (Keeps target c)

def leftOut (target : Version) (start : Option Scalar) (es : List Entry) : List Candidate :=
  (Entry.accepted start es).filter fun c => decide (LeavesOut target c)

/-- The entries that cannot be read, each with its fault, by identity in the order of its first such entry. -/
def skipped (start : Option Scalar) (es : List Entry) : List (Identity × Version.Fault) :=
  let rejected := Entry.rejected start es
  (rejected.map Prod.fst).eraseDups.flatMap fun k => rejected.filter (·.1 == k)

theorem resolve_singleton {c : Candidate} (hp : p.Short) (hc : c.Short) :
    resolve (.exact p) [c] = .ok (if c.version.simplify.Matches p then [c] else []) := by
  have hkept : resolve (.exact p) [c] = .ok ([c].filter fun c => decide (c.version.simplify.Matches p)) :=
    Candidate.outcome_selectTraced_exact hp (List.forall_mem_singleton.2 hc)
  rw [hkept]
  by_cases h : c.version.simplify.Matches p <;> simp [h]

theorem keeps_iff {c : Candidate} (hp : p.Short) (hc : c.Short) :
    Keeps (.exact p) c ↔ c.version.simplify.Matches p := by
  rw [Keeps, resolve_singleton hp hc, Except.ok.injEq]
  split <;> simp_all

theorem leavesOut_iff {c : Candidate} (hp : p.Short) (hc : c.Short) :
    LeavesOut (.exact p) c ↔ ¬ c.version.simplify.Matches p := by
  rw [LeavesOut, resolve_singleton hp hc, Except.ok.injEq]
  split <;> simp_all

theorem warnings_eq (groups : Grouped Identity Version.Fault) :
    warnings groups = groups.entries.map fun r => warning r.1 r.2 := by
  rw [warnings, Grouped.entries, List.map_flatMap]
  apply List.flatMap_congr
  intro g _
  rw [List.map_map]
  rfl

/-- The groups of faults hold what is skipped: texts that count as the same identity are this identity. -/
theorem entries_rejected (h : ∀ e ∈ es, e.Textual) :
    (Grouped.addAll Prod.fst Prod.snd [] (Entry.rejected start es)).entries = skipped start es := by
  rw [Grouped.addAll_nil_eq, Grouped.entries, List.flatMap_map]
  apply List.flatMap_congr
  intro k _
  dsimp only
  rw [List.map_map]
  refine (List.map_congr_left fun r hr => ?_).trans (List.map_id _)
  obtain ⟨hmem, hsame⟩ := List.mem_filter.1 hr
  exact Prod.ext ((Entry.textual_of_mem_rejected h hmem).eq_of_beq hsame).symm rfl

theorem perm_skipped (h : ∀ e ∈ es, e.Textual) : (skipped start es).Perm (Entry.rejected start es) := by
  have hperm : (Grouped.addAll Prod.fst Prod.snd [] (Entry.rejected start es)).entries.Perm
      ((Entry.rejected start es).map fun r => (r.1, r.2)) :=
    Grouped.perm_entries_addAll_nil (P := Identity.Textual) (fun k k' hk _ hsame => hk.eq_of_beq hsame)
      fun r hr => Entry.textual_of_mem_rejected h hr
  rwa [entries_rejected h, List.map_id'] at hperm

theorem onStderr_warning (k : Identity) (f : Version.Fault) :
    onStderr (warning k f) =
      "WARNING: skipping " ++ onStderr k.name ++ "@" ++ onStderr k.version ++ ": " ++ onStderr f.wording ++ "\n" := by
  rw [warning, onStderr_joined, Identity.label]
  simp [String.join, onStderr_joined, onStderr_text, String.append_assoc]

theorem stderr_rejected (h : ∀ e ∈ es, e.Textual) :
    String.join ((warnings (Grouped.addAll Prod.fst Prod.snd [] (Entry.rejected start es))).map onStderr) =
      String.join ((skipped start es).map fun r =>
        "WARNING: skipping " ++ onStderr r.1.name ++ "@" ++ onStderr r.1.version ++ ": " ++ onStderr r.2.wording ++
          "\n") := by
  rw [warnings_eq, entries_rejected h, List.map_map]
  exact congrArg String.join (List.map_congr_left fun r _ => onStderr_warning r.1 r.2)

/-- What the command leaves behind accounts for all entries. -/
structure Accounts (target : Version) (start : Option Scalar) (es : List Entry) (output : Output) : Prop where
  exitCode : output.exitCode = 0
  settled : ∀ e ∈ es, e.Settled start
  resolved : resolve target (Entry.accepted start es) = .ok (applicable target start es)
  stdout :
    output.stdout =
      (Document.list ((applicable target start es).map fun c =>
        .object
          [ ("name", .scalar c.identity.name), ("version", .scalar c.identity.version),
            ("range", .text c.version.text) ])).toJson ++ "\n"
  reread : ∀ c ∈ applicable target start es, Version.read c.version.text = .ok c.version
  stderr :
    output.stderr =
      String.join ((skipped start es).map fun r =>
        "WARNING: skipping " ++ onStderr r.1.name ++ "@" ++ onStderr r.1.version ++ ": " ++ onStderr r.2.wording ++
          "\n")
  once : (skipped start es).Perm (Entry.rejected start es)
  total :
    (applicable target start es).length + (leftOut target start es).length + (skipped start es).length = es.length

theorem accounts (hp : p.Short) (htext : ∀ e ∈ es, e.Textual) (hs : ∀ e ∈ es, e.Short start) :
    Accounts (.exact p) start es
      ⟨0, render (applicable (.exact p) start es),
        String.join ((warnings (Grouped.addAll Prod.fst Prod.snd [] (Entry.rejected start es))).map onStderr)⟩ := by
  have hn : ∀ e ∈ es, e.Named := fun e he => (htext e he).named
  have hc : ∀ c ∈ Entry.accepted start es, c.Short := fun c hc => Entry.short_of_mem_accepted hn hs hc
  have hsettled : ∀ e ∈ es, e.Settled start := fun e he => (hn e he).settled (hs e he)
  have honce : (skipped start es).Perm (Entry.rejected start es) := perm_skipped htext
  -- A candidate is either kept or left out when it is resolved alone, so that the two filters share out all of them.
  have hleft : leftOut (.exact p) start es =
      (Entry.accepted start es).filter fun c => !decide (Keeps (.exact p) c) := by
    apply List.filter_congr
    intro c hmem
    rw [← decide_not, decide_eq_decide, leavesOut_iff hp (hc c hmem), keeps_iff hp (hc c hmem)]
  refine ⟨rfl, hsettled, ?_, rfl, ?_, stderr_rejected htext, honce, ?_⟩
  · have hkept : applicable (.exact p) start es =
        (Entry.accepted start es).filter fun c => decide (c.version.simplify.Matches p) := by
      apply List.filter_congr
      intro c hmem
      rw [decide_eq_decide, keeps_iff hp (hc c hmem)]
    rw [hkept]
    exact Candidate.outcome_selectTraced_exact hp hc
  · intro c hmem
    exact Entry.read_text_of_mem_accepted (List.mem_filter.1 hmem).1
  · have hcount := Entry.length_accepted_add_rejected hsettled
    rw [honce.length_eq, ← hcount, hleft, applicable, ← List.length_eq_length_filter_add]

theorem load_eq_ok_of_readings {target : Version}
    (h : (load env o).toOption.map (fun l => (l.1, l.2.1, (Manifest.readings none l.2.2).1.map Manifest.Reading.entry)) =
      some (target, settings, es)) : load env o = .ok (target, settings, es.map Entry.line) := by
  rcases load_cases env o with ⟨p, settings', es', hload, htext⟩ | ⟨e, hload, -⟩
  · have hentries : (es'.map fun e => ({ entry := e } : Manifest.Reading)).map Manifest.Reading.entry = es' := by
      rw [List.map_map]
      exact List.map_id es'
    rw [hload] at h ⊢
    change some (Version.exact p, settings', (Manifest.readings none _).1.map _) = _ at h
    rw [Manifest.readings_lines htext, hentries] at h
    cases h
    rfl
  · rw [hload] at h
    cases h

/-- Three definitions of one package, of which only the second covers `0.40.3`. The range of the third makes no
sense. -/
def covering : List Entry :=
  [⟨"lodash", "v4.x.x", "flow_v0.2.x"⟩, ⟨"lodash", "v4.x.x", "flow_v0.40.x"⟩, ⟨"lodash", "v4.x.x", "flow_<=v0.0.0"⟩]

def coveringManifest : Environment :=
  manifestTree "definitions:\n- name: lodash\n  version: v4.x.x\n  ranges: [flow_v0.2.x, flow_v0.40.x, flow_<=v0.0.0]\n"

end Command.Resolve

end RuntimeRanges
