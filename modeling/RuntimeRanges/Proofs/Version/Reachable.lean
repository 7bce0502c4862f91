import RuntimeRanges.Proofs.Outcome
import RuntimeRanges.Proofs.Release.Plain
import RuntimeRanges.Proofs.Version.Editing

/-!
What edits reach. If the numbers that are put in can be written, those of every version reached can, and the records of
versions are all that the edits of records reach.
-/

namespace RuntimeRanges

/-- A value that is a number has at most 4300 digits. -/
def Document.WritableNumber : Document → Prop
  | .int n => Numeral.Writable n.natAbs
  | _ => True

instance (d : Document) : Decidable d.WritableNumber :=
  match d with
  | .scalar (.int n) => inferInstanceAs (Decidable (Numeral.Writable n.natAbs))
  | .scalar .null | .scalar (.bool _) | .scalar (.float _) | .scalar (.text _) | .scalar (.unpaired _)
  | .scalar (.date _) | .scalar (.moment _) | .list _ | .object _ => inferInstanceAs (Decidable True)

namespace Version

def Description.Writable : Description → Prop
  | text _ | target _ => True
  | values _ major minor patch none => major.WritableNumber ∧ minor.WritableNumber ∧ patch.WritableNumber
  | values _ major minor patch (some bound) =>
    (major.WritableNumber ∧ minor.WritableNumber ∧ patch.WritableNumber) ∧ bound.Writable

instance Description.decidableWritable : (d : Description) → Decidable d.Writable
  | text _ | target _ => inferInstanceAs (Decidable True)
  | values _ major minor patch none =>
    inferInstanceAs (Decidable (major.WritableNumber ∧ minor.WritableNumber ∧ patch.WritableNumber))
  | values _ major minor patch (some bound) =>
    have := decidableWritable bound
    inferInstanceAs
      (Decidable ((major.WritableNumber ∧ minor.WritableNumber ∧ patch.WritableNumber) ∧ bound.Writable))

def Edit.Writable : Edit → Prop
  | .set d | .replaceBound (some d) => d.Writable
  | .replacePart _ value => value.WritableNumber
  | _ => True

instance (e : Edit) : Decidable e.Writable :=
  match e with
  | .set d | .replaceBound (some d) => inferInstanceAs (Decidable d.Writable)
  | .replacePart _ value => inferInstanceAs (Decidable value.WritableNumber)
  | .dropBound | .takeBound | .replaceOperator _ | .replaceBound none | .simplify | .reread =>
    inferInstanceAs (Decidable True)

variable {v w : Version} {d : Description} {e : Edit} {edits : List Edit}

/-! ### Building -/

theorem writable_of_ofDocument {value : Document} {comp : Component} (hvalue : value.WritableNumber)
    (h : Component.ofDocument value = .ok comp) : comp.Writable := by
  obtain ⟨-, rfl⟩ | ⟨n, rfl, rfl⟩ := Component.ofDocument_eq_ok_iff.1 h
  · trivial
  · exact hvalue

theorem writable_of_assemble {side? : Option Side} {p : Parts} {bound : Option Version} (hp : p.Writable)
    (hbound : ∀ b ∈ bound, b.Writable) (h : assemble side? p bound = .ok v) : v.Writable := by
  obtain ⟨-, rfl⟩ | ⟨side, u, -, rfl, rfl⟩ := assemble_eq_ok_iff.1 h
  · cases side? <;> exact hp
  · exact ⟨hp, hbound _ rfl⟩

theorem writable_of_ofDocuments {operator major minor patch : Document} {bound : Option Version}
    (hparts : major.WritableNumber ∧ minor.WritableNumber ∧ patch.WritableNumber) (hbound : ∀ b ∈ bound, b.Writable)
    (h : ofDocuments operator major minor patch bound = .ok v) : v.Writable := by
  obtain ⟨major', hmajor, h⟩ := bind_eq_ok_iff.1 h
  obtain ⟨minor', hminor, h⟩ := bind_eq_ok_iff.1 h
  obtain ⟨patch', hpatch, h⟩ := bind_eq_ok_iff.1 h
  obtain ⟨side?, -, h⟩ := bind_eq_ok_iff.1 h
  have hwritable : Parts.Writable ⟨major', minor', patch'⟩ :=
    ⟨writable_of_ofDocument hparts.1 (mapError_eq_ok_iff.1 hmajor),
      writable_of_ofDocument hparts.2.1 (mapError_eq_ok_iff.1 hminor),
      writable_of_ofDocument hparts.2.2 (mapError_eq_ok_iff.1 hpatch)⟩
  exact writable_of_assemble hwritable hbound h

section

variable {text : Scalar} {slot : Slot} {upper : Bool} {piece : List Char} {comp : Component}

theorem writable_of_readNumber (h : readNumber text slot upper piece = .ok comp) : comp.Writable := by
  rw [readNumber] at h
  split at h
  · cases hn : Numeral.read piece with
    | error e =>
      rw [hn] at h
      cases h
    | ok n =>
      rw [hn] at h
      cases h
      exact Numeral.writable_of_read hn
  · cases h

theorem writable_of_readComponent (h : readComponent text slot upper piece = .ok comp) : comp.Writable := by
  rw [readComponent] at h
  split at h
  · cases h
    trivial
  · exact writable_of_readNumber h

theorem writable_of_readTarget {s : String} (h : readTarget s = .ok v) : v.Writable := by
  rw [readTarget] at h
  split at h
  · cases h
  · obtain ⟨p, hp, rfl⟩ := map_eq_ok_iff.1 h
    obtain ⟨major, hmajor, hp⟩ := bind_eq_ok_iff.1 hp
    obtain ⟨minor, hminor, hp⟩ := bind_eq_ok_iff.1 hp
    obtain ⟨patch, hpatch, hp⟩ := bind_eq_ok_iff.1 hp
    cases hp
    exact ⟨writable_of_readNumber hmajor, writable_of_readComponent hminor, writable_of_readComponent hpatch⟩

end

theorem writable_of_build (hd : d.Writable) (h : d.build = .ok v) : v.Writable := by
  induction d using Description.build.induct generalizing v with
  | case1 s => exact (of_read_eq_ok (mapError_eq_ok_iff.1 h)).1
  | case2 s => exact writable_of_readTarget (mapError_eq_ok_iff.1 h)
  | case3 operator major minor patch => exact writable_of_ofDocuments hd (by rintro _ ⟨⟩) (mapError_eq_ok_iff.1 h)
  | case4 operator major minor patch bound ih =>
    obtain ⟨b, hb, h⟩ := bind_eq_ok_iff.1 h
    refine writable_of_ofDocuments hd.1 ?_ (mapError_eq_ok_iff.1 h)
    rintro _ ⟨⟩
    exact ih hd.2 hb

def documentOf : Component → Document
  | .number n => .int n
  | .wildcard => .text "x"

/-- The values that a version without a second bound is made of, with a bound to put to it. -/
def descriptionOf (side? : Option Side) (p : Parts) (bound : Option Description) : Description :=
  .values (.text (operatorOf side?)) (documentOf p.major) (documentOf p.minor) (documentOf p.patch) bound

def description (v : Version) : Description :=
  descriptionOf v.side? v.parts (v.second?.map fun u => descriptionOf (some u.side) u.parts none)

theorem ofDocument_documentOf (comp : Component) : Component.ofDocument (documentOf comp) = .ok comp := by
  cases comp with
  | number n => exact Component.ofDocument_eq_ok_iff.2 (.inr ⟨n, rfl, rfl⟩)
  | wildcard => rfl

theorem ofDocuments_documentOf (side? : Option Side) (p : Parts) (bound : Option Version) :
    ofDocuments (.text (operatorOf side?)) (documentOf p.major) (documentOf p.minor) (documentOf p.patch) bound =
      assemble side? p bound := by
  rw [ofDocuments, ofDocument_documentOf, ofDocument_documentOf, ofDocument_documentOf]
  change readOperator _ >>= _ = _
  rw [readOperator_operatorOf]
  rfl

theorem build_description (v : Version) : v.description.build = .ok v := by
  have hsingle (side? : Option Side) (p : Parts) : (descriptionOf side? p none).build = .ok (single side? p) := by
    rw [descriptionOf, Description.build, ofDocuments_documentOf]
    rfl
  cases v with
  | exact p => exact hsingle none p
  | limit l => exact hsingle (some l.side) l.parts
  | pair l u =>
    change (descriptionOf (some u.side) u.parts none).build >>= _ = _
    rw [hsingle]
    change (ofDocuments _ _ _ _ _).mapError _ = _
    rw [ofDocuments_documentOf]
    rfl

theorem writableNumber_documentOf {comp : Component} (h : comp.Writable) : (documentOf comp).WritableNumber := by
  cases comp with
  | number n => exact h
  | wildcard => trivial

theorem writable_description (hv : v.Writable) : v.description.Writable := by
  have hparts {p : Parts} (hp : p.Writable) : (documentOf p.major).WritableNumber ∧
      (documentOf p.minor).WritableNumber ∧ (documentOf p.patch).WritableNumber :=
    ⟨writableNumber_documentOf hp.1, writableNumber_documentOf hp.2.1, writableNumber_documentOf hp.2.2⟩
  cases v with
  | exact p => exact hparts hv
  | limit l => exact hparts hv
  | pair l u => exact ⟨hparts hv.1, hparts hv.2⟩

/-! ### Editing -/

theorem writable_parts (hv : v.Writable) : v.parts.Writable := by
  cases v with
  | exact p => exact hv
  | limit l => exact hv
  | pair l u => exact hv.1

theorem writable_second (hv : v.Writable) : ∀ b ∈ v.second?.map limit, b.Writable := by
  cases v with
  | exact p => exact nofun
  | limit l => exact nofun
  | pair l u =>
    rintro _ ⟨⟩
    exact hv.2

theorem writable_set {p : Parts} {comp : Component} (hp : p.Writable) (hcomp : comp.Writable) (slot : Slot) :
    (p.set slot comp).Writable := by
  cases slot with
  | major => exact ⟨hcomp, hp.2⟩
  | minor => exact ⟨hp.1, hcomp, hp.2.2⟩
  | patch => exact ⟨hp.1, hp.2.1, hcomp⟩

theorem writable_withParts {p : Parts} (hv : v.Writable) (hp : p.Writable) : (v.withParts p).Writable := by
  cases v with
  | exact q => exact hp
  | limit l => exact hp
  | pair l u => exact ⟨hp, hv.2⟩

theorem writable_of_replacePart {name : String} {value : Document} (hv : v.Writable) (hvalue : value.WritableNumber)
    (h : v.replacePart name value = .ok w) : w.Writable := by
  rw [replacePart] at h
  split at h
  · cases h
  · next slot hslot =>
    obtain ⟨comp, hcomp, h⟩ := bind_eq_ok_iff.1 h
    cases h
    have hwritable := writable_of_ofDocument hvalue (mapError_eq_ok_iff.1 hcomp)
    exact writable_withParts hv (writable_set (writable_parts hv) hwritable slot)

theorem writable_of_edit (hv : v.Writable) (he : e.Writable) (h : v.edit e = .ok w) : w.Writable := by
  cases e with
  | set d => exact writable_of_build he h
  | replacePart name value => exact writable_of_replacePart hv he (mapError_eq_ok_iff.1 h)
  | dropBound =>
    cases h
    cases v with
    | exact p => exact hv
    | limit l => exact hv
    | pair l u => exact hv.1
  | takeBound =>
    cases h
    cases v with
    | exact p => exact hv
    | limit l => exact hv
    | pair l u => exact hv.2
  | replaceOperator operator =>
    obtain ⟨side?, -, h⟩ := bind_eq_ok_iff.1 (mapError_eq_ok_iff.1 h)
    exact writable_of_assemble (writable_parts hv) (writable_second hv) h
  | replaceBound bound =>
    cases bound with
    | none =>
      rw [edit] at h
      have hnone : v.replaceBound none = .ok w := mapError_eq_ok_iff.1 h
      exact writable_of_assemble (writable_parts hv) (by rintro _ ⟨⟩) hnone
    | some d =>
      obtain ⟨b, hb, h⟩ := bind_eq_ok_iff.1 h
      refine writable_of_assemble (writable_parts hv) ?_ (mapError_eq_ok_iff.1 h)
      rintro _ ⟨⟩
      exact writable_of_build he hb
  | simplify =>
    cases h
    exact writable_simplify hv
  | reread => exact (of_read_eq_ok (mapError_eq_ok_iff.1 h)).1

theorem writable_attempt (hv : v.Writable) (he : e.Writable) : (v.attempt e).Writable := by
  rw [attempt]
  split
  · next w h => exact writable_of_edit hv he h
  · exact hv

theorem writable_attemptAll (hv : v.Writable) (he : ∀ e ∈ edits, e.Writable) : (v.attemptAll edits).Writable := by
  induction edits generalizing v with
  | nil => exact hv
  | cons e edits ih =>
    obtain ⟨hfirst, hrest⟩ := List.forall_mem_cons.1 he
    exact ih (writable_attempt hv hfirst) hrest

theorem attempt_record (hv : v.Writable) (e : Edit) : v.record.attempt e = (v.attempt e).record := by
  rw [Record.attempt, edit_record hv, attempt]
  cases v.edit e <;> rfl

theorem attemptAll_record (hv : v.Writable) (he : ∀ e ∈ edits, e.Writable) :
    v.record.attemptAll edits = (v.attemptAll edits).record := by
  -- A reduction is only the same for numbers that can be written, which every edit keeps up.
  induction edits generalizing v with
  | nil => rfl
  | cons e edits ih =>
    obtain ⟨hfirst, hrest⟩ := List.forall_mem_cons.1 he
    change (v.record.attempt e).attemptAll edits = ((v.attempt e).attemptAll edits).record
    rw [attempt_record hv, ih (writable_attempt hv hfirst) hrest]

theorem eq_of_reread (hv : v.Writable) (h : v.edit .reread = .ok w) : w = v := by
  have hread := mapError_eq_ok_iff.1 h
  by_cases hr : v.Readable
  · rw [(read_text_eq_ok_iff hv).2 hr] at hread
    exact (Except.ok.inj hread).symm
  · rw [read_text_of_not_readable hv hr] at hread
    cases hread

/-- A record keeps to all rules under edits of which those that fail change nothing. Dropping the bound, taking it and
reducing never fail, and reading a record's own text changes nothing. What is reached can be built anew, so that it can
be a bound, and it is the record of the version that the same edits reach. -/
theorem wellFormed_attemptAll {r : Record} (hd : d.Writable) (hr : d.buildRecord = .ok r)
    (he : ∀ e ∈ edits, e.Writable) :
    (r.attemptAll edits).WellFormed ∧
      (∃ s, (r.attemptAll edits).edit .dropBound = .ok s ∧ s.bound? = none) ∧
      (∃ s, (r.attemptAll edits).edit .takeBound = .ok s) ∧
      (∃ s, (r.attemptAll edits).edit .simplify = .ok s) ∧
      (∀ s, (r.attemptAll edits).edit .reread = .ok s → s = r.attemptAll edits) ∧
      (∃ d' : Description, d'.Writable ∧ d'.buildRecord = .ok (r.attemptAll edits)) ∧
      ∃ v, d.build = .ok v ∧ r.attemptAll edits = (v.attemptAll edits).record ∧
        ∀ e, (r.attemptAll edits).edit e = ((v.attemptAll edits).edit e).map record := by
  rw [buildRecord_eq] at hr
  obtain ⟨v, hv, rfl⟩ := map_eq_ok_iff.1 hr
  have hbuilt := writable_of_build hd hv
  have hreached := writable_attemptAll hbuilt he
  rw [attemptAll_record hbuilt he]
  refine ⟨wellFormed_record _, ⟨_, edit_record hreached _, ?_⟩, ⟨_, edit_record hreached _⟩,
    ⟨_, edit_record hreached _⟩, ?_, ⟨_, writable_description hreached, ?_⟩, v, hv, rfl, edit_record hreached⟩
  · rw [bound?_record, second?_first]
    rfl
  · intro s hs
    rw [edit_record hreached] at hs
    obtain ⟨w, hw, rfl⟩ := map_eq_ok_iff.1 hs
    rw [eq_of_reread hreached hw]
  · rw [buildRecord_eq, build_description]
    rfl

/-- `>=v1.x.0_<=v2.x.x` refuses the empty operator, a truth value, a negative number and a bounded bound. With another
number and another bound it is reduced to `>=v1.4.0`. -/
theorem wellFormed_attemptAll_refusals :
    let r : Record :=
      .bounded ⟨">=", ⟨.integer 1, .wildcard, .integer 0⟩⟩ (.single ⟨"<=", ⟨.integer 2, .wildcard, .wildcard⟩⟩)
    let refused : List Edit :=
      [ .replaceOperator (.text ""), .replacePart "patch" (.bool true), .replacePart "major" (.int (-1)),
        .replaceBound (some (.text ">=v1.0.0_<=v2.0.0")) ]
    let edits : List Edit :=
      refused ++ [.replacePart "minor" (.int 4), .replaceBound (some (.text ">=v1.3.x")), .simplify, .reread]
    r.attemptAll refused = r ∧ r.attemptAll edits = .single ⟨">=", ⟨.integer 1, .integer 4, .integer 0⟩⟩ ∧
      (r.attemptAll edits).WellFormed := by
  intro r refused edits
  have hr : Description.buildRecord
      (.values (.text ">=") (.int 1) (.text "x") (.int 0) (some (.text "<=v2.x.x"))) = .ok r := by
    rfl
  exact ⟨by decide +kernel, by decide +kernel, (wellFormed_attemptAll (by decide +kernel) hr (by decide +kernel)).1⟩

end Version

end RuntimeRanges
