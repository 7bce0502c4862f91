import RuntimeRanges.Command.Validate
import RuntimeRanges.Proofs.Document.Schema
import RuntimeRanges.Proofs.Entry

/-!
Manifests that keep to their schema: each range of each definition is an entry of texts that are not empty, so that
nothing after the check of the schema can fail because of the shape of the document.
-/

namespace RuntimeRanges

/-- A text that is not empty. -/
def Scalar.IsText : Scalar → Prop
  | .text s => s ≠ ""
  | .unpaired codes => codes ≠ []
  | _ => False

theorem Scalar.IsText.isEmpty {s : Scalar} (h : s.IsText) : s.isEmpty = false := by
  cases s with
  | text s => exact Bool.eq_false_iff.2 (mt String.isEmpty_iff.1 h)
  | unpaired codes =>
    cases codes with
    | nil => exact absurd rfl h
    | cons n codes => rfl
  | _ => cases h

theorem Scalar.IsText.short {s : Scalar} (h : s.IsText) : s.Short := by
  cases s with
  | int n => cases h
  | _ => trivial

structure Entry.Textual (e : Entry) : Prop where
  name : e.name.IsText
  version : e.version.IsText
  range : e.range.IsText

theorem Entry.Textual.named {e : Entry} (h : e.Textual) : e.Named :=
  ⟨h.name.isEmpty, h.version.isEmpty⟩

/-- The line of a manifest with the texts of an entry. -/
def Entry.line (e : Entry) : Manifest.Line :=
  ⟨.scalar e.name, .scalar e.version, .scalar e.range⟩

namespace Manifest

open Schema (Conforms)

variable {d : Document}

theorem exists_fieldOf {properties : List (String × Schema)} {key : String} {schema : Schema}
    (h : Conforms (.object properties) d) (hp : (key, schema) ∈ properties) :
    ∃ v, fieldOf key d = .ok v ∧ Conforms schema v := by
  cases h with
  | object present known values =>
    obtain ⟨v, hv⟩ := Option.isSome_iff_exists.1 (present _ hp)
    refine ⟨v, ?_, values _ hp v hv⟩
    rw [fieldOf, hv]

theorem exists_itemsOf {items : Schema} (h : Conforms (.list items) d) :
    ∃ ds, itemsOf d = .ok ds ∧ ∀ v ∈ ds, Conforms items v := by
  cases h with
  | list h => exact ⟨_, rfl, h⟩

theorem exists_text (h : Conforms (.text true) d) : ∃ s, d = .scalar s ∧ s.IsText := by
  cases h with
  | text h => exact ⟨_, rfl, h rfl⟩
  | unpaired h => exact ⟨_, rfl, h rfl⟩

def definitionSchema : Schema :=
  .object [("name", .text true), ("version", .text true), ("ranges", .list (.text true))]

theorem exists_definitionLines (h : Conforms definitionSchema d) {ranges : List Document}
    (hr : ∀ r ∈ ranges, Conforms (.text true) r) :
    ∃ es : List Entry, definitionLines d ranges = .ok (es.map Entry.line) ∧ ∀ e ∈ es, e.Textual := by
  obtain ⟨name, hname, hn⟩ := exists_fieldOf h List.mem_cons_self
  obtain ⟨version, hversion, hv⟩ := exists_fieldOf h (List.mem_cons_of_mem _ List.mem_cons_self)
  obtain ⟨name, rfl, hname'⟩ := exists_text hn
  obtain ⟨version, rfl, hversion'⟩ := exists_text hv
  induction ranges with
  | nil => exact ⟨[], rfl, fun _ he => nomatch he⟩
  | cons range ranges ih =>
    rw [List.forall_mem_cons] at hr
    obtain ⟨range, rfl, hrange⟩ := exists_text hr.1
    obtain ⟨es, hes, htext⟩ := ih hr.2
    refine ⟨⟨name, version, range⟩ :: es, ?_, List.forall_mem_cons.2 ⟨⟨hname', hversion', hrange⟩, htext⟩⟩
    rw [definitionLines, hname, hversion, hes]
    rfl

theorem exists_linesOf {ds : List Document} (h : ∀ d ∈ ds, Conforms definitionSchema d) :
    ∃ es : List Entry, linesOf ds = .ok (es.map Entry.line) ∧ ∀ e ∈ es, e.Textual := by
  induction ds with
  | nil => exact ⟨[], rfl, fun _ he => nomatch he⟩
  | cons d ds ih =>
    rw [List.forall_mem_cons] at h
    obtain ⟨ranges, hranges, hr⟩ := exists_fieldOf h.1 (List.mem_of_getElem? (i := 2) rfl)
    obtain ⟨items, hitems, hi⟩ := exists_itemsOf hr
    obtain ⟨own, hown, hownText⟩ := exists_definitionLines h.1 hi
    obtain ⟨others, hothers, hothersText⟩ := ih h.2
    refine ⟨own ++ others, ?_, List.forall_mem_append.2 ⟨hownText, hothersText⟩⟩
    rw [linesOf, hranges]
    change (itemsOf ranges >>= _) = _
    rw [hitems]
    change (definitionLines d items >>= _) = _
    rw [hown, hothers, List.map_append]
    rfl

/-- A document that keeps to the schema of manifests has entries of texts. -/
theorem exists_flatten (h : Conforms .manifest d) :
    ∃ es : List Entry, flatten d = .ok (es.map Entry.line) ∧ ∀ e ∈ es, e.Textual := by
  obtain ⟨definitions, hdefinitions, hc⟩ := exists_fieldOf h List.mem_cons_self
  obtain ⟨items, hitems, hi⟩ := exists_itemsOf hc
  obtain ⟨es, hes, htext⟩ := exists_linesOf hi
  refine ⟨es, ?_, htext⟩
  rw [flatten, hdefinitions]
  change (itemsOf definitions >>= linesOf) = _
  rw [hitems]
  exact hes

variable {host : Host} {files : FileView} {path : FilePath}

theorem readText_ne_shape (f : ShapeFault) : readText files path ≠ .error (.shape f) := by
  rw [readText]
  split <;> exact nofun

theorem readJson_ne_shape {room : Nat} {cs : List Char} (f : ShapeFault) : readJson room cs ≠ .error (.shape f) := by
  rw [readJson]
  split <;> exact nofun

theorem loadDocument_ne_shape (f : ShapeFault) : loadDocument host files path ≠ .error (.shape f) := by
  rw [loadDocument]
  cases hcs : readText files path with
  | error e =>
    intro h
    cases h
    exact readText_ne_shape f hcs
  | ok cs =>
    dsimp only [bind, Except.bind]
    split
    · cases host.readYaml cs <;> exact nofun
    · exact readJson_ne_shape f

theorem ofDocument_cases (host : Host) (d : Document) :
    (∃ es : List Entry, ofDocument host none d = .ok (es.map Entry.line) ∧ ∀ e ∈ es, e.Textual) ∨
      (∃ violations, ofDocument host none d = .error (.invalid violations)) ∨
        ofDocument host none d = .error (.numeral .writing) := by
  rw [ofDocument]
  dsimp only
  rw [check]
  split
  · next hnone =>
    obtain ⟨es, hes, htext⟩ := exists_flatten (Schema.violations_eq_nil_iff.1 hnone)
    exact .inl ⟨es, by rw [hes]; rfl, htext⟩
  · split
    · exact .inr (.inl ⟨_, rfl⟩)
    · exact .inr (.inr rfl)

theorem loadWith_cases (host : Host) (files : FileView) (path : FilePath) :
    (∃ es : List Entry, loadWith host none files path = .ok (es.map Entry.line) ∧ ∀ e ∈ es, e.Textual) ∨
      ∃ e, loadWith host none files path = .error e ∧ ∀ f, e ≠ .shape f := by
  rw [loadWith]
  cases hd : loadDocument host files path with
  | error e =>
    refine .inr ⟨e, rfl, ?_⟩
    rintro f rfl
    exact loadDocument_ne_shape f hd
  | ok d =>
    change (∃ es : List Entry, ofDocument host none d = _ ∧ _) ∨ ∃ e, ofDocument host none d = _ ∧ _
    rcases ofDocument_cases host d with h | ⟨violations, h⟩ | h
    · exact .inl h
    · exact .inr ⟨_, h, nofun⟩
    · exact .inr ⟨_, h, nofun⟩

section

variable {start : Option Scalar} {e : Entry} {es : List Entry}

theorem identityPart_text {refusal : Identity.Refusal} {s : Scalar} (h : s.IsText) :
    identityPart refusal (.scalar s) = .ok (s, none) := by
  rw [identityPart, h.isEmpty]
  rfl

theorem readRange_line (h : e.Textual) : Line.readRange start e.line = .ok e.range := by
  obtain ⟨name, version, range⟩ := e
  have hrange : range.IsText := h.range
  cases range with
  | text s => rfl
  | unpaired codes => rfl
  | _ => cases hrange

theorem read_line (h : e.Textual) : Line.read start e.line = .ok { entry := e } := by
  have hname : e.name.isWritable = true := h.name.short.isWritable
  have hversion : e.version.isWritable = true := h.version.short.isWritable
  rw [Line.read, readRange_line h, Entry.line, identityPart_text h.name, identityPart_text h.version]
  change Except.ok (Reading.mk e none (e.name.isWritable && e.version.isWritable)) = _
  rw [hname, hversion]
  rfl

theorem readings_lines (h : ∀ e ∈ es, e.Textual) :
    readings start (es.map Entry.line) = (es.map fun e => { entry := e }, none) := by
  induction es with
  | nil => rfl
  | cons e es ih =>
    rw [List.forall_mem_cons] at h
    rw [List.map_cons, readings, read_line h.1, ih h.2]
    rfl

end

end Manifest

namespace Command

variable {start : Option Scalar} {es : List Entry}

theorem outcome_collectLines (h : ∀ e ∈ es, e.Textual) :
    (collectLines start (es.map Entry.line)).outcome =
      ((Collection.ofEntries start es).mapError .entries).map (·, none) := by
  have hgrouped : ∀ r ∈ es.map (fun e => ({ entry := e } : Manifest.Reading)), r.ungrouped = none := by
    rw [List.forall_mem_map]
    exact fun _ _ => rfl
  have hentries : (es.map fun e => ({ entry := e } : Manifest.Reading)).map Manifest.Reading.entry = es := by
    rw [List.map_map]
    exact List.map_id es
  rw [collectLines, Manifest.readings_lines h]
  dsimp only
  rw [Manifest.untilUngrouped_of_grouped start hgrouped, (Manifest.groupedBefore_eq_none_iff start).2 hgrouped, hentries]
  dsimp only
  rw [Log.Traced.outcome_bind, Log.Traced.outcome_mapError]
  change (Collection.ofEntries start es).mapError _ >>= _ = _
  cases Collection.ofEntries start es <;> rfl

theorem Validate.outcome_validateLines (h : ∀ e ∈ es, e.Textual) :
    (Validate.validateLines start (es.map Entry.line)).outcome = (Validation.ofEntries start es).mapError .entries := by
  rw [Validate.validateLines, Log.Traced.outcome_bind, outcome_collectLines h, Validation.ofEntries,
    Validation.ofEntriesTraced, Log.Traced.outcome_bind]
  change _ = ((Collection.ofEntries start es) >>= _).mapError _
  cases Collection.ofEntries start es <;> rfl

end Command

end RuntimeRanges
