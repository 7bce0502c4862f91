import Mathlib.Data.List.Nodup
import RuntimeRanges.Host.Bundled
import RuntimeRanges.Proofs.Document.Message
import RuntimeRanges.Proofs.Manifest

/-!
What a manifest in JSON may hold, said of the document itself: an object with the definitions alone, and each definition
an object with a name, a version and ranges alone. These documents are the ones that are loaded, one line for each range;
any other one is refused with all its violations, one line for each.
-/

namespace RuntimeRanges

namespace Document

variable {fields values : List (Scalar × Document)} {name : String} {d : Document}

theorem Distinct.nodup (h : Distinct fields) : (fields.map Prod.fst).Nodup := by
  refine List.Pairwise.imp ?_ h
  rintro k _ hne rfl
  rw [Scalar.same_refl] at hne
  cases hne

theorem mem_of_field? (h : field? (.text name) fields = some d) : (.text name, d) ∈ fields := by
  induction fields with
  | nil => cases h
  | cons f fields ih =>
    rw [field?] at h
    split at h
    · next hk =>
      cases h
      rw [Scalar.same_text, decide_eq_true_iff] at hk
      rw [← hk]
      exact List.mem_cons_self
    · exact List.mem_cons_of_mem _ (ih h)

theorem field?_eq_some_iff (h : (fields.map Prod.fst).Nodup) :
    field? (.text name) fields = some d ↔ (.text name, d) ∈ fields := by
  refine ⟨mem_of_field?, fun hmem => ?_⟩
  induction fields with
  | nil => cases hmem
  | cons f fields ih =>
    rw [List.map_cons, List.nodup_cons] at h
    rw [field?]
    rcases List.mem_cons.1 hmem with rfl | hmem
    · rw [if_pos (Scalar.same_refl _)]
    · have hne : f.1 ≠ .text name := fun heq => h.1 (heq ▸ List.mem_map_of_mem hmem)
      rw [if_neg (by simpa using hne)]
      exact ih h.2 hmem

theorem perm_of_field? (h : (fields.map Prod.fst).Nodup) (hv : (values.map Prod.fst).Nodup)
    (hknown : ∀ f ∈ fields, f.1 ∈ values.map Prod.fst)
    (hvalue : ∀ f ∈ values, ∃ name : String, f.1 = .text name ∧ field? (.text name) fields = some f.2) :
    fields.Perm values := by
  rw [List.perm_ext_iff_of_nodup (List.Nodup.of_map _ h) (List.Nodup.of_map _ hv)]
  rintro ⟨k, d⟩
  constructor
  · intro hmem
    obtain ⟨⟨k, d'⟩, hmem', rfl⟩ := List.mem_map.1 (hknown _ hmem)
    obtain ⟨name, hname, hfound⟩ := hvalue _ hmem'
    obtain rfl : k = .text name := hname
    rw [(field?_eq_some_iff h).2 hmem, Option.some.injEq] at hfound
    rwa [hfound]
  · intro hmem
    obtain ⟨name, hname, hfound⟩ := hvalue _ hmem
    obtain rfl : k = .text name := hname
    exact mem_of_field? hfound

end Document

namespace Manifest

open Schema (Conforms)

/-- A definition as a manifest lists it. -/
structure Listing where
  name : Scalar
  version : Scalar
  ranges : List Scalar

namespace Listing

def fields (x : Listing) : List (Scalar × Document) :=
  [("name", .scalar x.name), ("version", .scalar x.version), ("ranges", .list (x.ranges.map .scalar))]

/-- The entries of the definition, one for each range. -/
def entries (x : Listing) : List Entry :=
  x.ranges.map fun range => ⟨x.name, x.version, range⟩

/-- Name, version and ranges are strings that are not empty. -/
structure Textual (x : Listing) : Prop where
  name : x.name.IsText
  version : x.version.IsText
  ranges : ∀ range ∈ x.ranges, range.IsText

/-- A document is that of a definition: an object with its fields and no others, in some order. -/
def Describes (d : Document) (x : Listing) : Prop :=
  x.Textual ∧ ∃ fields, d = .object fields ∧ fields.Perm x.fields

theorem nodup_fields (x : Listing) : (x.fields.map Prod.fst).Nodup := by
  have hkeys : x.fields.map Prod.fst = ["name", "version", "ranges"] := rfl
  rw [hkeys]
  decide

theorem exists_texts {ds : List Document} (h : ∀ d ∈ ds, Conforms (.text true) d) :
    ∃ ss : List Scalar, ds = ss.map .scalar ∧ ∀ s ∈ ss, s.IsText := by
  induction ds with
  | nil => exact ⟨[], rfl, List.forall_mem_nil _⟩
  | cons d ds ih =>
    rw [List.forall_mem_cons] at h
    obtain ⟨s, rfl, hs⟩ := exists_text h.1
    obtain ⟨ss, rfl, hss⟩ := ih h.2
    exact ⟨s :: ss, rfl, List.forall_mem_cons.2 ⟨hs, hss⟩⟩

theorem conforms_text {s : Scalar} (h : s.IsText) : Conforms (.text true) (.scalar s) := by
  cases s with
  | text s => exact .text fun _ => h
  | unpaired codes => exact .unpaired fun _ => h
  | _ => cases h

theorem exists_describes {d : Document} (h : Conforms definitionSchema d) (hd : d.IsJson) : ∃ x, Describes d x := by
  cases h with
  | @object _ fields present known values =>
    have hfield {name : String} {schema : Schema}
        (hp : (name, schema) ∈ [("name", .text true), ("version", .text true), ("ranges", .list (.text true))]) :
        ∃ v, Document.field? (.text name) fields = some v ∧ Conforms schema v := by
      obtain ⟨v, hv⟩ := Option.isSome_iff_exists.1 (present _ hp)
      exact ⟨v, hv, values _ hp v hv⟩
    obtain ⟨name, hname, hn⟩ := hfield List.mem_cons_self
    obtain ⟨version, hversion, hv⟩ := hfield (List.mem_cons_of_mem _ List.mem_cons_self)
    obtain ⟨ranges, hranges, hr⟩ := hfield (List.mem_of_getElem? (i := 2) rfl)
    obtain ⟨name, rfl, hnameText⟩ := exists_text hn
    obtain ⟨version, rfl, hversionText⟩ := exists_text hv
    cases hr with
    | @list _ items hitems =>
      obtain ⟨ranges, rfl, hrangesText⟩ := exists_texts hitems
      refine ⟨⟨name, version, ranges⟩, ⟨hnameText, hversionText, hrangesText⟩, fields, rfl, ?_⟩
      cases hd with
      | object distinct =>
        apply Document.perm_of_field? distinct.nodup (nodup_fields _)
        · intro f hf
          obtain ⟨p, hp, hkey⟩ := known f hf
          rw [hkey]
          simp only [List.mem_cons, List.not_mem_nil, or_false] at hp
          rcases hp with rfl | rfl | rfl
          · exact List.mem_cons_self
          · exact List.mem_cons_of_mem _ List.mem_cons_self
          · exact List.mem_of_getElem? (i := 2) rfl
        · simp only [Listing.fields, List.forall_mem_cons]
          exact ⟨⟨_, rfl, hname⟩, ⟨_, rfl, hversion⟩, ⟨_, rfl, hranges⟩, List.forall_mem_nil _⟩

theorem exists_forall₂_describes {ds : List Document} (h : ∀ d ∈ ds, Conforms definitionSchema d)
    (hd : ∀ d ∈ ds, d.IsJson) : ∃ xs, List.Forall₂ Describes ds xs := by
  induction ds with
  | nil => exact ⟨[], .nil⟩
  | cons d ds ih =>
    rw [List.forall_mem_cons] at h hd
    obtain ⟨x, hx⟩ := exists_describes h.1 hd.1
    obtain ⟨xs, hxs⟩ := ih h.2 hd.2
    exact ⟨x :: xs, .cons hx hxs⟩

theorem exists_identity {ds : List Document} {xs : List Listing} (h : List.Forall₂ Describes ds xs) :
    ∀ e ∈ xs.flatMap entries, ∃ i, e.identity = .ok i := by
  intro e he
  obtain ⟨x, hx, he⟩ := List.mem_flatMap.1 he
  obtain ⟨range, -, rfl⟩ := List.mem_map.1 he
  obtain ⟨j, hj, rfl⟩ := List.getElem_of_mem hx
  have htext : (xs[j]).Textual := (h.get (h.length_eq ▸ hj) hj).1
  exact ⟨⟨_, _, htext.name.isEmpty, htext.version.isEmpty⟩, by
    rw [Entry.identity, Identity.make, dif_pos htext.name.isEmpty, dif_pos htext.version.isEmpty]⟩

section

variable {x : Listing} {fields : List (Scalar × Document)} {name : String} {v d : Document}

theorem field?_of_perm (h : fields.Perm x.fields) (hv : (.text name, v) ∈ x.fields) :
    Document.field? (.text name) fields = some v := by
  have hnodup : (fields.map Prod.fst).Nodup := (h.map Prod.fst).nodup_iff.2 x.nodup_fields
  exact (Document.field?_eq_some_iff hnodup).2 (h.mem_iff.2 hv)

theorem fieldOf_of_perm (h : fields.Perm x.fields) (hv : (.text name, v) ∈ x.fields) :
    fieldOf name (.object fields) = .ok v := by
  rw [fieldOf, field?_of_perm h hv]

theorem mem_fields_name (x : Listing) : (.text "name", .scalar x.name) ∈ x.fields :=
  List.mem_cons_self

theorem mem_fields_version (x : Listing) : (.text "version", .scalar x.version) ∈ x.fields :=
  List.mem_cons_of_mem _ List.mem_cons_self

theorem mem_fields_ranges (x : Listing) : (.text "ranges", .list (x.ranges.map .scalar)) ∈ x.fields :=
  List.mem_of_getElem? (i := 2) rfl

theorem Describes.conforms (h : Describes d x) : Conforms definitionSchema d := by
  obtain ⟨htext, fields, rfl, hperm⟩ := h
  have hname := field?_of_perm hperm x.mem_fields_name
  have hversion := field?_of_perm hperm x.mem_fields_version
  have hranges := field?_of_perm hperm x.mem_fields_ranges
  have hvalue {name : String} {schema : Schema} {v : Document} (hv : Document.field? (.text name) fields = some v)
      (hc : Conforms schema v) : ∀ d, Document.field? (.text name) fields = some d → Conforms schema d := by
    intro d hd
    cases hv.symm.trans hd
    exact hc
  have hrangesText : Conforms (.list (.text true)) (.list (x.ranges.map .scalar)) :=
    .list (List.forall_mem_map.2 fun r hr => conforms_text (htext.ranges r hr))
  refine .object ?_ ?_ ?_
  · simp [hname, hversion, hranges]
  · intro f hf
    have hmem := hperm.mem_iff.1 hf
    simp only [Listing.fields, List.mem_cons, List.not_mem_nil, or_false] at hmem
    rcases hmem with rfl | rfl | rfl <;> simp
  · simp only [List.forall_mem_cons]
    exact ⟨hvalue hname (conforms_text htext.name), hvalue hversion (conforms_text htext.version),
      hvalue hranges hrangesText, List.forall_mem_nil _⟩

theorem definitionLines_eq (h : fields.Perm x.fields) (ranges : List Scalar) :
    definitionLines (.object fields) (ranges.map .scalar) =
      .ok (ranges.map fun range => Entry.line ⟨x.name, x.version, range⟩) := by
  induction ranges with
  | nil => rfl
  | cons range ranges ih =>
    rw [List.map_cons, definitionLines, fieldOf_of_perm h x.mem_fields_name, fieldOf_of_perm h x.mem_fields_version, ih]
    rfl

theorem linesOf_eq {ds : List Document} {xs : List Listing} (h : List.Forall₂ Describes ds xs) :
    linesOf ds = .ok ((xs.flatMap entries).map Entry.line) := by
  induction h with
  | nil => rfl
  | @cons d x ds xs hx _ ih =>
    obtain ⟨-, fields, rfl, hperm⟩ := hx
    rw [linesOf, fieldOf_of_perm hperm x.mem_fields_ranges]
    change (definitionLines (.object fields) (x.ranges.map .scalar) >>= _) = _
    rw [definitionLines_eq hperm, ih, List.flatMap_cons, List.map_append, entries, List.map_map]
    rfl

end

end Listing

/-- A document is a manifest with the given definitions, in their order. -/
def Lists (d : Document) (xs : List Listing) : Prop :=
  ∃ ds, d = .object [("definitions", .list ds)] ∧ List.Forall₂ Listing.Describes ds xs

variable {d : Document} {xs : List Listing}

/-- A document in JSON is a manifest exactly if it keeps to the schema of manifests. -/
theorem exists_lists_iff (hd : d.IsJson) : (∃ xs, Lists d xs) ↔ Conforms .manifest d := by
  constructor
  · rintro ⟨xs, ds, rfl, hds⟩
    have hall : ∀ d ∈ ds, Conforms definitionSchema d := by
      intro d hmem
      obtain ⟨i, hi, rfl⟩ := List.getElem_of_mem hmem
      exact (hds.get hi (hds.length_eq ▸ hi)).conforms
    refine .object ?_ ?_ ?_
    · simp [Document.field?]
    · simp
    · simp only [List.forall_mem_singleton]
      intro d hfield
      rw [Document.field?, if_pos (Scalar.same_refl _), Option.some.injEq] at hfield
      rw [← hfield]
      exact .list hall
  · intro h
    cases h with
    | @object _ fields present known values =>
      obtain ⟨v, hv⟩ := Option.isSome_iff_exists.1 (present _ List.mem_cons_self)
      have hlist := values _ List.mem_cons_self v hv
      have hjson := hd.of_field? hv
      cases hlist with
      | @list _ ds hds =>
        cases hjson with
        | list hdsJson =>
          obtain ⟨xs, hxs⟩ := Listing.exists_forall₂_describes hds hdsJson
          refine ⟨xs, ds, ?_, hxs⟩
          cases hd with
          | object distinct =>
            have hperm : fields.Perm [(.text "definitions", .list ds)] := by
              refine Document.perm_of_field? distinct.nodup (by exact List.nodup_singleton _) ?_ ?_
              · intro f hf
                obtain ⟨p, hp, hkey⟩ := known f hf
                rw [hkey, List.mem_singleton.1 hp]
                exact List.mem_cons_self
              · exact List.forall_mem_singleton.2 ⟨_, rfl, hv⟩
            rw [List.perm_singleton.1 hperm]

theorem Lists.flatten_eq (h : Lists d xs) : flatten d = .ok ((xs.flatMap Listing.entries).map Entry.line) := by
  obtain ⟨ds, rfl, hds⟩ := h
  exact Listing.linesOf_eq hds

/-- The paths to the parts of a manifest that can be at fault: fields and items alternate. -/
theorem path_cases {path : List Schema.PathStep} {f : Schema.Fault} (h : Schema.Finds .manifest d path f) :
    path = [] ∨ path = [.key "definitions"] ∨ ∃ i, path = [.key "definitions", .item i] ∨
      (∃ name ∈ ["name", "version", "ranges"], path = [.key "definitions", .item i, .key name]) ∨
        ∃ j, path = [.key "definitions", .item i, .key "ranges", .item j] := by
  cases h with
  | noObject _ => exact .inl rfl
  | keys _ => exact .inl rfl
  | field hp _ h =>
    cases List.mem_singleton.1 hp
    cases h with
    | noList _ => exact .inr (.inl rfl)
    | @item _ _ i _ _ _ _ h =>
      refine .inr (.inr ⟨i, ?_⟩)
      cases h with
      | noObject _ => exact .inl rfl
      | keys _ => exact .inl rfl
      | field hp _ h =>
        simp only [List.mem_cons, Prod.mk.injEq, List.not_mem_nil, or_false] at hp
        rcases hp with ⟨rfl, rfl⟩ | ⟨rfl, rfl⟩ | ⟨rfl, rfl⟩
        · cases h <;> exact .inr (.inl ⟨"name", by decide, rfl⟩)
        · cases h <;> exact .inr (.inl ⟨"version", by decide, rfl⟩)
        · cases h with
          | noList _ => exact .inr (.inl ⟨"ranges", by decide, rfl⟩)
          | @item _ _ j _ _ _ _ h => cases h <;> exact .inr (.inr ⟨j, rfl⟩)

open Text (OneLine oneLine_append oneLine_separated)

theorem oneLine_index (i : Nat) : OneLine (Schema.PathStep.item i).text := by
  change '\n' ∉ (String.ofList (Nat.toDigits 10 i)).toList
  rw [String.toList_ofList]
  exact Decimal.not_mem_toDigits i

theorem oneLine_step {path : List Schema.PathStep} {f : Schema.Fault} (h : Schema.Finds .manifest d path f) :
    ∀ step ∈ path, OneLine step.text := by
  have hkey : ∀ name ∈ ["definitions", "name", "version", "ranges"], OneLine (Schema.PathStep.key name).text := by decide
  rcases path_cases h with rfl | rfl | ⟨i, rfl | ⟨name, hname, rfl⟩ | ⟨j, rfl⟩⟩
  · exact List.forall_mem_nil _
  · exact List.forall_mem_singleton.2 (hkey _ List.mem_cons_self)
  · simp only [List.forall_mem_cons]
    exact ⟨hkey _ List.mem_cons_self, oneLine_index i, List.forall_mem_nil _⟩
  · simp only [List.forall_mem_cons]
    exact ⟨hkey _ List.mem_cons_self, oneLine_index i, hkey _ (List.mem_cons_of_mem _ hname), List.forall_mem_nil _⟩
  · simp only [List.forall_mem_cons]
    exact ⟨hkey _ List.mem_cons_self, oneLine_index i, hkey _ (by decide), oneLine_index j, List.forall_mem_nil _⟩

/-- The place of a fault as its line names it: the root, or the steps to it. -/
def place (path : List Schema.PathStep) : String :=
  if path = [] then "<root>" else Text.separated "/" (path.map Schema.PathStep.text)

theorem pointer_ne_empty {path : List Schema.PathStep} {f : Schema.Fault} (h : Schema.Finds .manifest d path f)
    (hpath : path ≠ []) : Text.separated "/" (path.map Schema.PathStep.text) ≠ "" := by
  have hhead (rest : List Schema.PathStep) :
      Text.separated "/" ((.key "definitions" :: rest).map Schema.PathStep.text) ≠ "" := by
    cases rest with
    | nil => decide
    | cons step rest =>
      rw [List.map_cons, List.map_cons, Text.separated, ← String.toList_inj.ne]
      simp [Schema.PathStep.text]
  rcases path_cases h with rfl | rfl | ⟨i, rfl | ⟨name, -, rfl⟩ | ⟨j, rfl⟩⟩
  · exact absurd rfl hpath
  all_goals exact hhead _

theorem line_eq {v : Schema.Violation} (h : Schema.Finds .manifest d v.path v.fault) :
    v.line = "- " ++ place v.path ++ ": " ++ v.fault.message := by
  rw [Schema.Violation.line, place]
  by_cases hpath : v.path = []
  · rw [if_pos hpath, hpath]
    rfl
  · rw [if_neg hpath, if_neg (pointer_ne_empty h hpath)]

theorem oneLine_place {path : List Schema.PathStep} {f : Schema.Fault} (h : Schema.Finds .manifest d path f) :
    OneLine (place path) := by
  rw [place]
  split
  · decide
  · exact oneLine_separated (by decide) (List.forall_mem_map.2 (oneLine_step h))

theorem oneLine_violation {v : Schema.Violation} (hd : d.IsJson) (h : Schema.Finds .manifest d v.path v.fault) :
    OneLine v.line := by
  rw [line_eq h]
  exact oneLine_append.2
    ⟨oneLine_append.2 ⟨oneLine_append.2 ⟨by decide, oneLine_place h⟩, by decide⟩, (h.wording hd).2⟩

variable {host : Host} {files : FileView} {path : FilePath}

theorem isJson_of_loadDocument (h : loadDocument host files path = .ok d) (hpath : path.suffix ∉ yamlSuffixes) :
    d.IsJson := by
  obtain ⟨cs, -, h⟩ := bind_eq_ok_iff.1 h
  rw [if_neg (by simpa using hpath), readJson] at h
  split at h
  · next hread =>
    cases h
    exact Json.isJson_read hread
  · cases h
  · cases h
  · cases h

theorem loadDocument_of_read {cs : List Char} (hcs : files.readText path = .ok cs)
    (hd : Json.read (host.room .manifest) cs = .ok d) (hpath : path.suffix ∉ yamlSuffixes) :
    loadDocument host files path = .ok d := by
  rw [loadDocument, readText, hcs]
  change (if yamlSuffixes.contains path.suffix then _ else readJson (host.room .manifest) cs) = .ok d
  rw [if_neg (by simpa using hpath), readJson, hd]

theorem load_of_loadDocument (h : loadDocument host files path = .ok d) :
    load host files path none = ofDocument host none d := by
  rw [load, loadSchema]
  change loadWith host none files path = _
  rw [loadWith, h]
  rfl

/-- A manifest in JSON is loaded exactly if it lists definitions, as one line for each range of each of them, in their
order, and every line has an identity. Any other document is refused with all violations of the schema in the order of
their paths, which can all be compared, each on a line of its own. -/
theorem load_json (hd : loadDocument host files path = .ok d) (hpath : path.suffix ∉ yamlSuffixes) :
    ((∃ lines, load host files path none = .ok lines) ↔ ∃ xs, Lists d xs) ∧
      (∀ xs, Lists d xs →
        load host files path none = .ok ((xs.flatMap Listing.entries).map Entry.line) ∧
          ∀ e ∈ xs.flatMap Listing.entries, ∃ i, e.identity = .ok i) ∧
      ((¬ ∃ xs, Lists d xs) →
        ∃ vs, load host files path none = .error (.invalid vs) ∧ vs ≠ [] ∧ vs.Perm (Schema.manifest.violationsAt [] d) ∧
          vs.Pairwise (fun v w => Schema.comparePaths v.path w.path ≠ .gt) ∧
          (∀ v ∈ vs, ∀ w ∈ vs, Schema.Comparable v.path w.path) ∧
          (LoadError.invalid vs).wording = .text ("\n" ++ Text.separated "\n" (vs.map Schema.Violation.line)) ∧
          ∀ v ∈ vs, OneLine v.line ∧ v.line = "- " ++ place v.path ++ ": " ++ v.fault.message) := by
  have hjson := isJson_of_loadDocument hd hpath
  have haccept {xs : List Listing} (h : Lists d xs) :
      load host files path none = .ok ((xs.flatMap Listing.entries).map Entry.line) := by
    have hnone := Schema.violations_eq_nil_iff.2 ((exists_lists_iff hjson).1 ⟨xs, h⟩)
    rw [load_of_loadDocument hd, ofDocument, check, hnone, h.flatten_eq]
    rfl
  have hrefuse (h : ¬ ∃ xs, Lists d xs) :
      load host files path none = .error (.invalid (Schema.manifest.violations d)) ∧
        Schema.manifest.violations d ≠ [] := by
    have hne : Schema.manifest.violations d ≠ [] :=
      fun hnone => h ((exists_lists_iff hjson).2 (Schema.violations_eq_nil_iff.1 hnone))
    have hwritable : (Schema.manifest.violations d).all (·.fault.isWritable) = true :=
      List.all_eq_true.2 fun v hv => ((Schema.mem_violations_iff.1 hv).wording hjson).1
    refine ⟨?_, hne⟩
    have hcheck : check d = .error (.invalid (Schema.manifest.violations d)) := by
      rw [check]
      split
      · next hnone => exact absurd hnone hne
      · rw [if_pos hwritable]
    rw [load_of_loadDocument hd, ofDocument]
    dsimp only
    rw [hcheck]
    rfl
  refine ⟨⟨?_, ?_⟩, ?_, ?_⟩
  · rintro ⟨lines, hlines⟩
    by_contra hnone
    rw [(hrefuse hnone).1] at hlines
    cases hlines
  · rintro ⟨xs, hxs⟩
    exact ⟨_, haccept hxs⟩
  · intro xs hxs
    refine ⟨haccept hxs, ?_⟩
    obtain ⟨ds, -, hds⟩ := hxs
    exact Listing.exists_identity hds
  · intro hnone
    obtain ⟨hload, hne⟩ := hrefuse hnone
    refine ⟨_, hload, hne, List.mergeSort_perm _ _, ?_, ?_, rfl, ?_⟩
    · refine (Schema.pairwise_violations .manifest d).imp fun {v w} hvw => ?_
      simpa [Schema.Violation.before] using hvw
    · intro v hv w hw
      exact (Schema.mem_violations_iff.1 hv).comparable (Schema.mem_violations_iff.1 hw)
    · intro v hv
      have hfinds := Schema.mem_violations_iff.1 hv
      exact ⟨oneLine_violation hjson hfinds, line_eq hfinds⟩

def sameFiles (text : List Char) : FileView :=
  ⟨fun _ => .ok (.file (Text.Utf8.encode (String.ofList text)))⟩

def listingText : List Char :=
  ['\x7b', '"', 'd', 'e', 'f', 'i', 'n', 'i', 't', 'i', 'o', 'n', 's', '"', ':', '[', '\x7b', '"', 'r', 'a', 'n',
    'g', 'e', 's', '"', ':', '[', '"', 'x', '"', ']', ',', '"', 'v', 'e', 'r', 's', 'i', 'o', 'n', '"', ':', '"',
    '1', '"', ',', '"', 'n', 'a', 'm', 'e', '"', ':', '"', 'a', '"', '\x7d', ']', '\x7d']

/-- A manifest with one definition, and a list, which is no manifest. -/
theorem load_json_sample :
    (FilePath.ofString "m.json").suffix ∉ yamlSuffixes ∧
      load .bundled (sameFiles listingText) (.ofString "m.json") none = .ok [Entry.line ⟨"a", "1", "x"⟩] ∧
      ∃ vs, load .bundled (sameFiles ['[', ']']) (.ofString "m.json") none = .error (.invalid vs) := by
  have hpath : (FilePath.ofString "m.json").suffix ∉ yamlSuffixes := by decide +kernel
  refine ⟨hpath, ?_, ?_⟩
  · have hcs : (sameFiles listingText).readText (.ofString "m.json") = .ok listingText := by decide +kernel
    have hread : Json.read (Host.bundled.room .manifest) listingText = .ok (.object [("definitions", .list [.object
        [("ranges", .list [.text "x"]), ("version", .text "1"), ("name", .text "a")]])]) := by rfl
    have hlists : Lists (.object [("definitions", .list [.object
        [("ranges", .list [.text "x"]), ("version", .text "1"), ("name", .text "a")]])])
        [⟨"a", "1", ["x"]⟩] := by
      have htext : Listing.Textual ⟨"a", "1", ["x"]⟩ :=
        ⟨(by decide : "a" ≠ ""), (by decide : "1" ≠ ""), List.forall_mem_singleton.2 (by decide : "x" ≠ "")⟩
      exact ⟨_, rfl, .cons ⟨htext, _, rfl, List.reverse_perm (Listing.fields ⟨"a", "1", ["x"]⟩)⟩ .nil⟩
    exact ((load_json (loadDocument_of_read hcs hread hpath) hpath).2.1 _ hlists).1
  · have hcs : (sameFiles ['[', ']']).readText (.ofString "m.json") = .ok ['[', ']'] := by decide +kernel
    have hread : Json.read (Host.bundled.room .manifest) ['[', ']'] = .ok (.list []) := by rfl
    have hnone : ¬ ∃ xs, Lists (.list []) xs := fun ⟨_, _, h, _⟩ => nomatch h
    obtain ⟨vs, hvs, -⟩ := (load_json (loadDocument_of_read hcs hread hpath) hpath).2.2 hnone
    exact ⟨vs, hvs⟩

end Manifest

end RuntimeRanges
