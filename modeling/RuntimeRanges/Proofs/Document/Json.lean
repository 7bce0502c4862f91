import RuntimeRanges.Document.Json
import RuntimeRanges.Proofs.Numeral
import RuntimeRanges.Proofs.Outcome

/-!
Documents that are read from JSON. What the values that hold no others have, and what lists and objects take over from
their parts, every document has; among it are that names of fields are strings, that no two fields of an object have one
name, and that integers are short enough to be written.
-/

namespace RuntimeRanges

namespace Scalar

/-- The values that JSON has. An integer is one that can be written, and a string is held as code points only if some of
them stands for no character. -/
def IsJson : Scalar → Prop
  | .int n => Numeral.Writable n.natAbs
  | .unpaired codes => codes.all (fun n => Nat.isValidChar n) = false
  | .date _ | .moment _ => False
  | _ => True

def IsString : Scalar → Prop
  | text _ => True
  | unpaired _ => True
  | _ => False

theorem isString_ofCodes (codes : List Nat) : (ofCodes codes).IsString := by
  rw [ofCodes]
  split <;> exact trivial

theorem isJson_ofCodes (codes : List Nat) : (ofCodes codes).IsJson := by
  rw [ofCodes]
  split
  · exact trivial
  · next h => exact Bool.eq_false_iff.2 h

theorem IsJson.isWritable {s : Scalar} (h : s.IsJson) : s.isWritable = true := by
  cases s with
  | int n =>
    have hn : n.natAbs < Nat.pow 10 Numeral.maxDigits := h
    rw [Scalar.isWritable, Numeral.write, if_pos hn]
    rfl
  | _ => rfl

theorem IsString.isWritable {s : Scalar} (h : s.IsString) : s.isWritable = true := by
  cases s with
  | int n => cases h
  | _ => rfl

end Scalar

namespace Json

variable {cs rest : List Char} {d : Document} {P : Document → Prop}

theorem exists_of_numberRest {negative : Bool} {digits : List Char} (hne : digits ≠ [])
    (hdigits : ∀ c ∈ digits, c.isDigit = true) (h : numberRest negative digits cs = .ok (d, rest)) :
    ∃ s, d = .scalar s ∧ s.IsJson := by
  rw [numberRest] at h
  generalize (fraction? cs).getD ([], cs) = point at h
  obtain ⟨decimals, after⟩ := point
  generalize (exponent? after).getD (0, after) = power at h
  dsimp only at h
  split at h
  · split at h
    · cases h
    · next n hn =>
      cases h
      have hw : Numeral.Writable n := by
        rw [Numeral.read] at hn
        split at hn
        · next hlen =>
          cases hn
          exact Numeral.writable_value hne hdigits hlen
        · cases hn
      refine ⟨_, rfl, ?_⟩
      cases negative
      · exact hw
      · change Numeral.Writable (-(n : Int)).natAbs
        rwa [Int.natAbs_neg]
  · cases h
    exact ⟨_, rfl, trivial⟩

theorem exists_of_number? (h : number? cs = some (.ok (d, rest))) : ∃ s, d = .scalar s ∧ s.IsJson := by
  rw [number?.eq_def] at h
  dsimp only at h
  split at h
  · cases h
  · split at h
    · next hzero =>
      refine exists_of_numberRest (List.cons_ne_nil _ _) ?_ (Option.some.inj h)
      rw [hzero]
      exact List.forall_mem_singleton.2 rfl
    · split at h
      · next heq _ hdigit =>
        rw [heq] at h
        refine exists_of_numberRest ?_ (List.all_eq_true.1 List.all_takeWhile) (Option.some.inj h)
        rw [List.takeWhile_cons_of_pos hdigit]
        exact List.cons_ne_nil _ _
      · cases h

theorem exists_of_named? (h : named? cs = some (d, rest)) : ∃ s, d = .scalar s ∧ s.IsJson := by
  have hall : ∀ entry ∈ named, ∃ s, entry.2 = .scalar s ∧ s.IsJson := by
    simp [named, Scalar.IsJson]
  obtain ⟨entry, hmem, he⟩ := List.exists_of_findSome?_eq_some h
  obtain ⟨_, -, hd⟩ := Option.map_eq_some_iff.1 he
  cases hd
  exact hall entry hmem

theorem exists_of_scalar (h : scalar cs = .ok (d, rest)) : ∃ s, d = .scalar s ∧ s.IsJson := by
  rw [scalar.eq_def] at h
  split at h
  · obtain ⟨⟨codes, rest⟩, -, h⟩ := bind_eq_ok_iff.1 h
    cases h
    exact ⟨_, rfl, Scalar.isJson_ofCodes codes⟩
  · split at h
    · next found hfound =>
      cases h
      exact exists_of_named? hfound
    · cases hn : number? _ with
      | none => rw [hn] at h; cases h
      | some x =>
        rw [hn] at h
        exact exists_of_number? (hn.trans (congrArg some h))

section

variable (hscalar : ∀ s : Scalar, s.IsJson → P (.scalar s)) (hlist : ∀ ds, (∀ d ∈ ds, P d) → P (.list ds))
  (hobject : ∀ fs : List (Scalar × Document), (∀ f ∈ fs, (∃ codes, f.1 = .ofCodes codes) ∧ P f.2) →
    P (.object (Document.setFields [] fs)))

include hscalar hlist hobject

theorem value_induction (fuel : Nat) :
    (∀ room cs d rest, value fuel room cs = .ok (d, rest) → P d) ∧
      (∀ room cs ds rest, items fuel room cs = .ok (ds, rest) → ∀ d ∈ ds, P d) ∧
      ∀ room cs fs rest, fields fuel room cs = .ok (fs, rest) →
        ∀ f ∈ fs, (∃ codes, f.1 = .ofCodes codes) ∧ P f.2 := by
  -- The three readers call each other with less fuel, so they are taken together.
  induction fuel with
  | zero =>
    refine ⟨?_, ?_, ?_⟩
    · intro room cs d rest h
      rw [value] at h
      cases h
    · intro room cs ds rest h
      rw [items] at h
      cases h
    · intro room cs fs rest h
      rw [fields] at h
      cases h
  | succ fuel ih =>
    obtain ⟨ihValue, ihItems, ihFields⟩ := ih
    refine ⟨?_, ?_, ?_⟩
    · intro room cs d rest h
      rw [value.eq_def] at h
      split at h
      · next hz => cases hz
      · cases h
      · cases h
      · next hf =>
        cases hf
        split at h
        · cases h
          exact hlist [] (List.forall_mem_nil _)
        · obtain ⟨⟨ds, rest⟩, hds, h⟩ := bind_eq_ok_iff.1 h
          cases h
          exact hlist ds (ihItems _ _ _ _ hds)
      · next hf =>
        cases hf
        split at h
        · cases h
          exact hobject [] (List.forall_mem_nil _)
        · obtain ⟨⟨fs, rest⟩, hfs, h⟩ := bind_eq_ok_iff.1 h
          cases h
          exact hobject fs (ihFields _ _ _ _ hfs)
      · obtain ⟨s, rfl, hs⟩ := exists_of_scalar h
        exact hscalar s hs
    · intro room cs ds rest h
      rw [items] at h
      obtain ⟨⟨d, rest⟩, hd, h⟩ := bind_eq_ok_iff.1 h
      have hd := ihValue _ _ _ _ hd
      dsimp only at h
      split at h
      · cases h
        exact List.forall_mem_singleton.2 hd
      · obtain ⟨⟨ds, rest⟩, hds, h⟩ := bind_eq_ok_iff.1 h
        cases h
        exact List.forall_mem_cons.2 ⟨hd, ihItems _ _ _ _ hds⟩
      · cases h
    · intro room cs fs rest h
      rw [fields.eq_def] at h
      split at h
      · next hz => cases hz
      · next hf =>
        cases hf
        obtain ⟨⟨key, rest⟩, -, h⟩ := bind_eq_ok_iff.1 h
        dsimp only at h
        split at h
        · obtain ⟨⟨d, rest⟩, hd, h⟩ := bind_eq_ok_iff.1 h
          have hd := ihValue _ _ _ _ hd
          dsimp only at h
          split at h
          · cases h
            exact List.forall_mem_singleton.2 ⟨⟨key, rfl⟩, hd⟩
          · obtain ⟨⟨fs, rest⟩, hfs, h⟩ := bind_eq_ok_iff.1 h
            cases h
            exact List.forall_mem_cons.2 ⟨⟨⟨key, rfl⟩, hd⟩, ihFields _ _ _ _ hfs⟩
          · cases h
        · cases h
      · cases h

theorem read_induction {room : Nat} (h : read room cs = .ok d) : P d := by
  rw [read] at h
  split at h
  · next hd =>
    cases h
    rw [document.eq_def] at hd
    split at hd
    · cases hd
    · obtain ⟨⟨d, rest⟩, hv, hd⟩ := bind_eq_ok_iff.1 hd
      dsimp only at hd
      split at hd
      · cases hd
        exact (value_induction hscalar hlist hobject _).1 _ _ _ _ hv
      · cases hd
  · cases h
  · cases h
  · cases h

end

end Json

namespace Document

variable {P : Scalar → Prop} {Q : Document → Prop} {key : Scalar} {d : Document} {fields added : List (Scalar × Document)}

theorem forall_setField (hkey : P key) (hd : Q d) (h : ∀ f ∈ fields, P f.1 ∧ Q f.2) :
    ∀ f ∈ setField key d fields, P f.1 ∧ Q f.2 := by
  induction fields with
  | nil => exact List.forall_mem_singleton.2 ⟨hkey, hd⟩
  | cons f fields ih =>
    rw [List.forall_mem_cons] at h
    rw [setField]
    split
    · exact List.forall_mem_cons.2 ⟨⟨h.1.1, hd⟩, h.2⟩
    · exact List.forall_mem_cons.2 ⟨h.1, ih h.2⟩

theorem forall_setFields (h : ∀ f ∈ fields, P f.1 ∧ Q f.2) (ha : ∀ f ∈ added, P f.1 ∧ Q f.2) :
    ∀ f ∈ setFields fields added, P f.1 ∧ Q f.2 := by
  induction added generalizing fields with
  | nil => exact h
  | cons f added ih =>
    rw [List.forall_mem_cons] at ha
    exact ih (forall_setField ha.1.1 ha.1.2 h) ha.2

/-- A written field is under the first name that is the same, or new at the end. -/
theorem names_setField (key : Scalar) (d : Document) (fields : List (Scalar × Document)) :
    (setField key d fields).map Prod.fst =
      if fields.any (·.1.same key) then fields.map Prod.fst else fields.map Prod.fst ++ [key] := by
  induction fields with
  | nil => rfl
  | cons f fields ih =>
    obtain ⟨k, e⟩ := f
    rw [setField, List.any_cons]
    cases hk : k.same key with
    | true => rfl
    | false =>
      rw [if_neg Bool.false_ne_true, List.map_cons, ih, Bool.false_or]
      split <;> rfl

/-- No two fields have the same name. -/
def Distinct (fields : List (Scalar × Document)) : Prop :=
  (fields.map Prod.fst).Pairwise fun k k' => k.same k' = false

theorem Distinct.setField (h : Distinct fields) : Distinct (setField key d fields) := by
  rw [Distinct, names_setField]
  split
  · exact h
  · next hnone =>
    rw [List.pairwise_append]
    refine ⟨h, List.pairwise_singleton _ _, ?_⟩
    intro k hk k' hk'
    obtain rfl := List.mem_singleton.1 hk'
    obtain ⟨f, hf, rfl⟩ := List.mem_map.1 hk
    exact Bool.eq_false_iff.2 fun hsame => hnone (List.any_eq_true.2 ⟨f, hf, hsame⟩)

theorem Distinct.setFields (h : Distinct fields) : Distinct (setFields fields added) := by
  induction added generalizing fields with
  | nil => exact h
  | cons f added ih => exact ih h.setField

/-- The documents that JSON has. -/
inductive IsJson : Document → Prop
  | scalar {s : Scalar} (h : s.IsJson) : IsJson (.scalar s)
  | list {items : List Document} (h : ∀ d ∈ items, IsJson d) : IsJson (.list items)
  | object {fields : List (Scalar × Document)} (distinct : Distinct fields)
      (names : ∀ f ∈ fields, f.1.IsString) (values : ∀ f ∈ fields, IsJson f.2) : IsJson (.object fields)

end Document

/-- What is read from JSON is a document that JSON has. -/
theorem Json.isJson_read {room : Nat} {cs : List Char} {d : Document} (h : read room cs = .ok d) : d.IsJson := by
  refine read_induction (fun s => .scalar) (fun ds => .list) ?_ h
  intro fs hfs
  have hread : ∀ f ∈ fs, f.1.IsString ∧ f.2.IsJson := by
    intro f hf
    obtain ⟨⟨codes, hkey⟩, hvalue⟩ := hfs f hf
    rw [hkey]
    exact ⟨Scalar.isString_ofCodes codes, hvalue⟩
  have hset := Document.forall_setFields (List.forall_mem_nil _) hread
  exact .object (Document.Distinct.setFields .nil) (fun f hf => (hset f hf).1) fun f hf => (hset f hf).2

end RuntimeRanges
