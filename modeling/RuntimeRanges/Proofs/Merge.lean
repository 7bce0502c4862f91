import Mathlib.Algebra.GroupWithZero.Nat
import Mathlib.Data.List.Basic
import RuntimeRanges.Proofs.Grouped

/-!
Putting groups together. Adding a group is adding its elements one after the other, so that merged groups are those of
all elements in a row; groups without elements leave no trace.
-/

namespace RuntimeRanges.Grouped

variable {κ α β : Type} [BEq κ]

/-- Groups that have distinct keys, none of them empty. -/
structure Proper (groups : Grouped κ β) : Prop where
  distinct : groups.Distinct
  nonempty : ∀ g ∈ groups, g.2 ≠ []

/-- The elements of all groups in a row, each with its key. -/
def entries (groups : Grouped κ β) : List (κ × β) :=
  groups.flatMap fun (k, elements) => elements.map (k, ·)

variable {groups added : Grouped κ β} {k : κ} {b : β} {elements : List β}

section

variable {l : List α} {key : α → κ} {elem : α → β}

theorem addAll_append {l' : List α} :
    groups.addAll key elem (l ++ l') = (groups.addAll key elem l).addAll key elem l' :=
  List.foldl_append

theorem mem_append_cases {g : κ × List β} (h : g ∈ append k elements groups) :
    g ∈ groups ∨ ∃ before, g.2 = before ++ elements := by
  induction groups with
  | nil =>
    obtain rfl := List.mem_singleton.1 h
    exact .inr ⟨[], rfl⟩
  | cons group groups ih =>
    rw [append] at h
    split at h
    · rcases List.mem_cons.1 h with rfl | h
      · exact .inr ⟨group.2, rfl⟩
      · exact .inl (List.mem_cons_of_mem _ h)
    · rcases List.mem_cons.1 h with rfl | h
      · exact .inl List.mem_cons_self
      · exact (ih h).imp_left (List.mem_cons_of_mem _)

theorem Proper.addAll [EquivBEq κ] (h : groups.Proper) : (groups.addAll key elem l).Proper := by
  refine ⟨h.distinct.addAll, ?_⟩
  have hne := h.nonempty
  clear h
  induction l generalizing groups with
  | nil => exact hne
  | cons a l ih =>
    apply ih
    intro g hg
    rcases mem_append_cases hg with hg | ⟨before, hg⟩
    · exact hne g hg
    · rw [hg]
      exact List.append_ne_nil_of_right_ne_nil _ (List.cons_ne_nil _ _)

theorem proper_addAll_nil [EquivBEq κ] : (addAll key elem [] l).Proper :=
  Proper.addAll ⟨List.Pairwise.nil, fun _ h => nomatch h⟩

end

theorem append_append [ReflBEq κ] (xs ys : List β) : append k ys (append k xs groups) = append k (xs ++ ys) groups := by
  induction groups with
  | nil => simp [append]
  | cons group groups ih =>
    cases h : group.1 == k <;> simp [append, h, ih]

theorem append_eq_addAll [ReflBEq κ] (h : elements ≠ []) :
    append k elements groups = groups.addAll Prod.fst Prod.snd (elements.map (k, ·)) := by
  induction elements generalizing groups with
  | nil => exact absurd rfl h
  | cons b elements ih =>
    change _ = (append k [b] groups).addAll Prod.fst Prod.snd (elements.map (k, ·))
    cases elements with
    | nil => rfl
    | cons b' elements => rw [← ih (List.cons_ne_nil _ _), append_append, List.singleton_append]

theorem extend_eq_addAll [ReflBEq κ] : groups.extend added = groups.addAll Prod.fst Prod.snd added.entries := by
  induction added generalizing groups with
  | nil => rfl
  | cons group added ih =>
    obtain ⟨k, elements⟩ := group
    have hentries : entries ((k, elements) :: added) = elements.map (k, ·) ++ entries added := rfl
    rw [hentries, addAll_append, ← ih]
    cases elements with
    | nil => rfl
    | cons b elements =>
      rw [← append_eq_addAll (List.cons_ne_nil _ _)]
      rfl

theorem perm_entries_append (hk : ∀ k' ∈ groups.keys, (k' == k) = true → k' = k) :
    (entries (append k [b] groups)).Perm ((k, b) :: groups.entries) := by
  induction groups with
  | nil => exact List.Perm.refl _
  | cons group groups ih =>
    obtain ⟨k', elements⟩ := group
    obtain ⟨hhead, hrest⟩ := List.forall_mem_cons.1 hk
    rw [append]
    split
    · next hsame =>
      obtain rfl : k' = k := hhead hsame
      change ((elements ++ [b]).map (k', ·) ++ entries groups).Perm
        ((k', b) :: (elements.map (k', ·) ++ entries groups))
      rw [List.map_append, List.append_assoc]
      exact List.perm_middle
    · change (elements.map (k', ·) ++ entries (append k [b] groups)).Perm
        ((k, b) :: (elements.map (k', ·) ++ entries groups))
      exact ((ih hrest).append_left _).trans List.perm_middle

theorem perm_entries_addAll {l : List α} {key : α → κ} {elem : α → β} {P : κ → Prop}
    (hP : ∀ k k', P k → P k' → (k == k') = true → k = k') (hgroups : ∀ k ∈ groups.keys, P k) (hl : ∀ a ∈ l, P (key a)) :
    (groups.addAll key elem l).entries.Perm (groups.entries ++ l.map fun a => (key a, elem a)) := by
  induction l generalizing groups with
  | nil =>
    rw [List.map_nil, List.append_nil]
    exact List.Perm.refl _
  | cons a l ih =>
    obtain ⟨hhead, hrest⟩ := List.forall_mem_cons.1 hl
    have hkeys : ∀ k ∈ (append (key a) [elem a] groups).keys, P k := by
      rw [keys_append]
      split
      · exact hgroups
      · exact List.forall_mem_append.2 ⟨hgroups, List.forall_mem_singleton.2 hhead⟩
    have hadded : (entries (append (key a) [elem a] groups)).Perm ((key a, elem a) :: groups.entries) :=
      perm_entries_append fun k' hk' hsame => hP _ _ (hgroups k' hk') hhead hsame
    exact (ih hkeys hrest).trans ((hadded.append_right _).trans List.perm_middle.symm)

theorem perm_entries_addAll_nil {l : List α} {key : α → κ} {elem : α → β} {P : κ → Prop}
    (hP : ∀ k k', P k → P k' → (k == k') = true → k = k') (hl : ∀ a ∈ l, P (key a)) :
    (addAll key elem [] l).entries.Perm (l.map fun a => (key a, elem a)) :=
  perm_entries_addAll hP (fun _ hk => nomatch hk) hl

/-- Merged groups are those of all elements in a row. -/
theorem merge_eq_addAll [ReflBEq κ] (lists : List (Grouped κ β)) :
    merge lists = addAll Prod.fst Prod.snd [] (lists.flatMap entries) := by
  suffices h : ∀ groups : Grouped κ β,
      lists.foldl extend groups = groups.addAll Prod.fst Prod.snd (lists.flatMap entries) from h []
  induction lists with
  | nil => exact fun _ => rfl
  | cons list lists ih =>
    intro groups
    rw [List.foldl_cons, List.flatMap_cons, ih, extend_eq_addAll, addAll_append]

theorem proper_merge [EquivBEq κ] (lists : List (Grouped κ β)) : (merge lists).Proper := by
  rw [merge_eq_addAll]
  exact proper_addAll_nil

theorem Distinct.filter_entries [EquivBEq κ] (h : groups.Distinct) (k : κ) :
    (groups.entries.filter (·.1 == k)).map Prod.snd = groups.get k := by
  have hgroup (k' : κ) (elements : List β) :
      ((elements.map (k', ·)).filter (·.1 == k)).map Prod.snd = if k' == k then elements else [] := by
    rw [List.filter_map, List.map_map]
    cases hk : k' == k <;> simp [Function.comp_def, hk]
  induction groups with
  | nil => rfl
  | cons group groups ih =>
    obtain ⟨k', elements⟩ := group
    obtain ⟨hhead, hrest⟩ := List.pairwise_cons.1 h
    have hentries : entries ((k', elements) :: groups) = elements.map (k', ·) ++ entries groups := rfl
    rw [hentries, List.filter_append, List.map_append, hgroup, ih hrest, get]
    cases hk : k' == k with
    | false => rfl
    | true =>
      -- The keys are distinct: no later group has elements for the key of the first.
      have hnone : get groups k = [] := by
        apply List.eq_nil_iff_forall_not_mem.2
        intro b hb
        obtain ⟨g, hg, hgk, -⟩ := mem_of_mem_get hb
        have hne := hhead g.1 (List.mem_map_of_mem hg)
        rw [BEq.congr_left hk, BEq.comm, hgk] at hne
        cases hne
      simp [hnone]

theorem get_merge [EquivBEq κ] {lists : List (Grouped κ β)} (h : ∀ groups ∈ lists, groups.Distinct) (k : κ) :
    (merge lists).get k = lists.flatMap (·.get k) := by
  rw [merge_eq_addAll, get_addAll, get, List.nil_append, List.filter_flatMap, List.map_flatMap]
  rw [List.flatMap_def, List.flatMap_def]
  congr 1
  apply List.map_congr_left
  intro groups hg
  exact (h groups hg).filter_entries k

theorem Distinct.ext [EquivBEq κ] {groups' : Grouped κ β} (h : groups.Distinct) (h' : groups'.Distinct)
    (hkeys : groups.keys = groups'.keys) (hget : ∀ k, groups.get k = groups'.get k) : groups = groups' := by
  rw [h.eq_map_keys, h'.eq_map_keys, hkeys]
  exact List.map_congr_left fun k _ => by rw [hget]

theorem eraseDups_entries [EquivBEq κ] (groups : Grouped κ β) :
    (groups.entries.map Prod.fst).eraseDups = ((groups.filter fun g => !g.2.isEmpty).map Prod.fst).eraseDups := by
  induction groups with
  | nil => rfl
  | cons group groups ih =>
    obtain ⟨k, elements⟩ := group
    have hentries : (entries ((k, elements) :: groups)).map Prod.fst =
        elements.map (fun _ => k) ++ (entries groups).map Prod.fst := by
      change (elements.map (k, ·) ++ entries groups).map Prod.fst = _
      rw [List.map_append, List.map_map]
      rfl
    rw [hentries]
    cases elements with
    | nil => exact ih
    | cons b elements =>
      have hne (k k' : κ) (h : (k == k') = true) (k₀ : κ) : (!k == k₀) = !k' == k₀ := by rw [BEq.congr_left h]
      have hsame : (elements.map fun _ => k).filter (fun k' => !k' == k) = [] := by simp
      rw [List.filter_cons_of_pos rfl, List.map_cons, List.map_cons, List.cons_append, List.eraseDups_cons,
        List.eraseDups_cons, List.filter_append, hsame, List.nil_append, eraseDups_filter fun _ _ h => hne _ _ h k, ih,
        ← eraseDups_filter fun _ _ h => hne _ _ h k]

theorem Proper.eraseDups_entries [EquivBEq κ] (h : groups.Proper) :
    (groups.entries.map Prod.fst).eraseDups = groups.keys := by
  have hfilter : groups.filter (fun g => !g.2.isEmpty) = groups := by
    apply List.filter_eq_self.2
    intro g hg
    rw [List.isEmpty_eq_false_iff.2 (h.nonempty g hg)]
    rfl
  rw [Grouped.eraseDups_entries, hfilter]
  exact eraseDups_of_pairwise h.distinct

theorem keys_merge [EquivBEq κ] (lists : List (Grouped κ β)) :
    (merge lists).keys = ((lists.flatten.filter fun g => !g.2.isEmpty).map Prod.fst).eraseDups := by
  rw [merge_eq_addAll, keys_addAll_nil, ← eraseDups_entries, ← List.flatMap_id, entries, List.flatMap_assoc]
  rfl

/-- Merged groups in a closed form. -/
theorem merge_eq_map [EquivBEq κ] {lists : List (Grouped κ β)} (h : ∀ groups ∈ lists, groups.Distinct) :
    merge lists = ((lists.flatten.filter fun g => !g.2.isEmpty).map Prod.fst).eraseDups.map fun k =>
      (k, lists.flatMap (·.get k)) := by
  rw [(proper_merge lists).distinct.eq_map_keys, keys_merge]
  exact List.map_congr_left fun k _ => by rw [get_merge h]

theorem addAll_entries_addAll [EquivBEq κ] {l : List α} {key : α → κ} {elem : α → β} (h : groups.Distinct) :
    groups.addAll Prod.fst Prod.snd (entries (addAll key elem [] l)) = groups.addAll key elem l := by
  have hproper : (addAll key elem [] l).Proper := proper_addAll_nil
  apply h.addAll.ext h.addAll
  · have hcongr (k k' : κ) (hk : (k == k') = true) :
        (!groups.keys.any (· == k)) = !groups.keys.any (· == k') := by
      simp only [BEq.congr_right hk]
    rw [keys_addAll, keys_addAll, eraseDups_filter hcongr, eraseDups_filter hcongr, hproper.eraseDups_entries,
      keys_addAll_nil]
  · intro k
    rw [get_addAll, get_addAll, hproper.distinct.filter_entries, get_addAll, get, List.nil_append]

/-- Merged groups can be merged again with others. -/
theorem merge_append_merge [EquivBEq κ] (xs ys zs : List (Grouped κ β)) :
    merge (xs ++ merge ys :: zs) = merge (xs ++ ys ++ zs) := by
  simp only [merge_eq_addAll, List.flatMap_append, List.flatMap_cons, addAll_append]
  rw [addAll_entries_addAll distinct_addAll_nil]

theorem keys_merge_pair [EquivBEq κ] (h : groups.Proper) (ha : added.Proper) :
    (merge [groups, added]).keys = groups.keys ++ added.keys.filter fun k => !groups.keys.any (· == k) := by
  have hentries : [groups, added].flatMap entries = groups.entries ++ added.entries := by simp
  have hcongr (k k' : κ) (hk : (k == k') = true) :
      (!groups.keys.any (· == k)) = !groups.keys.any (· == k') := by
    simp only [BEq.congr_right hk]
  rw [merge_eq_addAll, hentries, addAll_append, keys_addAll, keys_addAll_nil, h.eraseDups_entries, eraseDups_filter hcongr,
    ha.eraseDups_entries]

theorem size_append (k : κ) (elements : List β) (groups : Grouped κ β) :
    size (append k elements groups) = size groups + elements.length := by
  induction groups with
  | nil => simp [append, size]
  | cons group groups ih =>
    rw [append]
    split
    · simp only [size, List.length_append]
      omega
    · simp only [size, ih]
      omega

theorem size_addAll {l : List α} {key : α → κ} {elem : α → β} :
    (groups.addAll key elem l).size = groups.size + l.length := by
  induction l generalizing groups with
  | nil => rfl
  | cons a l ih =>
    change ((groups.add (key a) (elem a)).addAll key elem l).size = _
    rw [ih, add, size_append, List.length_singleton, List.length_cons]
    omega

omit [BEq κ] in
theorem length_entries : groups.entries.length = groups.size := by
  induction groups with
  | nil => rfl
  | cons group groups ih =>
    have hentries : entries (group :: groups) = group.2.map (group.1, ·) ++ entries groups := rfl
    rw [hentries, List.length_append, List.length_map, ih, size]

theorem size_merge [ReflBEq κ] (lists : List (Grouped κ β)) : (merge lists).size = (lists.map size).sum := by
  rw [merge_eq_addAll, size_addAll, size, Nat.zero_add, List.length_flatMap]
  simp only [length_entries]

omit [BEq κ] in
theorem size_eq_sum : groups.size = (groups.map (·.2.length)).sum := by
  induction groups with
  | nil => rfl
  | cons group groups ih => rw [size, ih, List.map_cons, List.sum_cons]

theorem Proper.size_eq_zero_iff (h : groups.Proper) : groups.size = 0 ↔ groups = [] := by
  cases groups with
  | nil => exact iff_of_true rfl rfl
  | cons group groups =>
    have hpos : 0 < group.2.length := List.length_pos_iff.2 (h.nonempty group List.mem_cons_self)
    refine iff_of_false ?_ (List.cons_ne_nil _ _)
    rw [size]
    omega

/-- Where distinct groups are as long as the parts of a list by their keys, and the keys cover the list, the groups
have as many elements as the list. -/
theorem Distinct.size_eq_length [EquivBEq κ] {l : List α} (key : α → κ) (h : groups.Distinct)
    (hlen : ∀ g ∈ groups, g.2.length = (l.filter (key · == g.1)).length)
    (hcover : ∀ a ∈ l, ∃ k ∈ groups.keys, (key a == k) = true) : groups.size = l.length := by
  induction groups generalizing l with
  | nil =>
    have hnil : l = [] := by
      apply List.eq_nil_iff_forall_not_mem.2
      intro a ha
      obtain ⟨k, hk, -⟩ := hcover a ha
      cases hk
    rw [hnil]
    rfl
  | cons group groups ih =>
    obtain ⟨hhead, hrest⟩ := List.pairwise_cons.1 h
    -- The first group takes its own part of the list, and the other groups cover what is left of it.
    have hothers : size groups = (l.filter fun a => !key a == group.1).length := by
      apply ih hrest
      · intro g hg
        rw [hlen g (List.mem_cons_of_mem _ hg), List.filter_filter]
        congr 1
        apply List.filter_congr
        intro a _
        cases hk : key a == g.1 with
        | false => rfl
        | true =>
          rw [BEq.congr_left hk, BEq.comm, hhead g.1 (List.mem_map_of_mem hg)]
          rfl
      · intro a ha
        obtain ⟨hal, hne⟩ := List.mem_filter.1 ha
        obtain ⟨k, hk, hkey⟩ := hcover a hal
        rcases List.mem_cons.1 hk with rfl | hk
        · rw [hkey] at hne
          cases hne
        · exact ⟨k, hk, hkey⟩
    have hsplit := List.length_eq_length_filter_add (l := l) (key · == group.1)
    rw [size, hlen group List.mem_cons_self, hothers]
    omega

end RuntimeRanges.Grouped
