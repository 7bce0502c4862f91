import RuntimeRanges.Grouped

/-!
Grouping the elements of a list: there is one group for each key that occurs, in the order in which the keys
first occur, and it holds the elements with this key in their order.
-/

namespace RuntimeRanges.Grouped

variable {κ α β : Type} [BEq κ]

def Distinct (groups : Grouped κ β) : Prop :=
  groups.keys.Pairwise fun k k' => (k == k') = false

theorem Distinct.append [EquivBEq κ] {groups : Grouped κ β} (h : groups.Distinct) (key : κ) (added : List β) :
    (append key added groups).Distinct := by
  rw [Distinct, keys_append]
  split
  · exact h
  · next hany =>
    rw [List.pairwise_append]
    refine ⟨h, List.pairwise_singleton _ _, ?_⟩
    intro k hk k' hk'
    rw [List.mem_singleton.1 hk']
    simp only [List.any_eq_true, not_exists, not_and, Bool.not_eq_true] at hany
    exact hany k hk

theorem Distinct.eq_map_keys [EquivBEq κ] {groups : Grouped κ β} (h : groups.Distinct) :
    groups = groups.keys.map fun k => (k, groups.get k) := by
  induction groups with
  | nil => rfl
  | cons group groups ih =>
    obtain ⟨k, elements⟩ := group
    obtain ⟨hk, hrest⟩ := List.pairwise_cons.1 h
    have hmap : (keys groups).map (fun k' => (k', get ((k, elements) :: groups) k')) =
        (keys groups).map fun k' => (k', get groups k') := by
      apply List.map_congr_left
      intro k' hk'
      rw [get, hk k' hk']
      rfl
    change _ = (k, get ((k, elements) :: groups) k) :: (keys groups).map _
    rw [hmap, ← ih hrest, get, BEq.rfl]
    rfl

theorem mem_of_mem_get {groups : Grouped κ β} {k : κ} {b : β} (h : b ∈ groups.get k) :
    ∃ g ∈ groups, (g.1 == k) = true ∧ b ∈ g.2 := by
  induction groups with
  | nil => cases h
  | cons group groups ih =>
    obtain ⟨k', elements⟩ := group
    rw [get] at h
    cases hk : k' == k with
    | true =>
      rw [hk] at h
      exact ⟨(k', elements), List.mem_cons_self, hk, h⟩
    | false =>
      rw [hk] at h
      obtain ⟨g, hg, hgk, hb⟩ := ih h
      exact ⟨g, List.mem_cons_of_mem _ hg, hgk, hb⟩

theorem Distinct.get_of_mem [EquivBEq κ] {groups : Grouped κ β} (h : groups.Distinct) {g : κ × List β}
    (hg : g ∈ groups) {k : κ} (hk : (g.1 == k) = true) : groups.get k = g.2 := by
  induction groups with
  | nil => cases hg
  | cons group groups ih =>
    obtain ⟨hhead, hrest⟩ := List.pairwise_cons.1 h
    rcases List.mem_cons.1 hg with rfl | hg
    · rw [get, if_pos hk]
    · have hne : (group.1 == k) = false := by
        rw [← BEq.congr_right hk]
        exact hhead g.1 (List.mem_map_of_mem hg)
      rw [get, if_neg (by simp [hne]), ih hrest hg]

theorem get_filter_self (groups : Grouped κ β) (k : κ) : get (groups.filter (·.1 == k)) k = groups.get k := by
  induction groups with
  | nil => rfl
  | cons group groups ih =>
    rw [List.filter_cons, get]
    split
    · next hk => rw [get, if_pos hk]
    · exact ih

variable (key : α → κ) (elem : α → β)

/-- Adds the elements of a list to groups, one after the other. -/
def addAll (groups : Grouped κ β) (l : List α) : Grouped κ β :=
  l.foldl (fun gs a => gs.add (key a) (elem a)) groups

variable {groups : Grouped κ β} {l : List α} {key elem}

theorem Distinct.addAll [EquivBEq κ] (h : groups.Distinct) : (groups.addAll key elem l).Distinct := by
  induction l generalizing groups with
  | nil => exact h
  | cons a l ih => exact ih (h.append (key a) [elem a])

theorem get_addAll [EquivBEq κ] (k : κ) :
    (groups.addAll key elem l).get k = groups.get k ++ (l.filter (key · == k)).map elem := by
  induction l generalizing groups with
  | nil => simp [Grouped.addAll]
  | cons a l ih =>
    change ((groups.add (key a) (elem a)).addAll key elem l).get k = _
    rw [ih]
    cases hk : key a == k with
    | true =>
      rw [← get_congr hk, add, get_append_self, get_congr hk]
      simp [hk]
    | false =>
      rw [add, get_append_of_ne hk]
      simp [hk]

theorem keys_addAll [EquivBEq κ] :
    (groups.addAll key elem l).keys =
      groups.keys ++ ((l.map key).filter fun k => !groups.keys.any (· == k)).eraseDups := by
  induction l generalizing groups with
  | nil => simp [Grouped.addAll]
  | cons a l ih =>
    change ((groups.add (key a) (elem a)).addAll key elem l).keys = _
    rw [ih, add, keys_append, List.map_cons]
    cases hany : groups.keys.any (· == key a) with
    | true => rw [if_pos rfl, List.filter_cons_of_neg (by simp [hany])]
    | false =>
      have hfilter : ((l.map key).filter fun k => !(groups.keys ++ [key a]).any (· == k)) =
          ((l.map key).filter fun k => !groups.keys.any (· == k)).filter fun k => !k == key a := by
        rw [List.filter_filter]
        apply List.filter_congr
        intro k _
        rw [List.any_append, Bool.not_or, Bool.and_comm, List.any_cons, List.any_nil, Bool.or_false,
          BEq.comm (a := key a)]
      rw [if_neg (by simp), List.filter_cons_of_pos (by simp [hany]), List.eraseDups_cons, hfilter,
        List.append_assoc, List.singleton_append]

theorem distinct_addAll_nil [EquivBEq κ] : Distinct (addAll key elem [] l) :=
  Distinct.addAll List.Pairwise.nil

theorem keys_addAll_nil [EquivBEq κ] : (addAll key elem [] l).keys = (l.map key).eraseDups := by
  rw [keys_addAll]
  change [] ++ ((l.map key).filter fun _ => true).eraseDups = _
  rw [List.filter_eq_self.2 fun _ _ => rfl, List.nil_append]

theorem addAll_nil_eq [EquivBEq κ] :
    addAll key elem [] l = (l.map key).eraseDups.map fun k => (k, (l.filter (key · == k)).map elem) := by
  rw [distinct_addAll_nil.eq_map_keys, keys_addAll_nil]
  apply List.map_congr_left
  intro k _
  rw [get_addAll, get, List.nil_append]

theorem pairwise_eraseDups [EquivBEq κ] (l : List κ) : l.eraseDups.Pairwise fun k k' => (k == k') = false := by
  have hd : Distinct (addAll id (fun _ => ()) [] l) := distinct_addAll_nil
  rwa [Distinct, keys_addAll_nil, List.map_id] at hd

omit [BEq κ] in
@[simp]
theorem keys_map_mk (l : List κ) (f : κ → List β) : keys (l.map fun k => (k, f k)) = l := by
  rw [keys, List.map_map]
  exact List.map_id l

/-- Induction over a list from which repetitions are taken out one key after the other. -/
theorem eraseDups_induction {motive : List κ → Prop} (nil : motive [])
    (cons : ∀ k l, motive (l.filter fun b => !b == k) → motive (k :: l)) : ∀ l, motive l
  | [] => nil
  | k :: l => by
    have hlen : (l.filter fun b => !b == k).length < l.length + 1 :=
      Nat.lt_succ_of_le (List.length_filter_le ..)
    exact cons k l (eraseDups_induction nil cons _)
termination_by l => l.length

theorem eraseDups_of_pairwise [EquivBEq κ] {l : List κ} (h : l.Pairwise fun k k' => (k == k') = false) :
    l.eraseDups = l := by
  induction l with
  | nil => rfl
  | cons k l ih =>
    obtain ⟨hhead, hrest⟩ := List.pairwise_cons.1 h
    have hothers : l.filter (fun k' => !k' == k) = l := by
      apply List.filter_eq_self.2
      intro k' hk'
      rw [BEq.comm, hhead k' hk']
      rfl
    rw [List.eraseDups_cons, hothers, ih hrest]

theorem mem_of_mem_eraseDups {k : κ} {l : List κ} (h : k ∈ l.eraseDups) : k ∈ l := by
  induction l using eraseDups_induction with
  | nil => cases h
  | cons k' l ih =>
    rw [List.eraseDups_cons, List.mem_cons] at h
    rw [List.mem_cons]
    exact h.imp_right fun h => (List.mem_filter.1 (ih h)).1

theorem exists_mem_eraseDups [EquivBEq κ] {k : κ} {l : List κ} (h : k ∈ l) :
    ∃ k' ∈ l.eraseDups, (k' == k) = true := by
  induction l using eraseDups_induction with
  | nil => cases h
  | cons k' l ih =>
    rw [List.eraseDups_cons]
    cases hk : k' == k with
    | true => exact ⟨k', List.mem_cons_self, hk⟩
    | false =>
      have hne : (k == k') = false := by rw [BEq.comm, hk]
      have hl : k ∈ l := by
        rcases List.mem_cons.1 h with rfl | h
        · rw [BEq.rfl] at hk
          cases hk
        · exact h
      obtain ⟨k'', hmem, heq⟩ := ih (List.mem_filter.2 ⟨hl, by rw [hne]; rfl⟩)
      exact ⟨k'', List.mem_cons_of_mem _ hmem, heq⟩

theorem eraseDups_filter [EquivBEq κ] {p : κ → Bool} (hp : ∀ k k', (k == k') = true → p k = p k') (l : List κ) :
    (l.filter p).eraseDups = l.eraseDups.filter p := by
  induction l using eraseDups_induction with
  | nil => rfl
  | cons k l ih =>
    rw [List.eraseDups_cons, List.filter_cons, List.filter_cons]
    cases hk : p k with
    | true =>
      rw [if_pos rfl, if_pos rfl, List.eraseDups_cons, ← ih, List.filter_filter, List.filter_filter]
      simp only [Bool.and_comm]
    | false =>
      have hfilter : (l.filter fun b => !b == k).filter p = l.filter p := by
        rw [List.filter_filter]
        apply List.filter_congr
        intro b _
        cases hb : b == k with
        | true => rw [hp b k hb, hk]; rfl
        | false => simp
      rw [if_neg (by simp), if_neg (by simp), ← ih, hfilter]

end RuntimeRanges.Grouped
