import Mathlib.Data.List.Nodup
import RuntimeRanges.Grouped.Memory
import RuntimeRanges.Problem
import RuntimeRanges.Proofs.Merge

/-!
Putting tables of a memory together gives the merged groups that they stand for. It changes none of the lists and
tables that are there before, however often they are used: what is added goes to a new table, whose lists are new.
-/

namespace RuntimeRanges.Grouped

variable {κ α : Type} [BEq κ]

namespace Table

theorem mem_of_find? {t : Table κ} {key : κ} {place : Nat} (h : t.find? key = some place) : place ∈ t.map Prod.snd := by
  induction t with
  | nil => cases h
  | cons e t ih =>
    rw [find?] at h
    split at h
    · cases h
      exact List.mem_cons_self
    · exact List.mem_cons_of_mem _ (ih h)

theorem find?_append_self [ReflBEq κ] {t : Table κ} {key : κ} (h : t.find? key = none) (place : Nat) :
    find? key (t ++ [(key, place)]) = some place := by
  induction t with
  | nil => rw [List.nil_append, find?, if_pos BEq.rfl]
  | cons e t ih =>
    rw [find?] at h
    rw [List.cons_append, find?]
    split at h
    · cases h
    · next hk => rw [if_neg hk, ih h]

variable {t : Table κ} {key : κ} {place : Nat} {list list' : Nat → List α} {added : List α}

omit [BEq κ] in
theorem groups_congr (h : ∀ e ∈ t, list' e.2 = list e.2) : t.groups list' = t.groups list :=
  List.map_congr_left fun e he => by rw [h e he]

theorem append_nil_groups_of_new (h : t.find? key = none) :
    append key [] (t.groups list) = t.groups list ++ [(key, [])] := by
  induction t with
  | nil => rfl
  | cons e t ih =>
    rw [find?] at h
    rw [groups, List.map_cons, append]
    split at h
    · cases h
    · next hk => rw [if_neg hk, ← groups, ih h, List.cons_append]

/-- Where the places of a table are different, a change at one of them adds to one key only. -/
theorem groups_eq_append (ht : (t.map Prod.snd).Nodup) (h : t.find? key = some place)
    (hplace : list' place = list place ++ added) (hother : ∀ p, p ≠ place → list' p = list p) :
    t.groups list' = append key added (t.groups list) := by
  induction t with
  | nil => cases h
  | cons e t ih =>
    rw [List.map_cons, List.nodup_cons] at ht
    rw [find?] at h
    rw [groups, groups, List.map_cons, List.map_cons, append, ← groups, ← groups]
    split at h
    · next hk =>
      cases h
      have hrest : Table.groups t list' = Table.groups t list :=
        groups_congr fun e' he' => hother e'.2 fun heq => ht.1 (heq ▸ List.mem_map_of_mem he')
      rw [if_pos hk, hplace, hrest]
    · next hk =>
      have hne : e.2 ≠ place := fun heq => ht.1 (heq ▸ mem_of_find? h)
      rw [if_neg hk, hother e.2 hne, ih ht.2 h]

end Table

namespace Memory

variable {m start : Memory κ α} {groups : Grouped κ α} {key : κ} {place list : Nat} {added : List α}

theorem list_of_prefix (h : start.lists <+: m.lists) (hplace : place < start.lists.length) :
    m.list place = start.list place := by
  obtain ⟨more, hmore⟩ := h
  rw [Memory.list, Memory.list, ← hmore, List.getElem?_append_left hplace]

theorem table_of_prefix (h : start.tables <+: m.tables) (hplace : place < start.tables.length) :
    m.table place = start.table place := by
  obtain ⟨more, hmore⟩ := h
  rw [Memory.table, Memory.table, ← hmore, List.getElem?_append_left hplace]

theorem prefix_set {β : Type} {l l' : List β} {i : Nat} (h : l <+: l') (hi : l.length ≤ i) (b : β) : l <+: l'.set i b := by
  obtain ⟨more, rfl⟩ := h
  rw [List.set_append_right _ _ hi]
  exact List.prefix_append _ _

/-- What putting tables together has made of a memory so far: the lists and tables that were there are as they were, and
the new table has new lists, of which no two keys share one, and stands for the given groups. -/
structure Building (start m : Memory κ α) (groups : Grouped κ α) : Prop where
  lists : start.lists <+: m.lists
  tables : ∃ t, m.tables = start.tables ++ [t]
  fresh : ∀ e ∈ m.table start.tables.length, start.lists.length ≤ e.2
  places : ((m.table start.tables.length).map Prod.snd).Nodup
  groups : m.groups start.tables.length = groups

theorem building_addTable (start : Memory κ α) : Building start start.addTable [] := by
  refine ⟨List.prefix_rfl, ⟨[], rfl⟩, ?_, ?_, ?_⟩
  · rw [table_addTable]
    exact List.forall_mem_nil _
  · rw [table_addTable]
    exact List.nodup_nil
  · rw [Memory.groups, table_addTable]
    rfl

theorem Building.table_lt (h : Building start m groups) : start.tables.length < m.tables.length := by
  obtain ⟨t, ht⟩ := h.tables
  rw [ht, List.length_append]
  exact Nat.lt_succ_self _

theorem Building.addList (h : Building start m groups) (hnew : (m.table start.tables.length).find? key = none) :
    Building start (m.addList start.tables.length key hnew) (append key [] groups) := by
  have htable := table_addList h.table_lt hnew
  refine ⟨h.lists.trans (List.prefix_append _ _), ?_, ?_, ?_, ?_⟩
  · obtain ⟨t, ht⟩ := h.tables
    refine ⟨m.table start.tables.length ++ [(key, m.lists.length)], ?_⟩
    rw [tables_addList, ht, List.set_append_right _ _ (Nat.le_refl _), Nat.sub_self]
    rfl
  · rw [htable]
    exact List.forall_mem_append.2 ⟨h.fresh, List.forall_mem_singleton.2 h.lists.length_le⟩
  · have hnot : m.lists.length ∉ (m.table start.tables.length).map Prod.snd := by
      intro hmem
      obtain ⟨e, he, heq⟩ := List.mem_map.1 hmem
      exact absurd heq (Nat.ne_of_lt (m.inside_table _ e he))
    rw [htable, List.map_append]
    exact h.places.append (List.nodup_singleton _) (List.disjoint_singleton.2 hnot)
  · have hempty : m.list m.lists.length = [] := by
      rw [Memory.list, List.getElem?_eq_none (Nat.le_refl _)]
      rfl
    rw [Memory.groups, htable, list_addList, ← h.groups, Memory.groups, Table.append_nil_groups_of_new hnew,
      Table.groups, List.map_append, List.map_singleton, hempty]
    rfl

theorem Building.extendList (h : Building start m groups) (hkey : (m.table start.tables.length).find? key = some list)
    (added : List α) : Building start (m.extendList list added) (append key added groups) := by
  have hmem := Table.mem_of_find? hkey
  obtain ⟨e, he, rfl⟩ := List.mem_map.1 hmem
  refine ⟨prefix_set h.lists (h.fresh e he) _, h.tables, h.fresh, h.places, ?_⟩
  rw [← h.groups]
  exact Table.groups_eq_append h.places hkey (list_extendList_self (m.inside_table _ e he) added)
    fun p hp => list_extendList_of_ne hp added

theorem Building.extendKey [ReflBEq κ] (h : Building start m groups) (key : κ) (added : List α) :
    Building start (m.extendKey start.tables.length key added) (append key added groups) := by
  rw [Memory.extendKey]
  cases hfind : (m.table start.tables.length).find? key with
  | some list =>
    rw [claim_of_find? hfind]
    exact h.extendList hfind added
  | none =>
    have hkey :
        ((m.addList start.tables.length key hfind).table start.tables.length).find? key = some m.lists.length := by
      rw [table_addList h.table_lt hfind, Table.find?_append_self hfind]
    rw [claim_of_new hfind, ← List.nil_append added, ← append_append]
    exact (h.addList hfind).extendList hkey added

/-- One entry: its list is added to the new table unless it is empty. -/
theorem Building.collect [ReflBEq κ] (h : Building start m groups) {e : κ × Nat} (he : e.2 < start.lists.length) :
    Building start (m.collect start.tables.length e)
      (if (start.list e.2).isEmpty then groups else append e.1 (start.list e.2) groups) := by
  rw [Memory.collect, list_of_prefix h.lists he]
  split
  · exact h
  · exact h.extendKey e.1 _

theorem Building.foldl_collect [ReflBEq κ] {t : Table κ} (h : Building start m groups)
    (ht : ∀ e ∈ t, e.2 < start.lists.length) :
    Building start (t.foldl (Memory.collect start.tables.length) m) (groups.extend (t.groups start.list)) := by
  induction t generalizing m groups with
  | nil => exact h
  | cons e t ih =>
    rw [List.forall_mem_cons] at ht
    exact ih (h.collect ht.1) ht.2

theorem Building.collectTable [ReflBEq κ] {source : Nat} (h : Building start m groups)
    (hsource : source < start.tables.length) :
    Building start (m.collectTable start.tables.length source) (groups.extend (start.groups source)) := by
  obtain ⟨t, ht⟩ := h.tables
  rw [Memory.collectTable, table_of_prefix ⟨[t], ht.symm⟩ hsource]
  exact h.foldl_collect (start.inside_table source)

theorem Building.foldl_collectTable [ReflBEq κ] {sources : List Nat} (h : Building start m groups)
    (hsources : ∀ s ∈ sources, s < start.tables.length) :
    Building start (sources.foldl (Memory.collectTable start.tables.length) m)
      ((sources.map start.groups).foldl Grouped.extend groups) := by
  induction sources generalizing m groups with
  | nil => exact h
  | cons s sources ih =>
    rw [List.forall_mem_cons] at hsources
    exact ih (h.collectTable hsources.1) hsources.2

/-- Tables are put together in a new one, with new lists, that stands for their merged groups. -/
theorem building_merge [ReflBEq κ] {sources : List Nat} (hsources : ∀ s ∈ sources, s < m.tables.length) :
    Building m (m.merge sources).2 (Grouped.merge (sources.map m.groups)) :=
  (building_addTable m).foldl_collectTable hsources

def merged (m : Memory κ α) (sources : List Nat) : Grouped κ α :=
  (m.merge sources).2.groups (m.merge sources).1

variable {sources : List Nat}

theorem merged_eq [ReflBEq κ] (h : ∀ s ∈ sources, s < m.tables.length) :
    m.merged sources = Grouped.merge (sources.map m.groups) :=
  (building_merge h).groups

theorem tables_prefix_merge [ReflBEq κ] (h : ∀ s ∈ sources, s < m.tables.length) :
    m.tables <+: (m.merge sources).2.tables := by
  obtain ⟨t, ht⟩ := (building_merge h).tables
  exact ⟨[t], ht.symm⟩

theorem groups_merge_of_lt [ReflBEq κ] (h : ∀ s ∈ sources, s < m.tables.length) {place : Nat}
    (hplace : place < m.tables.length) : (m.merge sources).2.groups place = m.groups place := by
  rw [Memory.groups, table_of_prefix (tables_prefix_merge h) hplace]
  exact Table.groups_congr fun e he => list_of_prefix (building_merge h).lists (m.inside_table place e he)

theorem distinct_groups (m : Memory κ α) (place : Nat) : (m.groups place).Distinct := by
  rw [Distinct, keys, Memory.groups, Table.groups, List.map_map]
  exact m.distinct_table place

/-- Some of the tables can be put together before the others. -/
theorem merged_nested [EquivBEq κ] {before inner after : List Nat} (hbefore : ∀ s ∈ before, s < m.tables.length)
    (hinner : ∀ s ∈ inner, s < m.tables.length) (hafter : ∀ s ∈ after, s < m.tables.length) :
    (m.merge inner).2.merged (before ++ (m.merge inner).1 :: after) = m.merged (before ++ inner ++ after) := by
  have hlt : (m.merge inner).1 < (m.merge inner).2.tables.length := (building_merge hinner).table_lt
  have hin {places : List Nat} (h : ∀ s ∈ places, s < m.tables.length) :
      ∀ s ∈ places, s < (m.merge inner).2.tables.length :=
    fun s hs => Nat.lt_trans (h s hs) hlt
  have hold {places : List Nat} (h : ∀ s ∈ places, s < m.tables.length) :
      places.map (m.merge inner).2.groups = places.map m.groups :=
    List.map_congr_left fun s hs => groups_merge_of_lt hinner (h s hs)
  have hnew : (m.merge inner).2.groups (m.merge inner).1 = Grouped.merge (inner.map m.groups) := merged_eq hinner
  calc
    (m.merge inner).2.merged (before ++ (m.merge inner).1 :: after)
      = Grouped.merge (before.map m.groups ++ Grouped.merge (inner.map m.groups) :: after.map m.groups) := by
        rw [merged_eq (List.forall_mem_append.2 ⟨hin hbefore, List.forall_mem_cons.2 ⟨hlt, hin hafter⟩⟩),
          List.map_append, List.map_cons, hold hbefore, hold hafter, hnew]
    _ = Grouped.merge (before.map m.groups ++ inner.map m.groups ++ after.map m.groups) := merge_append_merge _ _ _
    _ = m.merged (before ++ inner ++ after) := by
        rw [← List.map_append, ← List.map_append,
          merged_eq (List.forall_mem_append.2 ⟨List.forall_mem_append.2 ⟨hbefore, hinner⟩, hafter⟩)]

theorem merged_eq_map [EquivBEq κ] (h : ∀ s ∈ sources, s < m.tables.length) :
    m.merged sources =
      (((sources.flatMap m.groups).filter fun g => !g.2.isEmpty).map Prod.fst).eraseDups.map fun k =>
        (k, sources.flatMap fun s => (m.groups s).get k) := by
  have hdistinct : ∀ groups ∈ sources.map m.groups, groups.Distinct := by
    intro groups hg
    obtain ⟨s, -, rfl⟩ := List.mem_map.1 hg
    exact m.distinct_groups s
  rw [merged_eq h, merge_eq_map hdistinct, ← List.flatMap_def]
  simp only [List.flatMap_map]

/-- Problems of definitions are put together table by table. No list or table that is there is changed, however often
it is used, and of three tables any two that stand next to each other can be put together first. -/
theorem problems_merge (m : Memory Identity Problem) {sources : List Nat} (h : ∀ s ∈ sources, s < m.tables.length) :
    (m.lists <+: (m.merge sources).2.lists ∧ m.tables <+: (m.merge sources).2.tables) ∧
      m.merged sources =
        (((sources.flatMap m.groups).filter fun g => !g.2.isEmpty).map Prod.fst).eraseDups.map (fun k =>
          (k, sources.flatMap fun s => (m.groups s).get k)) ∧
      ∀ a b c, a < m.tables.length → b < m.tables.length → c < m.tables.length →
        (m.merge [a, b]).2.merged [(m.merge [a, b]).1, c] = m.merged [a, b, c] ∧
          (m.merge [b, c]).2.merged [a, (m.merge [b, c]).1] = m.merged [a, b, c] := by
  refine ⟨⟨(building_merge h).lists, tables_prefix_merge h⟩, merged_eq_map h, ?_⟩
  intro a b c ha hb hc
  have hone {s : Nat} (hs : s < m.tables.length) : ∀ s' ∈ [s], s' < m.tables.length := List.forall_mem_singleton.2 hs
  have htwo {s s' : Nat} (hs : s < m.tables.length) (hs' : s' < m.tables.length) : ∀ p ∈ [s, s'], p < m.tables.length :=
    List.forall_mem_cons.2 ⟨hs, hone hs'⟩
  constructor
  · have hfirst := merged_nested (List.forall_mem_nil _) (htwo ha hb) (hone hc)
    rwa [List.nil_append, List.nil_append, List.cons_append, List.cons_append, List.nil_append] at hfirst
  · have hlast := merged_nested (hone ha) (htwo hb hc) (List.forall_mem_nil _)
    rwa [List.append_nil, List.singleton_append, List.singleton_append] at hlast

/-- Two tables with the same list for one key; the first of them has an empty list for the other key. -/
def sharing (p q : Problem) : Memory Identity Problem :=
  let a : Identity := ⟨.text "a", .text "1", rfl, rfl⟩
  let b : Identity := ⟨.text "b", .text "1", rfl, rfl⟩
  ⟨[[p], [], [q, p]], [[(b, 1), (a, 0)], [(b, 2), (a, 0)]],
    by simp only [List.forall_mem_cons, List.length_cons, List.length_nil]; decide, by decide⟩

/-- The first table is used twice, and with it the list that both tables have. -/
theorem problems_merge_sharing :
    let p := Problem.unreadable ⟨.text "1.x", .nonsensical⟩
    let q := Problem.unreadable ⟨.text "2.x", .nonsensical⟩
    let m := sharing p q
    (∀ s ∈ [0, 1, 0], s < m.tables.length) ∧
      m.lists <+: (m.merge [0, 1, 0]).2.lists ∧
      m.merged [0, 1, 0] =
        [(⟨.text "a", .text "1", rfl, rfl⟩, [p, p, p]), (⟨.text "b", .text "1", rfl, rfl⟩, [q, p])] ∧
      (m.merge [0, 1]).2.merged [2, 0] = m.merged [0, 1, 0] := by
  intro p q m
  have hin : ∀ s ∈ [0, 1, 0], s < m.tables.length := by decide
  obtain ⟨⟨hlists, -⟩, hgroups, hnested⟩ := problems_merge m hin
  refine ⟨hin, hlists, ?_, (hnested 0 1 0 (by decide) (by decide) (by decide)).1⟩
  rw [hgroups]
  decide +kernel

end Memory

end RuntimeRanges.Grouped
