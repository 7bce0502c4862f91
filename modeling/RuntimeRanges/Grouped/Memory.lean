import RuntimeRanges.Grouped

/-!
Groups that are kept in a memory of lists and tables, both known by their places. A table gives each of its keys the
place of a list; lists and tables can be used in several places at once, and change where something is added to them.
-/

namespace RuntimeRanges.Grouped

variable {κ α : Type} [BEq κ]

/-- Keys with the places of their lists. -/
abbrev Table (κ : Type) := List (κ × Nat)

def Table.find? (key : κ) : Table κ → Option Nat
  | [] => none
  | (k, place) :: entries => if k == key then some place else Table.find? key entries

theorem Table.ne_of_find?_eq_none {key : κ} {t : Table κ} (h : t.find? key = none) :
    ∀ k ∈ t.map Prod.fst, (k == key) = false := by
  induction t with
  | nil => exact fun _ hk => nomatch hk
  | cons e t ih =>
    rw [find?] at h
    split at h
    · cases h
    · next hne => exact List.forall_mem_cons.2 ⟨Bool.eq_false_iff.2 hne, ih h⟩

/-- The groups that a table stands for where lists have the given contents. -/
def Table.groups {κ : Type} (t : Table κ) (list : Nat → List α) : Grouped κ α :=
  t.map fun e => (e.1, list e.2)

/-- Lists and tables. The places that a table names are those of lists, and it has no key twice. -/
structure Memory (κ α : Type) [BEq κ] where
  lists : List (List α)
  tables : List (Table κ)
  inside : ∀ t ∈ tables, ∀ e ∈ t, e.2 < lists.length
  distinct : ∀ t ∈ tables, (t.map Prod.fst).Pairwise fun k k' => (k == k') = false

namespace Memory

def empty : Memory κ α where
  lists := []
  tables := []
  inside := fun _ ht => nomatch ht
  distinct := fun _ ht => nomatch ht

def list (m : Memory κ α) (place : Nat) : List α :=
  m.lists[place]?.getD []

def table (m : Memory κ α) (place : Nat) : Table κ :=
  m.tables[place]?.getD []

def groups (m : Memory κ α) (place : Nat) : Grouped κ α :=
  (m.table place).groups m.list

def addTable (m : Memory κ α) : Memory κ α where
  lists := m.lists
  tables := m.tables ++ [[]]
  inside := List.forall_mem_append.2 ⟨m.inside, List.forall_mem_singleton.2 fun _ he => nomatch he⟩
  distinct := List.forall_mem_append.2 ⟨m.distinct, List.forall_mem_singleton.2 .nil⟩

theorem table_addTable (m : Memory κ α) : m.addTable.table m.tables.length = [] := by
  rw [table, addTable, List.getElem?_append_right (Nat.le_refl _), Nat.sub_self]
  rfl

theorem table_cases (m : Memory κ α) (place : Nat) : m.table place ∈ m.tables ∨ m.table place = [] := by
  rw [table]
  cases h : m.tables[place]? with
  | none => exact .inr rfl
  | some t => exact .inl (List.mem_of_getElem? h)

theorem inside_table (m : Memory κ α) (place : Nat) : ∀ e ∈ m.table place, e.2 < m.lists.length := by
  rcases m.table_cases place with h | h
  · exact m.inside _ h
  · rw [h]
    exact fun _ he => nomatch he

theorem distinct_table (m : Memory κ α) (place : Nat) :
    ((m.table place).map Prod.fst).Pairwise fun k k' => (k == k') = false := by
  rcases m.table_cases place with h | h
  · exact m.distinct _ h
  · rw [h]
    exact .nil

/-- A new list for a key that a table does not have yet. -/
def addList (m : Memory κ α) (place : Nat) (key : κ) (h : (m.table place).find? key = none) : Memory κ α where
  lists := m.lists ++ [[]]
  tables := m.tables.set place (m.table place ++ [(key, m.lists.length)])
  inside := by
    have hold {t : Table κ} (ht : ∀ e ∈ t, e.2 < m.lists.length) : ∀ e ∈ t, e.2 < (m.lists ++ [[]]).length := by
      intro e he
      rw [List.length_append]
      exact Nat.lt_add_right _ (ht e he)
    intro t ht
    rcases List.mem_or_eq_of_mem_set ht with ht | rfl
    · exact hold (m.inside t ht)
    · refine List.forall_mem_append.2 ⟨hold (m.inside_table place), List.forall_mem_singleton.2 ?_⟩
      rw [List.length_append]
      exact Nat.lt_succ_self _
  distinct := by
    intro t ht
    rcases List.mem_or_eq_of_mem_set ht with ht | rfl
    · exact m.distinct t ht
    · rw [List.map_append, List.pairwise_append]
      refine ⟨m.distinct_table place, List.pairwise_singleton _ _, ?_⟩
      intro k hk k' hk'
      obtain rfl := List.mem_singleton.1 hk'
      exact Table.ne_of_find?_eq_none h k hk

theorem tables_addList (m : Memory κ α) (place : Nat) (key : κ) (h : (m.table place).find? key = none) :
    (m.addList place key h).tables = m.tables.set place (m.table place ++ [(key, m.lists.length)]) := rfl

theorem table_addList {m : Memory κ α} {place : Nat} {key : κ} (hplace : place < m.tables.length)
    (h : (m.table place).find? key = none) :
    (m.addList place key h).table place = m.table place ++ [(key, m.lists.length)] := by
  rw [table, tables_addList, List.getElem?_set_self hplace, Option.getD_some]

theorem list_addList (m : Memory κ α) (place : Nat) (key : κ) (h : (m.table place).find? key = none) :
    (m.addList place key h).list = m.list := by
  funext p
  change (m.lists ++ [[]])[p]?.getD [] = m.lists[p]?.getD []
  rcases Nat.lt_or_ge p m.lists.length with hp | hp
  · rw [List.getElem?_append_left hp]
  · rw [List.getElem?_append_right hp, List.getElem?_eq_none hp]
    cases p - m.lists.length <;> rfl

/-- The place of the list that a table has for a key, which is a new one where the key is new. -/
def claim (m : Memory κ α) (place : Nat) (key : κ) : Nat × Memory κ α :=
  match h : (m.table place).find? key with
  | some list => (list, m)
  | none => (m.lists.length, m.addList place key h)

theorem claim_of_find? {m : Memory κ α} {place list : Nat} {key : κ} (h : (m.table place).find? key = some list) :
    m.claim place key = (list, m) := by
  rw [claim]
  split
  · next h' =>
    rw [h, Option.some.injEq] at h'
    rw [h']
  · next h' =>
    rw [h] at h'
    cases h'

theorem claim_of_new {m : Memory κ α} {place : Nat} {key : κ} (h : (m.table place).find? key = none) :
    m.claim place key = (m.lists.length, m.addList place key h) := by
  rw [claim]
  split
  · next h' =>
    rw [h] at h'
    cases h'
  · rfl

def extendList (m : Memory κ α) (place : Nat) (added : List α) : Memory κ α where
  lists := m.lists.set place (m.list place ++ added)
  tables := m.tables
  inside := by
    rw [List.length_set]
    exact m.inside
  distinct := m.distinct

theorem list_extendList_self {m : Memory κ α} {place : Nat} (hplace : place < m.lists.length) (added : List α) :
    (m.extendList place added).list place = m.list place ++ added := by
  rw [list, extendList, List.getElem?_set_self hplace, Option.getD_some]

theorem list_extendList_of_ne {m : Memory κ α} {place other : Nat} (h : other ≠ place) (added : List α) :
    (m.extendList place added).list other = m.list other := by
  rw [list, extendList, List.getElem?_set_ne h.symm, list]

/-- Adds elements to the list that a table has for a key. -/
def extendKey (m : Memory κ α) (place : Nat) (key : κ) (added : List α) : Memory κ α :=
  let (list, m) := m.claim place key
  m.extendList list added

/-- Adds the list of an entry to a table, unless it is empty. -/
def collect (target : Nat) (m : Memory κ α) (entry : κ × Nat) : Memory κ α :=
  if (m.list entry.2).isEmpty then m else m.extendKey target entry.1 (m.list entry.2)

def collectTable (target : Nat) (m : Memory κ α) (source : Nat) : Memory κ α :=
  (m.table source).foldl (collect target) m

def merge (m : Memory κ α) (sources : List Nat) : Nat × Memory κ α :=
  (m.tables.length, sources.foldl (collectTable m.tables.length) m.addTable)

/-- Keeps groups in a new table. -/
def store (m : Memory κ α) (groups : Grouped κ α) : Memory κ α :=
  groups.foldl (fun m' (key, elements) => m'.extendKey m.tables.length key elements) m.addTable

end Memory

end RuntimeRanges.Grouped
