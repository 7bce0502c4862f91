/-!
Lists grouped by a key. Groups stand in the order in which their keys first occurred, and each keeps the
order of what was added to it. Keys that are equal have one group, which is named by the first of them.
-/

namespace RuntimeRanges

abbrev Grouped (κ : Type) (α : Type) := List (κ × List α)

namespace Grouped

variable {κ α : Type} [BEq κ]

/-- Adds elements to the group of a key; a new key goes to the end. -/
def append (key : κ) (added : List α) : Grouped κ α → Grouped κ α
  | [] => [(key, added)]
  | (k, elements) :: groups =>
    if k == key then (k, elements ++ added) :: groups else (k, elements) :: append key added groups

def add (key : κ) (element : α) (groups : Grouped κ α) : Grouped κ α :=
  append key [element] groups

/-- Puts a group in the place of the one with its key; a new key goes to the end. -/
def put (key : κ) (elements : List α) : Grouped κ α → Grouped κ α
  | [] => [(key, elements)]
  | (k, present) :: groups =>
    if k == key then (k, elements) :: groups else (k, present) :: put key elements groups

def get (groups : Grouped κ α) (key : κ) : List α :=
  match groups with
  | [] => []
  | (k, elements) :: groups => if k == key then elements else get groups key

def keys (groups : Grouped κ α) : List κ :=
  groups.map Prod.fst

/-- Adds the groups that are not empty, one after the other. -/
def extend (groups added : Grouped κ α) : Grouped κ α :=
  added.foldl (fun gs (key, elements) => if elements.isEmpty then gs else append key elements gs) groups

/-- The groups of several lists of groups, those of one key put together. -/
def merge (lists : List (Grouped κ α)) : Grouped κ α :=
  lists.foldl extend []

def size : Grouped κ α → Nat
  | [] => 0
  | (_, elements) :: groups => elements.length + size groups

@[simp]
theorem get_append_self [ReflBEq κ] (key : κ) (added : List α) (groups : Grouped κ α) :
    get (append key added groups) key = get groups key ++ added := by
  induction groups with
  | nil => simp [append, get]
  | cons group groups ih =>
    cases h : group.1 == key <;> simp [append, get, h, ih]

theorem get_append_of_ne [EquivBEq κ] {key other : κ} (h : (key == other) = false) (added : List α)
    (groups : Grouped κ α) : get (append key added groups) other = get groups other := by
  induction groups with
  | nil => simp [append, get, h]
  | cons group groups ih =>
    cases hk : group.1 == key with
    | false => simp [append, get, hk, ih]
    | true => simp [append, get, hk, BEq.congr_left hk, h]

theorem get_congr [EquivBEq κ] {key other : κ} (h : key == other) (groups : Grouped κ α) :
    get groups key = get groups other := by
  induction groups with
  | nil => rfl
  | cons group groups ih => simp [get, BEq.congr_right h, ih]

theorem keys_append (key : κ) (added : List α) (groups : Grouped κ α) :
    keys (append key added groups) =
      if (keys groups).any (· == key) then keys groups else keys groups ++ [key] := by
  induction groups with
  | nil => simp [append, keys]
  | cons group groups ih =>
    cases h : group.1 == key with
    | true => simp [append, keys, h]
    | false =>
      have hany : (keys (group :: groups)).any (· == key) = (keys groups).any (· == key) := by
        simp [keys, h]
      rw [append, if_neg (by simp [h]), hany]
      change group.1 :: keys (append key added groups) = _
      rw [ih]
      split <;> rfl

end Grouped

end RuntimeRanges
