/-!
Cutting text: the rest after an expected beginning, and the pieces between separators; and putting texts
together with a separator between them.
-/

namespace RuntimeRanges.Text

def dropStart? {α : Type} [DecidableEq α] : List α → List α → Option (List α)
  | [], cs => some cs
  | _ :: _, [] => none
  | e :: expected, c :: cs => if e = c then dropStart? expected cs else none

theorem dropStart?_eq_some_iff {α : Type} [DecidableEq α] {expected cs rest : List α} :
    dropStart? expected cs = some rest ↔ cs = expected ++ rest := by
  induction expected generalizing cs with
  | nil => simp [dropStart?]
  | cons e expected ih =>
    cases cs with
    | nil => simp [dropStart?]
    | cons c cs =>
      by_cases h : e = c
      · simp [dropStart?, h, ih]
      · simp [dropStart?, h, Ne.symm h]

def consHead (c : Char) : List (List Char) → List (List Char)
  | [] => [[c]]
  | w :: ws => (c :: w) :: ws

/-- The pieces between the occurrences of a character; there is always at least one. -/
def splitAt (separator : Char) : List Char → List (List Char)
  | [] => [[]]
  | c :: cs => if c = separator then [] :: splitAt separator cs else consHead c (splitAt separator cs)

/-- The pieces between the occurrences of `||`, found from the left; there is always at least one. -/
def splitBars : List Char → List (List Char)
  | [] => [[]]
  | '|' :: '|' :: cs => [] :: splitBars cs
  | c :: cs => consHead c (splitBars cs)

def separated (separator : String) : List String → String
  | [] => ""
  | [s] => s
  | s :: t :: rest => s ++ separator ++ separated separator (t :: rest)

theorem consHead_ne_nil (c : Char) (ws : List (List Char)) : consHead c ws ≠ [] := by
  cases ws <;> simp [consHead]

end RuntimeRanges.Text
