import RuntimeRanges.Proofs.Outcome
import RuntimeRanges.Proofs.Version.Record
import RuntimeRanges.Proofs.Version.Reduction

/-!
An edit of a version's record is the edit of the version: the checks of the fields refuse exactly what makes no version.
A reduction is announced with both versions in writing, so for it all numbers have to be such that they can be written.
-/

namespace RuntimeRanges

namespace Version

variable {v w : Version}

/-! ### The checks of records are those of versions -/

theorem wellFormed_cellOf (comp : Component) : (cellOf comp).WellFormed := by
  cases comp with
  | number n => exact Int.natCast_nonneg n
  | wildcard => trivial

theorem cellOf_injective : Function.Injective cellOf := by
  intro comp comp' h
  cases comp with
  | wildcard =>
    cases comp' with
    | wildcard => rfl
    | number n => cases h
  | number n =>
    cases comp' with
    | wildcard => cases h
    | number m => exact congrArg Component.number (Int.ofNat.inj (Cell.integer.inj h))

theorem cellsOf_injective : Function.Injective cellsOf := by
  intro p q h
  obtain ⟨hmajor, hminor, hpatch⟩ := Cells.mk.inj h
  obtain ⟨major, minor, patch⟩ := p
  obtain ⟨major', minor', patch'⟩ := q
  rw [Parts.mk.injEq]
  exact ⟨cellOf_injective hmajor, cellOf_injective hminor, cellOf_injective hpatch⟩

theorem operatorOf_ne_empty (side : Side) : operatorOf (some side) ≠ "" := by
  cases side <;> decide

theorem operatorOf_injective : Function.Injective operatorOf := by
  intro side? side?' h
  cases side? with
  | none =>
    cases side?' with
    | none => rfl
    | some side' => exact absurd h.symm (operatorOf_ne_empty side')
  | some side =>
    cases side?' with
    | none => exact absurd h (operatorOf_ne_empty side)
    | some side' => revert h; cases side <;> cases side' <;> decide

theorem operatorOf_mem (side? : Option Side) : operatorOf side? ∈ ["", ">=", "<="] := by
  cases side? with
  | none => decide
  | some side => cases side <;> decide

theorem readOperator_operatorOf (side? : Option Side) : readOperator (.text (operatorOf side?)) = .ok side? := by
  cases side? with
  | none => rfl
  | some side => cases side <;> rfl

theorem ofDocument_cell (value : Document) : Cell.ofDocument value = (Component.ofDocument value).map cellOf := by
  cases value with
  | scalar s =>
    cases s with
    | text s =>
      rw [Cell.ofDocument, Component.ofDocument]
      split <;> rfl
    | int n =>
      change Cell.check (.integer n) = (Component.concrete (.int n)).map cellOf
      rw [Cell.check, Component.concrete]
      split
      · rfl
      · next h =>
        change Except.ok (Cell.integer n) = .ok (Cell.integer n.toNat)
        rw [Int.toNat_of_nonneg (Int.not_lt.1 h)]
    | _ => rfl
  | _ => rfl

theorem readOperator_of_unknown {s : String} (h : s ∉ ["", ">=", "<="]) :
    readOperator (.text s) = .error (.unknownOperator (.text s)) := by
  rw [readOperator.eq_def]
  split <;> simp_all

theorem checkOperator_eq (operator : Document) :
    Record.checkOperator operator = (readOperator operator).map operatorOf := by
  cases operator with
  | scalar s =>
    cases s with
    | text s =>
      by_cases h : s ∈ ["", ">=", "<="]
      · simp only [List.mem_cons, List.not_mem_nil, or_false] at h
        obtain rfl | rfl | rfl := h <;> rfl
      · rw [readOperator_of_unknown h, Record.checkOperator, if_neg (mt List.contains_iff_mem.1 h)]
        rfl
    | _ => rfl
  | _ => rfl

@[simp]
theorem fields_record (v : Version) : v.record.fields = ⟨operatorOf v.side?, cellsOf v.parts⟩ := by
  cases v <;> rfl

@[simp]
theorem bound?_record (v : Version) : v.record.bound? = (v.second?.map limit).map record := by
  cases v <;> rfl

/-- The checks of a record's fields refuse what makes no version. -/
theorem make_eq (operator : Document) (p : Parts) (bound : Option Version) :
    Record.make operator (cellsOf p) (bound.map record) =
      (readOperator operator >>= fun side? => assemble side? p bound).map record := by
  rw [Record.make, checkOperator_eq]
  cases readOperator operator with
  | error e => rfl
  | ok side? =>
    cases bound with
    | none => cases side? <;> rfl
    | some b =>
      cases side? with
      | none => rfl
      | some side =>
        change (if operatorOf (some side) = "" then _ else _) = _
        rw [if_neg (operatorOf_ne_empty side)]
        -- Only a limit has an operator that is not known here, so only its test does not evaluate.
        cases b with
        | exact q => rfl
        | pair l u => rfl
        | limit l =>
          change (if operatorOf (some l.side) = "" then _ else _) = _
          rw [if_neg (operatorOf_ne_empty l.side)]
          rfl

theorem wellFormed_record (v : Version) : v.record.WellFormed := by
  have hfields (side? : Option Side) (p : Parts) : Fields.WellFormed ⟨operatorOf side?, cellsOf p⟩ :=
    ⟨operatorOf_mem side?, wellFormed_cellOf _, wellFormed_cellOf _, wellFormed_cellOf _⟩
  refine ⟨?_, ?_⟩
  · rw [fields_record]
    exact hfields _ _
  · intro b hb
    cases v with
    | exact p => cases hb
    | limit l => cases hb
    | pair l u =>
      cases hb
      exact ⟨operatorOf_ne_empty l.side, hfields _ _, operatorOf_ne_empty u.side, rfl⟩

/-! ### The edits of records are those of versions -/

theorem dropBound_record (v : Version) : v.record.dropBound = .ok v.first.record := by
  cases v with
  | exact p => rfl
  | limit l => rfl
  | pair l u =>
    change Record.make (.text (operatorOf (some l.side))) (cellsOf l.parts) (Option.map record none) = _
    rw [make_eq, readOperator_operatorOf]
    rfl

theorem cells_set (p : Parts) (slot : Slot) (comp : Component) :
    (cellsOf p).set slot (cellOf comp) = cellsOf (p.set slot comp) := by
  cases slot <;> rfl

theorem replacePart_record (v : Version) (name : String) (value : Document) :
    v.record.replacePart name value = (v.replacePart name value).map record := by
  rw [Record.replacePart, replacePart]
  cases Slot.ofName? name with
  | none => rfl
  | some slot =>
    dsimp only
    rw [ofDocument_cell]
    cases Component.ofDocument value with
    | error e => rfl
    | ok comp =>
      change Record.make (.text v.record.fields.operator) (v.record.fields.cells.set slot (cellOf comp)) v.record.bound? = _
      rw [fields_record, bound?_record, cells_set, make_eq, readOperator_operatorOf]
      cases v <;> rfl

theorem replaceOperator_record (v : Version) (operator : Document) :
    Record.make operator v.record.fields.cells v.record.bound? = (v.replaceOperator operator).map record := by
  rw [fields_record, bound?_record, make_eq, replaceOperator]

theorem replaceBound_record (v : Version) (bound : Option Version) :
    Record.make (.text v.record.fields.operator) v.record.fields.cells (bound.map record) =
      (v.replaceBound bound).map record := by
  rw [fields_record, make_eq, readOperator_operatorOf, replaceBound]
  rfl

theorem ofCells_record (operator major minor patch : Document) (bound : Option Version) :
    Description.buildRecord.ofCells operator major minor patch (bound.map record) =
      ((ofDocuments operator major minor patch bound).mapError .refused).map record := by
  rw [Description.buildRecord.ofCells, ofDocument_cell, ofDocument_cell, ofDocument_cell, ofDocuments]
  cases Component.ofDocument major with
  | error e => rfl
  | ok major =>
    cases Component.ofDocument minor with
    | error e => rfl
    | ok minor =>
      cases Component.ofDocument patch with
      | error e => rfl
      | ok patch =>
        change (Record.make operator (cellsOf ⟨major, minor, patch⟩) (bound.map record)).mapError _ = _
        rw [make_eq]
        change (Except.map record (readOperator operator >>= _)).mapError _ =
          ((readOperator operator >>= fun side? => assemble side? ⟨major, minor, patch⟩ bound).mapError _).map record
        cases readOperator operator >>= fun side? => assemble side? ⟨major, minor, patch⟩ bound <;> rfl

theorem buildRecord_eq (d : Description) : d.buildRecord = d.build.map record := by
  -- A bound is built before what it bounds, so the induction is on the nesting of bounds.
  induction d using Description.build.induct with
  | case1 s =>
    rw [Description.buildRecord, Description.build]
    cases Version.read s <;> rfl
  | case2 s =>
    rw [Description.buildRecord, Description.build]
    cases Version.readTarget s <;> rfl
  | case3 operator major minor patch => exact ofCells_record operator major minor patch none
  | case4 operator major minor patch bound ih =>
    rw [Description.buildRecord, Description.build, ih]
    cases bound.build with
    | error e => rfl
    | ok b => exact ofCells_record operator major minor patch (some b)

/-! ### Limits are compared by the ranks of their cells -/

def Rank.compare (r s : Rank) : Ordering :=
  if r ≠ s then if r.isBefore s then .lt else .gt else .eq

theorem Rank.compare_self (r : Rank) : r.compare r = .eq :=
  if_neg (not_not_intro rfl)

theorem Rank.compare_of_lt {m n : Int} (h : m < n) : (finite m).compare (finite n) = .lt := by
  rw [compare, if_pos (by simpa using Int.ne_of_lt h), isBefore, if_pos (decide_eq_true h)]

theorem Rank.compare_of_gt {m n : Int} (h : n < m) : (finite m).compare (finite n) = .gt := by
  rw [compare, if_pos (by simpa using Int.ne_of_gt h), isBefore, if_neg (by simpa using Int.le_of_lt h)]

theorem Cells.go_cons (r : Rank) (c d : Cell) (rest : List (Cell × Cell)) :
    Cells.compare.go r ((c, d) :: rest) = ((c.rank r).compare (d.rank r)).then (Cells.compare.go r rest) := by
  rw [Cells.compare.go, Rank.compare]
  split
  · split <;> rfl
  · rfl

def wildcardRank : Side → Rank
  | .atLeast => .finite (-1)
  | .atMost => .infinite

theorem wildcardRank_eq (side : Side) :
    (if operatorOf (some side) = "<=" then .infinite else .finite (-1)) = wildcardRank side := by
  cases side <;> rfl

theorem compare_rank_cellOf (side : Side) (comp comp' : Component) :
    ((cellOf comp).rank (wildcardRank side)).compare ((cellOf comp').rank (wildcardRank side)) =
      side.compareComponents comp comp' := by
  have hlow (n : Nat) : (-1 : Int) < n := by omega
  cases comp with
  | number m =>
    cases comp' with
    | number n =>
      obtain h | rfl | h := Nat.lt_trichotomy m n
      · exact (Rank.compare_of_lt (Int.ofNat_lt.2 h)).trans (Nat.compare_eq_lt.2 h).symm
      · exact (Rank.compare_self _).trans (Nat.compare_eq_eq.2 rfl).symm
      · exact (Rank.compare_of_gt (Int.ofNat_lt.2 h)).trans (Nat.compare_eq_gt.2 h).symm
    | wildcard =>
      cases side with
      | atLeast => exact Rank.compare_of_gt (hlow m)
      | atMost => rfl
  | wildcard =>
    cases comp' with
    | number n =>
      cases side with
      | atLeast => exact Rank.compare_of_lt (hlow n)
      | atMost => rfl
    | wildcard => exact Rank.compare_self _

theorem compare_cellsOf (side : Side) (p q : Parts) :
    (cellsOf p).compare (wildcardRank side) (cellsOf q) = side.compareParts p q := by
  rw [Cells.compare, cellsOf, cellsOf, Cells.go_cons, Cells.go_cons, Cells.go_cons, compare_rank_cellOf,
    compare_rank_cellOf, compare_rank_cellOf, Side.compareParts]
  change Ordering.then _ (Ordering.then _ (Ordering.then _ .eq)) = _
  rw [Ordering.then_eq]

theorem record_limit_injective : Function.Injective fun l : Limit => (limit l).record := by
  intro l l' h
  obtain ⟨side, p⟩ := l
  obtain ⟨side', p'⟩ := l'
  obtain ⟨hside, hcells⟩ := Fields.mk.inj (Record.single.inj h)
  rw [Limit.mk.injEq]
  exact ⟨Option.some.inj (operatorOf_injective hside), cellsOf_injective hcells⟩

theorem reduce?_record (l u : Limit) :
    Record.reduce? (limit l).record (limit u).record = .ok ((pair l u).reduction?.map record) := by
  have hrecord : (limit l).record = (limit u).record ↔ l = u := record_limit_injective.eq_iff
  have hoperator : operatorOf (some l.side) = operatorOf (some u.side) ↔ l.side = u.side :=
    operatorOf_injective.eq_iff.trans Option.some_inj
  have hcells : cellsOf l.parts = cellsOf u.parts ↔ l.parts = u.parts := cellsOf_injective.eq_iff
  -- Once the tests of fields are tests of sides and parts, both reductions branch in the same way.
  simp only [Record.reduce?, fields_record, side?, parts, ne_eq, hrecord, hoperator, hcells, wildcardRank_eq,
    compare_cellsOf, reduction?]
  split
  · rfl
  split
  · by_cases hparts : l.parts = u.parts
    · rw [if_neg (not_not_intro hparts), if_pos hparts]
      rfl
    · rw [if_pos hparts, if_neg hparts]
      rfl
  · cases l.side.compareParts l.parts u.parts <;> rfl

/-! ### Numbers that can be written -/

theorem write_cellOf {comp : Component} (h : comp.Writable) : (cellOf comp).write = .ok comp.chars := by
  cases comp with
  | wildcard => rfl
  | number n =>
    have hn : Numeral.write n = .ok (Numeral.digits n) := if_pos h
    rw [cellOf, Cell.write, Int.natAbs_natCast, hn, if_neg (Int.natCast_nonneg n).not_gt]
    rfl

theorem write_cellsOf {p : Parts} (h : p.Writable) : (cellsOf p).write = .ok p.chars := by
  rw [Cells.write, cellsOf, write_cellOf h.1, write_cellOf h.2.1, write_cellOf h.2.2]
  rfl

theorem toList_operatorOf (side : Side) : (operatorOf (some side)).toList = side.chars := by
  cases side <;> rfl

theorem write_record (hv : v.Writable) : v.record.write = .ok v.chars := by
  cases v with
  | exact p =>
    change ((cellsOf p).write >>= _) = _
    rw [write_cellsOf hv]
    rfl
  | limit l =>
    change ((cellsOf l.parts).write >>= fun cells => pure ((operatorOf (some l.side)).toList ++ 'v' :: cells)) = _
    rw [write_cellsOf hv, toList_operatorOf]
    rfl
  | pair l u =>
    change ((cellsOf l.parts).write >>= fun cells => ((cellsOf u.parts).write >>= fun cells' =>
      pure ((operatorOf (some u.side)).toList ++ 'v' :: cells')) >>= fun bound =>
        pure ((operatorOf (some l.side)).toList ++ 'v' :: cells ++ '_' :: bound)) = _
    rw [write_cellsOf hv.1, write_cellsOf hv.2, toList_operatorOf, toList_operatorOf]
    rfl

theorem writable_of_reduction? (hv : v.Writable) (h : v.reduction? = some w) : w.Writable := by
  cases v with
  | exact p => cases h
  | limit l => cases h
  | pair l u =>
    obtain ⟨-, rfl⟩ | ⟨-, -, rfl⟩ | ⟨-, -, rfl⟩ | ⟨-, -, rfl⟩ := reduction?_pair_cases h
    · exact hv.2
    · exact ⟨hv.1.1, trivial, trivial⟩
    · exact hv.2
    · exact hv.1

theorem writable_simplify (hv : v.Writable) : v.simplify.Writable := by
  rw [simplify]
  cases h : v.reduction? with
  | none => exact hv
  | some w => exact writable_of_reduction? hv h

theorem simplify_record (hv : v.Writable) : v.record.simplify = .ok v.simplify.record := by
  cases v with
  | exact p => rfl
  | limit l => rfl
  | pair l u =>
    have hfirst : (pair l u).record.dropBound = .ok (limit l).record := dropBound_record _
    change ((pair l u).record.dropBound.mapError Error.refused >>= _) = _
    rw [hfirst]
    change (Record.reduce? (limit l).record (limit u).record).mapError Error.refused >>= _ = _
    rw [reduce?_record, simplify]
    cases h : (pair l u).reduction? with
    | none => rfl
    | some w =>
      change (pair l u).record.write.mapError _ >>= (fun _ => w.record.write.mapError _ >>= _) = _
      rw [write_record hv, write_record (writable_of_reduction? hv h)]
      rfl

theorem edit_record (hv : v.Writable) (e : Edit) : v.record.edit e = (v.edit e).map record := by
  cases e with
  | set d => exact buildRecord_eq d
  | replacePart name value =>
    rw [Record.edit, replacePart_record, edit]
    cases v.replacePart name value <;> rfl
  | dropBound => exact congrArg (Except.mapError _) (dropBound_record v)
  | takeBound => cases v <;> rfl
  | replaceOperator operator =>
    rw [Record.edit, replaceOperator_record, edit]
    cases v.replaceOperator operator <;> rfl
  | replaceBound bound =>
    cases bound with
    | none =>
      rw [Record.edit, edit]
      change (Record.make _ _ (Option.map record none)).mapError _ = _
      rw [replaceBound_record]
      cases v.replaceBound none <;> rfl
    | some d =>
      rw [Record.edit, edit, buildRecord_eq]
      cases d.build with
      | error e => rfl
      | ok b =>
        change (Record.make _ _ (Option.map record (some b))).mapError _ = ((v.replaceBound (some b)).mapError _).map _
        rw [replaceBound_record]
        cases v.replaceBound (some b) <;> rfl
  | simplify => exact simplify_record hv
  | reread =>
    rw [Record.edit, write_record hv, edit]
    change ((Version.read v.text).map record).mapError _ = _
    cases Version.read v.text <;> rfl

end Version

end RuntimeRanges
