import RuntimeRanges.Log.Session

/-!
The protocol of a log session. Up to the first step that settles the level only the value of the variable counts, and
from that step on only the requests with a known level.
-/

namespace RuntimeRanges.Log.Session

namespace Step

def asks? : Step → Option Nat
  | configure (some name) => level? name
  | configure none | setVariable _ | emit _ => none

/-- Whether the level is settled after the step, whatever came before it: a request for an unknown level does not settle
it, and the variable alone does not either. -/
def settles : Step → Bool
  | configure (some name) => (level? name).isSome
  | configure none | emit _ => true
  | setVariable _ => false

def settingAfter (value : Option String) : Step → Option String
  | setVariable new => new
  | configure _ | emit _ => value

theorem asks?_of_not_settles {t : Step} (h : t.settles = false) : t.asks? = none := by
  cases t with
  | setVariable value => rfl
  | emit d => cases h
  | configure asked =>
    cases asked with
    | none => cases h
    | some name => exact Option.isNone_iff_eq_none.1 (Option.isSome_eq_false_iff.1 h)

end Step

variable {s : Session} {t : Step} {quiet later : List Step} {name : String} {n : Nat} {d : Draft}

theorem configure_known (h : level? name = some n) (s : Session) :
    s.configure (some name) = .ok { s with level := n, configured := true } := by
  have hnamed := levelNamed_eq_ok_iff.2 h
  rw [configure]
  split
  · next hc =>
    simp only [hnamed, Except.map]
    rw [← hc]
  · simp only [chooseLevel, hnamed, Except.map]

theorem configure_unknown (h : level? name = none) (s : Session) :
    s.configure (some name) = .error ⟨levelKey name⟩ := by
  have hnamed : levelNamed name = .error ⟨levelKey name⟩ := by rw [levelNamed, h]
  rw [configure]
  split
  · simp only [hnamed, Except.map]
  · simp only [chooseLevel, hnamed, Except.map]

theorem step_unknown (h : level? name = none) (s : Session) :
    s.step (.configure (some name)) = (s, .error (.level ⟨levelKey name⟩)) := by
  rw [step, configure_unknown h]

theorem step_known (h : level? name = some n) (s : Session) :
    s.step (.configure (some name)) = ({ s with level := n, configured := true }, .ok []) := by
  rw [step, configure_known h]

theorem step_configure_none (s : Session) : s.step (.configure none) = (s.start, .ok []) := by
  rw [step, configure_none]

theorem emit_of_le {level : Nat} (h : d.taken? = none) (hl : level ≤ d.severity.rank) :
    d.emit level =
      match Event.renderFault? d.room ⟨d.severity, d.name, Document.setFields d.surroundings d.own⟩ with
      | none => .ok [⟨d.severity, d.name, Document.setFields d.surroundings d.own⟩]
      | some f => .error (.rendering f) := by
  rw [Draft.emit, Draft.event, h]
  exact if_pos (decide_eq_true hl)

theorem emit_of_lt {level : Nat} (h : d.taken? = none) (hl : d.severity.rank < level) : d.emit level = .ok [] := by
  rw [Draft.emit, Draft.event, h]
  exact if_neg (by simpa [Severity.shownAt] using hl)

theorem step_emit_renderable (h : d.taken? = none)
    (hr : Event.renderFault? d.room ⟨d.severity, d.name, Document.setFields d.surroundings d.own⟩ = none)
    (s : Session) :
    s.step (.emit d) = (s.start, .ok (if s.start.level ≤ d.severity.rank then
      [⟨d.severity, d.name, Document.setFields d.surroundings d.own⟩] else [])) := by
  rw [step]
  split
  · next hl => rw [emit_of_le h hl, hr]; rfl
  · next hl => rw [emit_of_lt h (Nat.not_le.1 hl)]; rfl

theorem step_emit_below (h : d.taken? = none) (hl : d.severity.rank < s.start.level) :
    s.step (.emit d) = (s.start, .ok []) := by
  rw [step, emit_of_lt h hl]
  rfl

theorem step_emit_unrendered {f : RenderFault} (h : d.taken? = none)
    (hr : Event.renderFault? d.room ⟨d.severity, d.name, Document.setFields d.surroundings d.own⟩ = some f)
    (hl : s.start.level ≤ d.severity.rank) : s.step (.emit d) = (s.start, .error (.draft (.rendering f))) := by
  rw [step, emit_of_le h hl, hr]
  rfl

theorem step_emit_taken {taken : TakenName} (h : d.taken? = some taken) (s : Session) :
    s.step (.emit d) = (s.start, .error (.draft (.name taken))) := by
  rw [step, Draft.emit, Draft.event, h]
  rfl

theorem start_eq (s : Session) :
    s.start = ⟨if s.configured then s.level else levelOfVariable s.setting, true, s.setting⟩ := by
  obtain ⟨level, configured, setting⟩ := s
  cases configured <;> rfl

theorem after_eq (s : Session) (t : Step) :
    s.after t =
      { level := t.asks?.getD (if s.configured = false ∧ t.settles = true then levelOfVariable s.setting else s.level)
        configured := s.configured || t.settles
        setting := t.settingAfter s.setting } := by
  have hstart : s.start = ⟨if s.configured = false ∧ true = true then levelOfVariable s.setting else s.level,
      s.configured || true, s.setting⟩ := by
    rw [start_eq, Bool.or_true]
    cases s.configured <;> rfl
  cases t with
  | setVariable value => simp [after, step, Step.asks?, Step.settles, Step.settingAfter]
  | emit d => exact hstart
  | configure asked =>
    cases asked with
    | none => rw [after, step_configure_none]; exact hstart
    | some name =>
      cases h : level? name with
      | none => simp [after, step_unknown h, Step.asks?, Step.settles, Step.settingAfter, h]
      | some n => simp [after, step_known h, Step.asks?, Step.settles, Step.settingAfter, h]

theorem configured_run (s : Session) (steps : List Step) :
    (s.run steps).configured = (s.configured || steps.any Step.settles) := by
  induction steps generalizing s with
  | nil => rw [run_nil, List.any_nil, Bool.or_false]
  | cons t steps ih => rw [run_cons, ih, after_eq, List.any_cons, Bool.or_assoc]

theorem setting_run (s : Session) (steps : List Step) :
    (s.run steps).setting = steps.foldl Step.settingAfter s.setting := by
  induction steps generalizing s with
  | nil => rfl
  | cons t steps ih => rw [run_cons, ih, after_eq, List.foldl_cons]

theorem run_append (s : Session) (steps later : List Step) : s.run (steps ++ later) = (s.run steps).run later :=
  List.foldl_append

theorem level_after_of_configured (h : s.configured = true) : (s.after t).level = t.asks?.getD s.level := by
  rw [after_eq, if_neg (by simp [h])]

/-- Once the level is settled it is that of the last request for a known one. -/
theorem level_run_of_configured (h : s.configured = true) (steps : List Step) :
    (s.run steps).level = (steps.filterMap Step.asks?).getLast?.getD s.level := by
  induction steps generalizing s with
  | nil => rfl
  | cons t steps ih =>
    have hafter : (s.after t).configured = true := by rw [after_eq, h, Bool.true_or]
    rw [run_cons, ih hafter, level_after_of_configured h, List.filterMap_cons]
    cases t.asks? with
    | none => rfl
    | some n => rw [List.getLast?_cons]; rfl

theorem level_run_of_quiet (h : s.configured = false) (hquiet : ∀ u ∈ quiet, u.settles = false) :
    (s.run quiet).level = s.level := by
  induction quiet generalizing s with
  | nil => rfl
  | cons t quiet ih =>
    obtain ⟨ht, hquiet⟩ := List.forall_mem_cons.1 hquiet
    have hafter : (s.after t).configured = false := by rw [after_eq, h, ht]; rfl
    rw [run_cons, ih hafter hquiet, after_eq, Step.asks?_of_not_settles ht, if_neg (by simp [ht])]
    rfl

/-- The first step that settles the level takes it from what it asks for, or else from the variable. -/
theorem level_run_of_settles (h : s.configured = false) (hquiet : ∀ u ∈ quiet, u.settles = false)
    (ht : t.settles = true) :
    (s.run (quiet ++ t :: later)).level = (later.filterMap Step.asks?).getLast?.getD
      (t.asks?.getD (levelOfVariable (quiet.foldl Step.settingAfter s.setting))) := by
  have hbefore : (s.run quiet).configured = false := by
    rw [configured_run, h, Bool.false_or, List.any_eq_false]
    exact fun u hu => by simp [hquiet u hu]
  have hafter : ((s.run quiet).after t).configured = true := by rw [after_eq, ht, Bool.or_true]
  rw [run_append, run_cons, level_run_of_configured hafter, after_eq, if_pos ⟨hbefore, ht⟩, setting_run]

/-- What is known of a session after steps from a fresh one, and of the step that comes next. -/
structure Protocol (steps : List Step) (s : Session) : Prop where
  /-- The level is settled from the first step on that does so. -/
  configured : s.configured = steps.any Step.settles
  /-- Until then it is the default. -/
  level_fresh : s.configured = false → s.level = defaultLevel
  /-- The first step that settles the level takes it from what it asks for, or else from the variable as it is at that
  time; from then on the last request for a known level counts, and the variable does not. -/
  level_settled : ∀ quiet t later, steps = quiet ++ t :: later → (∀ u ∈ quiet, u.settles = false) → t.settles = true →
    s.level = (later.filterMap Step.asks?).getLast?.getD
      (t.asks?.getD (levelOfVariable (quiet.foldl Step.settingAfter none)))
  /-- Once settled the level stays so, and only a request for a known one changes it. -/
  stays : s.configured = true → ∀ t : Step, (s.after t).configured = true ∧ (s.after t).level = t.asks?.getD s.level
  /-- A request for an unknown level is refused and changes nothing. -/
  unknown : ∀ name, level? name = none → s.step (.configure (some name)) = (s, .error (.level ⟨levelKey name⟩))
  /-- A request for a known level is granted. -/
  known : ∀ name n, level? name = some n →
    s.step (.configure (some name)) = ({ s with level := n, configured := true }, .ok [])
  /-- A request for no level in particular, which comes before each event, never fails, whatever the variable is. -/
  started : s.step (.configure none) = (s.start, .ok [])
  /-- An event that can be rendered is shown exactly if its severity reaches the level, which is settled by then. -/
  shown : ∀ d : Draft, d.taken? = none →
    Event.renderFault? d.room ⟨d.severity, d.name, Document.setFields d.surroundings d.own⟩ = none →
      s.step (.emit d) = (s.start, .ok (if s.start.level ≤ d.severity.rank then
        [⟨d.severity, d.name, Document.setFields d.surroundings d.own⟩] else []))
  /-- An event whose severity does not reach the level is hidden, whatever its values are. -/
  hidden : ∀ d : Draft, d.taken? = none → d.severity.rank < s.start.level → s.step (.emit d) = (s.start, .ok [])
  /-- An event whose severity reaches the level fails where it cannot be rendered. -/
  unrendered : ∀ (d : Draft) (f : RenderFault), d.taken? = none →
    Event.renderFault? d.room ⟨d.severity, d.name, Document.setFields d.surroundings d.own⟩ = some f →
      s.start.level ≤ d.severity.rank → s.step (.emit d) = (s.start, .error (.draft (.rendering f)))
  /-- An event is refused where a name among its values is taken, but settles the level all the same. -/
  taken : ∀ (d : Draft) (t : TakenName), d.taken? = some t → s.step (.emit d) = (s.start, .error (.draft (.name t)))

/-- Every session from a fresh one on follows the protocol. -/
theorem protocol_run (steps : List Step) : Protocol steps (run {} steps) where
  configured := by rw [configured_run, Bool.false_or]
  level_fresh := by
    intro h
    rw [configured_run, Bool.false_or, List.any_eq_false] at h
    exact level_run_of_quiet rfl fun u hu => by simpa using h u hu
  level_settled := by
    rintro quiet t later rfl hquiet ht
    exact level_run_of_settles rfl hquiet ht
  stays := by
    intro h t
    exact ⟨by rw [after_eq, h, Bool.true_or], level_after_of_configured h⟩
  unknown := fun _ h => step_unknown h _
  known := fun _ _ h => step_known h _
  started := step_configure_none _
  shown := fun _ h hr => step_emit_renderable h hr _
  hidden := fun _ h hl => step_emit_below h hl
  unrendered := fun _ _ h hr hl => step_emit_unrendered h hr hl
  taken := fun _ _ h => step_emit_taken h _

/-- A request for an unknown level settles nothing, so that the event does with what the variable is by then; what
becomes of the variable later makes no difference, and the next event, which is of the settled severity, is shown. -/
theorem protocol_run_late :
    let steps := [.configure (some "loud"), .setVariable (some " info\n"), .emit ⟨.info, "kept", [], [], 1⟩,
      .setVariable (some "debug"), .configure none]
    (run {} steps).level = 20 ∧
      (step (run {} steps) (.emit ⟨.info, "next", [], [("n", .int 1)], 1⟩)).2 =
        .ok [⟨.info, "next", [("n", .int 1)]⟩] := by
  intro steps
  have hquiet : ∀ u ∈ [Step.configure (some "loud"), .setVariable (some " info\n")], u.settles = false := by
    decide +kernel
  have hlevel : (run {} steps).level = 20 := by
    refine ((protocol_run steps).level_settled [.configure (some "loud"), .setVariable (some " info\n")]
      (.emit ⟨.info, "kept", [], [], 1⟩) [.setVariable (some "debug"), .configure none] rfl hquiet rfl).trans ?_
    decide +kernel
  refine ⟨hlevel, ?_⟩
  have htaken : Draft.taken? ⟨.info, "next", [], [("n", .int 1)], 1⟩ = none := by decide +kernel
  have hrender : Event.renderFault? 1 ⟨.info, "next", [("n", .int 1)]⟩ = none := by decide +kernel
  have hstart : (run {} steps).start.level ≤ Severity.info.rank := by
    have hconfigured : (run {} steps).configured = true := by decide +kernel
    rw [start_eq, if_pos hconfigured, hlevel]
    decide
  rw [(protocol_run steps).shown _ htaken hrender, if_pos hstart]
  rfl

end RuntimeRanges.Log.Session
