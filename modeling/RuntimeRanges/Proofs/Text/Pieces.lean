import RuntimeRanges.Proofs.Text.Words

/-!
Where the pieces of a text stand: what a text is cut into stands in it as it is, so that runs of characters in the
pieces are runs in the text.
-/

namespace RuntimeRanges.Text

variable {cs ds xs ys w run : List Char} {ws : List (List Char)} {c m : Char}

/-- The pieces stand in the text, and the first of them stands at its front. -/
structure StandIn (ws : List (List Char)) (cs : List Char) : Prop where
  head : ∀ w ∈ ws.head?, w <+: cs
  all : ∀ w ∈ ws, w <:+: cs

theorem standIn_consHead (h : StandIn ws cs) (c : Char) : StandIn (consHead c ws) (c :: cs) := by
  cases ws with
  | nil =>
    have hc : [c] <+: c :: cs := ⟨cs, rfl⟩
    exact ⟨fun w hw => Option.some.inj hw ▸ hc, List.forall_mem_singleton.2 hc.isInfix⟩
  | cons w ws =>
    obtain ⟨-, hws⟩ := List.forall_mem_cons.1 h.all
    have hw : c :: w <+: c :: cs := List.cons_prefix_cons.2 ⟨rfl, h.head w rfl⟩
    refine ⟨fun v hv => Option.some.inj hv ▸ hw, List.forall_mem_cons.2 ⟨hw.isInfix, fun v hv => ?_⟩⟩
    exact List.infix_cons (hws v hv)

theorem standIn_nil_cons (h : ∀ w ∈ ws, w <:+: cs) : StandIn ([] :: ws) cs :=
  ⟨fun _ hw => Option.some.inj hw ▸ List.nil_prefix, List.forall_mem_cons.2 ⟨List.nil_infix, h⟩⟩

theorem standIn_splitAt (separator : Char) (cs : List Char) : StandIn (splitAt separator cs) cs := by
  induction cs with
  | nil => exact standIn_nil_cons (List.forall_mem_nil _)
  | cons c cs ih =>
    rw [splitAt]
    split
    · exact standIn_nil_cons fun w hw => List.infix_cons (ih.all w hw)
    · exact standIn_consHead ih c

theorem standIn_splitBars (cs : List Char) : StandIn (splitBars cs) cs := by
  fun_induction splitBars cs with
  | case1 => exact standIn_nil_cons (List.forall_mem_nil _)
  | case2 cs ih => exact standIn_nil_cons fun w hw => List.infix_cons (List.infix_cons (ih.all w hw))
  | case3 c cs _ ih => exact standIn_consHead ih c

theorem word_of_mem_words (h : w ∈ words cs) : w <:+: cs ∧ w ≠ [] ∧ ∀ c ∈ w, isBlank c = false := by
  generalize hws : words cs = ws at h
  induction ws generalizing cs with
  | nil => cases h
  | cons v ws ih =>
    obtain ⟨before, rest, rfl, -, hne, hsolid, -, hrest⟩ := exists_eq_of_words_eq_cons hws
    obtain rfl | h := List.mem_cons.1 h
    · exact ⟨⟨before, rest, List.append_assoc ..⟩, hne, hsolid⟩
    · obtain ⟨hin, hw⟩ := ih hrest h
      refine ⟨hin.trans ?_, hw⟩
      exact ((List.suffix_append v rest).trans (List.suffix_append before _)).isInfix

theorem infix_of_infix_append_cons (h : run <:+: xs ++ m :: ys) (hm : m ∉ run) : run <:+: xs ∨ run <:+: ys := by
  obtain h | h | ⟨l, r, rfl, hl, hr⟩ := List.infix_append_iff.1 h
  · exact .inl h
  · obtain h | h := List.infix_cons_iff.1 h
    · obtain rfl | ⟨run, rfl, -⟩ := List.prefix_cons_iff.1 h
      · exact .inl List.nil_infix
      · exact absurd List.mem_cons_self hm
    · exact .inr h
  · obtain rfl | ⟨r, rfl, -⟩ := List.prefix_cons_iff.1 hr
    · rw [List.append_nil]
      exact .inl hl.isInfix
    · exact absurd (List.mem_append_right l List.mem_cons_self) hm

/-- A run of characters that a change of characters keeps stands in the text before the change. -/
theorem infix_of_infix_map {f : Char → Char} (h : run <:+: cs.map f) (hf : ∀ c, f c ∈ run → f c = c) :
    run <:+: cs := by
  obtain ⟨run', hrun, rfl⟩ := List.infix_map_iff.1 h
  have hkeep : run'.map f = run' :=
    (List.map_congr_left fun c hc => hf c (List.mem_map_of_mem hc)).trans (List.map_id _)
  rwa [hkeep]

end RuntimeRanges.Text
