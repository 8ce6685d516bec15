import ObservableBSD.DLang.Lemmas.Lexer
import ObservableBSD.DLang.Lexer

/-!
# Lists in brackets

The text of a list, and how an element begins.
-/

namespace ObservableBSD.DLang

variable {s t u e rest : List Char} {toks : List Token} {c : Char} {element : Element} {elements : List Element}

/-! ## Tokens up to a place -/

theorem LexTo.cases_left (h : LexTo s toks e) : s = e ∧ toks = [] ∨
    ∃ toks₁ toks₂ rest, lexStep s = some (toks₁, rest) ∧ LexTo rest toks₂ e ∧ toks = toks₁ ++ toks₂ := by
  cases h with
  | refl => exact .inl ⟨rfl, rfl⟩
  | step hstep hrest => exact .inr ⟨_, _, _, hstep, hrest, rfl⟩

theorem length_lexStep_lt (h : lexStep s = some (toks, rest)) : rest.length < s.length := by
  cases s with
  | nil => cases h
  | cons c cs => exact Nat.lt_succ_of_le (length_lexStep h)

theorem LexTo.length_le (h : LexTo s toks e) : e.length ≤ s.length := by
  induction h with
  | refl => exact Nat.le_refl _
  | step hstep _ ih => exact Nat.le_trans ih (Nat.le_of_lt (length_lexStep_lt hstep))

theorem LexTo.nil_of_self (h : LexTo s toks s) : toks = [] := by
  rcases h.cases_left with ⟨-, htoks⟩ | ⟨_, _, _, hstep, hrest, -⟩
  · exact htoks
  · exact absurd hrest.length_le (Nat.not_le_of_lt (length_lexStep_lt hstep))

/-- A step that is known is the first one on the way to a place behind it. -/
theorem LexTo.of_step {toks₁ : List Token} (h : LexTo s toks e) (hstep : lexStep s = some (toks₁, rest))
    (hle : e.length < s.length) : ∃ toks₂, LexTo rest toks₂ e ∧ toks = toks₁ ++ toks₂ := by
  rcases h.cases_left with ⟨rfl, -⟩ | ⟨_, toks₂, _, hstep', hrest, htoks⟩
  · exact absurd hle (Nat.lt_irrefl _)
  · rw [hstep] at hstep'
    cases hstep'
    exact ⟨toks₂, hrest, htoks⟩

/-! ## Steps -/

theorem lexStep_blank (hc : isBlank c = true) (s : List Char) : lexStep (c :: s) = some ([], s) := by
  rw [lexStep, if_pos hc]

theorem lexStep_closing (s : List Char) : lexStep (']' :: s) = some ([.closing ']'], s) := rfl

theorem operators_ascii : ∀ op ∈ operators, op.1.head?.all (·.toNat < 128) = true := by decide

theorem isBlank_ascii (h : isBlank c = true) : c.toNat < 128 := by
  have hall : [' ', '\t', '\n', '\r', '\x0b', '\x0c'].all (·.toNat < 128) = true := rfl
  exact of_decide_eq_true (List.all_eq_true.1 hall c (List.elem_iff.1 h))

theorem isWordChar_ascii (h : isWordChar c = true) : c.toNat < 128 := by
  have hbound {d : Char} (hd : d.toNat < 128) (hle : c.val ≤ d.val) : c.toNat < 128 :=
    Nat.lt_of_le_of_lt (UInt32.le_iff_toNat_le.1 hle) hd
  rcases Bool.or_eq_true_iff.1 h with halnum | hmem
  · rcases Bool.or_eq_true_iff.1 halnum with halpha | hdigit
    · rcases Bool.or_eq_true_iff.1 halpha with hupper | hlower
      · exact hbound (d := 'Z') (by decide) (of_decide_eq_true hupper).2
      · exact hbound (d := 'z') (by decide) (of_decide_eq_true (Bool.and_eq_true_iff.1 hlower).2)
    · exact hbound (d := '9') (by decide) (of_decide_eq_true (Bool.and_eq_true_iff.1 hdigit).2)
  · have hall : ['_', '\x60', '$', '@'].all (·.toNat < 128) = true := rfl
    exact of_decide_eq_true (List.all_eq_true.1 hall c (List.elem_iff.1 hmem))

/-- A character outside ASCII is a word of its own. -/
theorem lexStep_beyond (hc : 128 ≤ c.toNat) (s : List Char) : lexStep (c :: s) = some ([.word [c]], s) := by
  have hne {d : Char} (hd : d.toNat < 128) : c ≠ d := fun h => by
    rw [h] at hc
    omega
  have hblank : ¬ isBlank c = true := fun h => absurd (isBlank_ascii h) (by omega)
  have hword : ¬ isWordChar c = true := fun h => absurd (isWordChar_ascii h) (by omega)
  have hnone : (operators.find? fun op => op.1.isPrefixOf (c :: s)) = none := by
    refine List.find?_eq_none.2 fun op hop hfront => ?_
    obtain ⟨rest, hrest⟩ := List.isPrefixOf_iff_prefix.1 hfront
    cases hchars : op.1 with
    | nil => exact operators_ne_nil op hop hchars
    | cons d chars =>
        have hd := operators_ascii op hop
        rw [hchars] at hd
        have hd : d.toNat < 128 := of_decide_eq_true hd
        rw [hchars] at hrest
        exact hne hd (List.cons.inj hrest).1.symm
  have hopen : ¬ (c = '(' ∨ c = '[') := fun h => h.elim (hne (by decide)) (hne (by decide))
  have hclose : ¬ (c = ')' ∨ c = ']') := fun h => h.elim (hne (by decide)) (hne (by decide))
  have hcomment : ¬ (c = '/' ∧ s.head? = some '*') := fun h => hne (by decide) h.1
  have hquote : ¬ (c = '"' ∨ c = '\'') := fun h => h.elim (hne (by decide)) (hne (by decide))
  rw [lexStep, if_neg hblank, if_neg hopen, if_neg hclose, if_neg hcomment, if_neg hquote, if_neg hword, hnone]

/-- A word ends where a character stands that is not of a word. -/
theorem lexStep_word {w : List Char} (hne : w ≠ []) (hw : ∀ d ∈ w, isWordChar d = true) (hc : isWordChar c = false)
    (s : List Char) : lexStep (w ++ c :: s) = some ([.word w], c :: s) := by
  obtain ⟨d, w, rfl⟩ := List.exists_cons_of_ne_nil hne
  have hd := hw d List.mem_cons_self
  have hrest : ∀ d ∈ w, isWordChar d = true := fun d hd => hw d (List.mem_cons_of_mem _ hd)
  have hnot := notMem_special_of_isWordChar hd
  simp only [List.mem_cons, List.not_mem_nil, or_false, not_or] at hnot
  simp [lexStep, isBlank, hnot, hd, List.takeWhile_append_of_pos hrest, List.dropWhile_append_of_pos hrest, hc]

/-! ## Elements -/

theorem Elements.ne_nil (h : Elements s elements rest) : elements ≠ [] := by
  cases h <;> exact List.cons_ne_nil _ _

theorem Elements.closing_mem (h : Elements s elements rest) : ']' ∈ s := by
  induction h with
  | last => exact List.mem_append_right _ List.mem_cons_self
  | cons _ _ _ ih => exact List.mem_append_right _ (List.mem_cons_of_mem _ ih)

/-- Every element is read up to the separator behind it. -/
theorem Elements.lexTo_of_mem (h : Elements s elements rest) (hmem : element ∈ elements) : element.Whole ∧
    ∃ c t, (c = ',' ∨ c = ']') ∧ LexTo (element.text ++ c :: t) element.tokens (c :: t) := by
  induction h with
  | last hwhole hlex =>
      cases List.mem_singleton.1 hmem
      exact ⟨hwhole, _, _, .inr rfl, hlex⟩
  | cons hwhole hlex _ ih =>
      rcases List.mem_cons.1 hmem with rfl | hmem
      · exact ⟨hwhole, _, _, .inl rfl, hlex⟩
      · exact ih hmem

/-- An element has a character in front of the first bracket that closes. -/
theorem Element.Whole.takeWhile_ne_nil (hwhole : element.Whole)
    (h : LexTo (element.text ++ c :: t) element.tokens (c :: t)) :
    element.text.takeWhile (· ≠ ']') ≠ [] := by
  cases htext : element.text with
  | nil =>
      rw [htext] at h
      exact absurd h.nil_of_self hwhole.1
  | cons d text =>
      have hd : d ≠ ']' := by
        rintro rfl
        rw [htext] at h
        have hlt : (c :: t).length < (']' :: (text ++ c :: t)).length := by
          simp only [List.length_cons, List.length_append]
          omega
        obtain ⟨toks, -, htoks⟩ := h.of_step (lexStep_closing (text ++ c :: t)) hlt
        have hopen := hwhole.2
        rw [htoks] at hopen
        cases hopen
      rw [List.takeWhile_cons_of_pos (by simpa using hd)]
      exact List.cons_ne_nil _ _

end ObservableBSD.DLang
