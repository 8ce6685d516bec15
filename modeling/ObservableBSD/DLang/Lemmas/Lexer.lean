import Mathlib.Data.List.TakeWhile
import ObservableBSD.DLang.Lexer

/-! A text that stops at a blank or a bracket has the tokens that it has alone. -/

namespace ObservableBSD.DLang

variable {s rest cs t : List Char} {toks a u : List Token} {b c q : Char}

/-! ## One step -/

theorem length_skipComment : ∀ {cs : List Char}, skipComment cs = some rest → rest.length ≤ cs.length
  | [], h => by simp [skipComment] at h
  | c :: cs, h => by
      unfold skipComment at h
      split at h
      · cases h
      · rename_i cs' heq
        obtain ⟨rfl, rfl⟩ := List.cons.inj heq
        cases h
        simp only [List.length_cons]
        omega
      · rename_i heq
        obtain ⟨rfl, rfl⟩ := List.cons.inj heq
        exact Nat.le_succ_of_le (length_skipComment h)

theorem length_readQuoted {escaped : Bool} {cs : List Char} (h : readQuoted q escaped cs = some (s, rest)) :
    rest.length ≤ cs.length := by
  fun_induction readQuoted q escaped cs generalizing s with
  | case1 => cases h
  | case2 => cases h; exact Nat.le_succ _
  | case3 => cases h
  | case4 escaped c cs _ _ ih =>
      obtain ⟨⟨s', rest'⟩, h', heq⟩ := Option.map_eq_some_iff.mp h
      cases heq
      exact Nat.le_succ_of_le (ih h')

theorem operators_ne_nil : ∀ op ∈ operators, op.1 ≠ [] := by decide

theorem length_lexStep (h : lexStep (c :: cs) = some (toks, rest)) : rest.length ≤ cs.length := by
  simp only [lexStep] at h
  split_ifs at h with hblank hopen hclose hcomment hquote hword
  · cases h; exact Nat.le_refl _
  · cases h; exact Nat.le_refl _
  · cases h; exact Nat.le_refl _
  · obtain ⟨rest', h', heq⟩ := Option.map_eq_some_iff.mp h
    cases heq
    exact Nat.le_trans (length_skipComment h') (by simp)
  · obtain ⟨⟨s', rest'⟩, h', heq⟩ := Option.map_eq_some_iff.mp h
    cases heq
    exact length_readQuoted h'
  · cases h
    exact (List.dropWhile_suffix _).length_le
  · cases hop : operators.find? fun op => op.1.isPrefixOf (c :: cs) with
    | none =>
        rw [hop] at h
        cases h
        exact Nat.le_refl _
    | some op =>
        rw [hop] at h
        cases h
        have hne : op.1 ≠ [] := operators_ne_nil op (List.mem_of_find?_eq_some hop)
        have hpos : 0 < op.1.length := List.length_pos_iff.mpr hne
        simp only [List.length_drop, List.length_cons]
        omega

/-! ## Every fuel that suffices -/

theorem lexFuel_of_le : ∀ (fuel fuel' : Nat) (s : List Char), s.length ≤ fuel → s.length ≤ fuel' →
    lexFuel fuel s = lexFuel fuel' s
  | fuel, fuel', [], _, _ => by cases fuel <;> cases fuel' <;> rfl
  | fuel + 1, fuel' + 1, c :: cs, h, h' => by
      simp only [lexFuel]
      cases hstep : lexStep (c :: cs) with
      | none => rfl
      | some r =>
          have hle : r.2.length ≤ cs.length := length_lexStep hstep
          simp only [List.length_cons] at h h'
          simp only [lexFuel_of_le fuel fuel' r.2 (by omega) (by omega)]

@[simp] theorem lex_nil : lex [] = some [] := rfl

theorem lex_cons (h : lexStep (c :: cs) = some (toks, rest)) : lex (c :: cs) = (lex rest).map (toks ++ ·) := by
  have hle : rest.length ≤ cs.length := length_lexStep h
  simp only [lex, List.length_cons, lexFuel, h, lexFuel_of_le cs.length rest.length rest hle (Nat.le_refl _)]

theorem lex_cons_none (h : lexStep (c :: cs) = none) : lex (c :: cs) = none := by
  simp only [lex, List.length_cons, lexFuel, h]

/-- The first token of a text that has tokens, and the tokens of the rest. -/
theorem lex_cons_cases (h : lex (c :: cs) = some a) :
    ∃ toks rest a', lexStep (c :: cs) = some (toks, rest) ∧ lex rest = some a' ∧ a = toks ++ a' := by
  cases hstep : lexStep (c :: cs) with
  | none => rw [lex_cons_none hstep] at h; cases h
  | some r =>
      rw [lex_cons hstep] at h
      obtain ⟨a', ha, rfl⟩ := Option.map_eq_some_iff.mp h
      exact ⟨r.1, r.2, a', rfl, ha, rfl⟩

/-! ## Stops -/

theorem takeWhile_append_stop {p : Char → Bool} (hb : p b = false) : ∀ cs t : List Char,
    (cs ++ b :: t).takeWhile p = cs.takeWhile p
  | [], t => by simp [hb]
  | c :: cs, t => by
      simp only [List.cons_append, List.takeWhile_cons]
      cases p c with
      | false => rfl
      | true => simp only [if_true, takeWhile_append_stop hb cs t]

theorem lex_blank_cons (t : List Char) : lex (' ' :: t) = lex t := by
  rw [lex_cons (show lexStep (' ' :: t) = some ([], t) from rfl)]
  simp

theorem readQuoted_eq_append {escaped : Bool} {cs : List Char} (h : readQuoted q escaped cs = some (s, rest)) :
    cs = s ++ rest := by
  fun_induction readQuoted q escaped cs generalizing s with
  | case1 => cases h
  | case2 => cases h; rfl
  | case3 => cases h
  | case4 escaped c cs _ _ ih =>
      obtain ⟨⟨s', rest'⟩, h', heq⟩ := Option.map_eq_some_iff.mp h
      cases heq
      rw [ih h', List.cons_append]

theorem skipComment_eq_append : ∀ {cs : List Char}, skipComment cs = some rest → ∃ u, cs = u ++ '/' :: rest
  | [], h => by cases h
  | c :: cs, h => by
      unfold skipComment at h
      split at h
      · cases h
      · rename_i cs' heq
        obtain ⟨rfl, rfl⟩ := List.cons.inj heq
        cases h
        exact ⟨['*'], rfl⟩
      · rename_i heq
        obtain ⟨rfl, rfl⟩ := List.cons.inj heq
        obtain ⟨u, rfl⟩ := skipComment_eq_append h
        exact ⟨c :: u, rfl⟩

/-- A step without a token passes over blanks and comments. -/
theorem lexStep_nil (h : lexStep (c :: cs) = some ([], rest)) :
    ∃ used d, c :: cs = used ++ d :: rest ∧ (isBlank d = true ∨ d = '/') := by
  simp only [lexStep] at h
  split_ifs at h with hblank hopen hclose hcomment hquote hword
  · cases h
    exact ⟨[], c, rfl, .inl hblank⟩
  · cases h
  · cases h
  · obtain ⟨rest', h', heq⟩ := Option.map_eq_some_iff.mp h
    cases heq
    obtain ⟨u, hu⟩ := skipComment_eq_append h'
    obtain ⟨d, cs, rfl⟩ : ∃ d cs', cs = d :: cs' := by
      cases cs with
      | nil => cases hcomment.2
      | cons d cs => exact ⟨d, cs, rfl⟩
    rw [List.tail_cons] at hu
    exact ⟨c :: d :: u, '/', by rw [hu]; rfl, .inr rfl⟩
  · obtain ⟨r, -, heq⟩ := Option.map_eq_some_iff.mp h
    cases heq
  · cases h
  · split at h
    · cases h
    · cases h

/-- A text without tokens ends in a blank or a comment. -/
theorem getLast?_of_lex_nil {s : List Char} (h : lex s = some []) : ∀ d ∈ s.getLast?, isBlank d = true ∨ d = '/' := by
  induction hn : s.length using Nat.strongRecOn generalizing s with
  | ind n ih =>
      cases s with
      | nil => exact fun d hd => by cases hd
      | cons c cs =>
          obtain ⟨toks, rest, a', hstep, hrest, hnil⟩ := lex_cons_cases h
          obtain ⟨rfl, rfl⟩ := List.append_eq_nil_iff.1 hnil.symm
          have hlt : rest.length < n := by
            rw [← hn]
            exact Nat.lt_succ_of_le (length_lexStep hstep)
          obtain ⟨used, e, hcut, he⟩ := lexStep_nil hstep
          have hlast := ih rest.length hlt hrest rfl
          intro d hd
          rw [hcut, List.getLast?_append_cons] at hd
          cases rest with
          | nil =>
              cases hd
              exact he
          | cons f rest =>
              rw [List.getLast?_cons_cons] at hd
              exact hlast d hd

/-! ## Words and numbers -/

theorem notMem_special_of_isWordChar (hc : isWordChar c = true) :
    c ∉ [' ', '\t', '\n', '\r', '\x0b', '\x0c', '(', '[', ')', ']', '/', '"', '\''] := by
  have hspecial : [' ', '\t', '\n', '\r', '\x0b', '\x0c', '(', '[', ')', ']', '/', '"', '\''].all
      (fun d => !isWordChar d) = true := rfl
  intro hmem
  have hfalse := List.all_eq_true.mp hspecial c hmem
  rw [hc] at hfalse
  cases hfalse

end ObservableBSD.DLang
