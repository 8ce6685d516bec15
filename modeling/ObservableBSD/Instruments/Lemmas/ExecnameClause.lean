import Mathlib.Algebra.Group.Nat.Even
import ObservableBSD.DLang.Lemmas.Lexer
import ObservableBSD.Instruments.FilterOptions

/-!
# The clause of the name

Only the double quotes of a name are escaped, and of these only the ones that are `Character`s of their own. A backslash
in front of a quote, or of any other character, is read together with it, so the constant has fewer characters than the
name.
-/

namespace ObservableBSD.Instruments

open Base DLang Export

variable {boundary : CharacterBoundary} {name body front s rest : Text} {l : List (Char × Bool)} {c : Char}

/-! ## Tokens -/

/-- The scalars with a backslash in front of each quote that is a `Character` of its own. -/
def escaped (l : List (Char × Bool)) : Text := l.flatMap fun e => if e = ('"', true) then ['\\', '"'] else [e.1]

theorem escaped_quote (l : List (Char × Bool)) : escaped (('"', true) :: l) = '\\' :: '"' :: escaped l := rfl

theorem escaped_cons {e : Char × Bool} (he : e ≠ ('"', true)) (l : List (Char × Bool)) :
    escaped (e :: l) = e.1 :: escaped l := by
  rw [escaped, List.flatMap_cons, if_neg he]
  rfl

theorem replacing_quote (front s : Text) :
    replacing boundary (text "\"") (text "\\\"") 0 front s = escaped (scalarsIn boundary front s []) := by
  induction s generalizing front with
  | nil => rfl
  | cons c s ih =>
      have hpre : (text "\"").isPrefixOf (c :: s) = ('"' == c) := by simp [text, List.isPrefixOf]
      have hskip : (text "\"").length - 1 = 0 := rfl
      have hdrop : (c :: s).drop (text "\"").length = s := rfl
      rw [replacing, hpre, hskip, hdrop, ih, scalarsIn, List.append_nil]
      by_cases hq : c = '"'
      · subst hq
        cases hb : boundary front ('"' :: s) && boundary (front ++ ['"']) s with
        | true =>
            rw [escaped_quote, if_pos (by simpa [text] using hb)]
            rfl
        | false =>
            rw [escaped_cons (by simp), if_neg (by simpa [text] using hb)]
      · have hne : ('"' == c) = false := beq_eq_false_iff_ne.2 (Ne.symm hq)
        rw [escaped_cons (by simp [hq]), if_neg (by simp [hne])]

theorem execnameClause_eq (boundary : CharacterBoundary) (name : Text) : execnameClause boundary name =
    text "execname == " ++ '"' :: (escaped (scalars boundary name) ++ ['"']) := by
  rw [execnameClause, replacingOccurrences, replacing_quote, scalars]
  simp [text]

theorem lex_execnameClause (boundary : CharacterBoundary) (name rest : Text) :
    lex (execnameClause boundary name ++ rest) = (lex ('"' :: (escaped (scalars boundary name) ++ '"' :: rest))).map
      ([.word (text "execname"), .word (text "==")] ++ ·) := by
  have hsplit : execnameClause boundary name ++ rest =
      'e' :: (text "xecname == " ++ '"' :: (escaped (scalars boundary name) ++ '"' :: rest)) := by
    simp [execnameClause_eq, text]
  generalize '"' :: (escaped (scalars boundary name) ++ '"' :: rest) = t at hsplit ⊢
  have hname : lexStep ('e' :: (text "xecname == " ++ t)) =
      some ([.word (text "execname")], ' ' :: '=' :: '=' :: ' ' :: t) :=
    rfl
  have hequals : lexStep ('=' :: '=' :: ' ' :: t) = some ([.word (text "==")], ' ' :: t) := rfl
  rw [hsplit, lex_cons hname, lex_blank_cons, lex_cons hequals, lex_blank_cons, Option.map_map]
  rfl

theorem lexStep_quote (t : Text) :
    lexStep ('"' :: t) = (readQuoted '"' false t).map fun r => ([.literal ('"' :: r.1)], r.2) := rfl

/-! ## Where the constant ends -/

/-- Each quote is escaped just once, where `odd` tells whether an odd number of backslashes stands in front. -/
def Paired : Bool → List (Char × Bool) → Prop
  | odd, [] => odd = false
  | odd, (c, alone) :: l => c ≠ '\n' ∧ (c = '"' → (odd = false ↔ alone = true)) ∧ Paired (!odd && c = '\\') l

theorem readQuoted_escaped {odd : Bool} (h : Paired odd l) (rest : Text) :
    readQuoted '"' odd (escaped l ++ '"' :: rest) = some (escaped l ++ ['"'], rest) := by
  induction l generalizing odd with
  | nil =>
      obtain rfl : odd = false := h
      rfl
  | cons e l ih =>
      obtain ⟨c, alone⟩ := e
      obtain ⟨hnl, hquote, hrest⟩ := h
      have hrest := ih hrest
      by_cases hq : c = '"'
      · subst hq
        cases alone with
        | true =>
            obtain rfl : odd = false := (hquote rfl).2 rfl
            have hrest : readQuoted '"' false (escaped l ++ '"' :: rest) = some (escaped l ++ ['"'], rest) := by
              simpa using hrest
            rw [escaped_quote]
            simp [readQuoted, hrest]
        | false =>
            obtain rfl : odd = true := by simpa using hquote rfl
            rw [escaped_cons (by simp)]
            simpa [readQuoted] using hrest
      · rw [escaped_cons (by simp [hq]), List.cons_append, readQuoted, if_neg (by simp [hq]), if_neg hnl, hrest]
        rfl

/-- A constant that ends at the last quote has no quote in it that is not escaped. -/
theorem paired_of_readQuoted {odd : Bool} (h : readQuoted '"' odd (escaped l ++ ['"']) = some (body, [])) :
    Paired odd l := by
  induction l generalizing odd body with
  | nil =>
      cases odd with
      | true => cases h
      | false => rfl
  | cons e l ih =>
      obtain ⟨c, alone⟩ := e
      by_cases hq : c = '"'
      · subst hq
        cases alone with
        | true =>
            rw [escaped_quote] at h
            cases odd with
            | true => simp [readQuoted] at h
            | false =>
                obtain ⟨⟨_, _⟩, hread, heq⟩ := Option.map_eq_some_iff.1 h
                obtain ⟨⟨s, _⟩, hread', heq'⟩ := Option.map_eq_some_iff.1 hread
                cases heq
                cases heq'
                exact ⟨by decide, by simp, ih hread'⟩
        | false =>
            rw [escaped_cons (by simp)] at h
            cases odd with
            | false => simp [readQuoted] at h
            | true =>
                obtain ⟨⟨s, _⟩, hread, heq⟩ := Option.map_eq_some_iff.1 h
                cases heq
                exact ⟨by decide, by simp, ih hread⟩
      · rw [escaped_cons (by simp [hq]), List.cons_append, readQuoted, if_neg (by simp [hq])] at h
        split at h
        · cases h
        · rename_i hnl
          obtain ⟨⟨s, _⟩, hread, heq⟩ := Option.map_eq_some_iff.1 h
          cases heq
          exact ⟨hnl, fun hc => absurd hc hq, ih hread⟩

/-! ## Runs of backslashes -/

/-- Whether a text ends in an odd number of backslashes. -/
def oddEnd (s : Text) : Bool := !decide (Even (backslashes s))

theorem oddEnd_eq_false : oddEnd s = false ↔ Even (backslashes s) := by simp [oddEnd]

theorem oddEnd_concat (s : Text) (c : Char) : oddEnd (s ++ [c]) = (!oddEnd s && c = '\\') := by
  unfold oddEnd backslashes
  by_cases hc : c = '\\'
  · subst hc
    rw [List.rtakeWhile_concat_pos _ _ _ (by simp), List.length_append, List.length_singleton]
    simp only [Nat.even_add_one, decide_not, decide_true, Bool.and_true]
  · rw [List.rtakeWhile_concat_neg _ _ _ (by simpa using hc)]
    simp [hc]

theorem paired_scalarsIn (front s : Text) : Paired (oddEnd front) (scalarsIn boundary front s []) ↔
    '\n' ∉ s ∧ (∀ u v, s = u ++ '"' :: v → (Even (backslashes (front ++ u)) ↔
      boundary (front ++ u) ('"' :: v) = true ∧ boundary (front ++ u ++ ['"']) v = true)) ∧
    Even (backslashes (front ++ s)) := by
  induction s generalizing front with
  | nil => simp [scalarsIn, Paired, oddEnd_eq_false]
  | cons c s ih =>
      rw [scalarsIn, Paired, ← oddEnd_concat, ih, List.mem_cons, not_or, oddEnd_eq_false, List.append_nil,
        Bool.and_eq_true]
      constructor
      · rintro ⟨hc, hquote, hnl, hrest, hlast⟩
        refine ⟨⟨Ne.symm hc, hnl⟩, fun u v heq => ?_, by simpa using hlast⟩
        cases u with
        | nil =>
            cases heq
            simpa using hquote rfl
        | cons d u =>
            obtain ⟨rfl, rfl⟩ := List.cons.inj heq
            simpa using hrest u v rfl
      · rintro ⟨⟨hc, hnl⟩, hquotes, hlast⟩
        refine ⟨Ne.symm hc, fun heq => ?_, hnl, fun u v heq => ?_, by simpa using hlast⟩
        · subst heq
          simpa using hquotes [] s rfl
        · simpa using hquotes (c :: u) v (by rw [heq, List.cons_append])

theorem paired_scalars (boundary : CharacterBoundary) (name : Text) :
    Paired false (scalars boundary name) ↔ QuotesPaired boundary name := by
  have h := @paired_scalarsIn boundary [] name
  have hodd : oddEnd [] = false := rfl
  rw [hodd] at h
  rw [scalars, h]
  exact ⟨fun ⟨hnl, hquotes, hlast⟩ => ⟨hnl, hquotes, hlast⟩, fun ⟨hnl, hquotes, hlast⟩ => ⟨hnl, hquotes, hlast⟩⟩

/-! ## The constant -/

theorem lex_execnameClause_of_paired (h : QuotesPaired boundary name) (rest : Text) :
    lex (execnameClause boundary name ++ rest) = (lex rest).map ([.word (text "execname"), .word (text "=="),
      .literal ('"' :: (escaped (scalars boundary name) ++ ['"']))] ++ ·) := by
  have hquoted := readQuoted_escaped ((paired_scalars boundary name).2 h) rest
  have hstep := lexStep_quote (escaped (scalars boundary name) ++ '"' :: rest)
  rw [hquoted] at hstep
  rw [lex_execnameClause, lex_cons hstep, Option.map_map]
  rfl

/-- The clause has one constant only when it ends at the last quote. -/
theorem paired_of_lex {r : Text} (h : lex (execnameClause boundary name) =
    some [.word (text "execname"), .word (text "=="), .literal r]) :
    QuotesPaired boundary name ∧ r = '"' :: (escaped (scalars boundary name) ++ ['"']) := by
  have hclause := lex_execnameClause boundary name []
  rw [List.append_nil, h] at hclause
  obtain ⟨toks, hlex, htoks⟩ := Option.map_eq_some_iff.1 hclause.symm
  obtain ⟨first, rest, others, hstep, hrest, rfl⟩ := lex_cons_cases hlex
  rw [lexStep_quote] at hstep
  obtain ⟨⟨s, rest'⟩, hread, hfirst⟩ := Option.map_eq_some_iff.1 hstep
  cases hfirst
  simp only [List.cons_append, List.nil_append, List.cons.injEq, true_and, Token.literal.injEq] at htoks
  obtain ⟨rfl, rfl⟩ := htoks
  have hcut := readQuoted_eq_append hread
  -- what stands behind the constant has no token, so it does not end in a quote
  have hnil : rest' = [] := by
    by_contra hne
    have hlast : rest'.getLast? = some '"' := by
      have hall := congrArg List.getLast? hcut
      rwa [List.getLast?_concat, List.getLast?_append_of_ne_nil _ hne, eq_comm] at hall
    rcases getLast?_of_lex_nil hrest '"' hlast with hblank | hslash
    · cases hblank
    · cases hslash
  subst hnil
  rw [List.append_nil] at hcut
  rw [← hcut] at hread ⊢
  exact ⟨(paired_scalars boundary name).1 (paired_of_readQuoted hread), rfl⟩

theorem even_backslashes (h : '\\' ∉ s) : Even (backslashes s) := by
  have hnil : s.rtakeWhile (· = '\\') = [] := List.eq_nil_iff_forall_not_mem.2 fun d hd => by
    have hd' : d = '\\' := by simpa using List.mem_rtakeWhile_imp hd
    exact h (hd' ▸ (List.rtakeWhile_suffix _ s).subset hd)
  rw [backslashes, hnil, List.length_nil]
  exact Even.zero

theorem quotesPaired_of_plain (hback : '\\' ∉ name) (hnl : '\n' ∉ name) (halone : QuotesAlone boundary name) :
    QuotesPaired boundary name := by
  refine ⟨hnl, fun front behind heq => ?_, even_backslashes hback⟩
  exact iff_of_true (even_backslashes fun hmem => hback (heq ▸ List.mem_append_left _ hmem)) (halone front behind heq)

theorem denotes_escaped (e : Escapes) (hback : '\\' ∉ name) (halone : QuotesAlone boundary name) :
    e.Denotes (escaped (scalars boundary name)) name := by
  have hall : ∀ front s, name = front ++ s → e.Denotes (escaped (scalarsIn boundary front s [])) s := by
    intro front s
    induction s generalizing front with
    | nil => exact fun _ => .nil
    | cons c s ih =>
        intro heq
        have hrest := ih (front ++ [c]) (by rw [heq, List.append_assoc, List.singleton_append])
        rw [scalarsIn, List.append_nil]
        by_cases hq : c = '"'
        · subst hq
          obtain ⟨hfront, hbehind⟩ := halone front s heq
          rw [hfront, hbehind]
          exact .escape (e.quote _) hrest
        · rw [escaped_cons (by simp [hq])]
          exact .plain (fun hc => hback (heq ▸ List.mem_append_right _ (hc ▸ List.mem_cons_self))) hrest
  exact hall [] name rfl

/-- What is read up to the closing quote counts no more characters than the name and that quote, and fewer when the name
has a backslash. -/
theorem plainCount_quoted {odd : Bool} (h : Paired odd l) :
    plainCount odd (escaped l) ≤ l.length ∧
      (odd = false → '\\' ∈ l.map Prod.fst → plainCount odd (escaped l) < l.length) := by
  induction l generalizing odd with
  | nil =>
      obtain rfl : odd = false := h
      exact ⟨Nat.le_refl 0, fun _ hmem => by cases hmem⟩
  | cons e l ih =>
      obtain ⟨c, alone⟩ := e
      obtain ⟨-, hquote, hrest⟩ := h
      obtain ⟨hle, hlt⟩ := ih hrest
      rw [List.map_cons, List.length_cons]
      by_cases hq : (c, alone) = ('"', true)
      · cases hq
        obtain rfl : odd = false := (hquote rfl).2 rfl
        have hcount : plainCount false ('\\' :: '"' :: escaped l) = 1 + plainCount false (escaped l) := rfl
        rw [Bool.not_false, Bool.true_and, decide_eq_false (by decide)] at hle hlt
        rw [escaped_quote, hcount]
        refine ⟨by omega, fun _ hmem => ?_⟩
        have := hlt rfl ((List.mem_cons.1 hmem).resolve_left (by decide))
        omega
      · rw [escaped_cons hq]
        cases odd with
        | true =>
            have hcount : plainCount true (c :: escaped l) = 1 + plainCount false (escaped l) := rfl
            rw [Bool.not_true, Bool.false_and] at hle
            rw [hcount]
            exact ⟨by omega, fun hfalse => by cases hfalse⟩
        | false =>
            by_cases hb : c = '\\'
            · subst hb
              have hcount : plainCount false ('\\' :: escaped l) = plainCount true (escaped l) := rfl
              rw [hcount]
              have hle : plainCount true (escaped l) ≤ l.length := by simpa using hle
              exact ⟨by omega, fun _ _ => by omega⟩
            · have hcount : plainCount false (c :: escaped l) = 1 + plainCount false (escaped l) := if_neg hb
              rw [Bool.not_false, Bool.true_and, decide_eq_false hb] at hle hlt
              rw [hcount]
              refine ⟨by omega, fun _ hmem => ?_⟩
              have := hlt rfl ((List.mem_cons.1 hmem).resolve_left (Ne.symm hb))
              omega

/-- No constant that is read denotes a name with a backslash. -/
theorem not_denotes_of_backslash {e : Escapes} (hback : '\\' ∈ name) (h : QuotesPaired boundary name) :
    ¬ e.Denotes (escaped (scalars boundary name)) name := by
  intro hdenotes
  have hle := hdenotes.length_le
  have hlt := (plainCount_quoted ((paired_scalars boundary name).2 h)).2 rfl (by simpa [scalars] using hback)
  rw [scalars, length_scalarsIn] at hlt
  exact absurd hle (Nat.not_le.2 hlt)

end ObservableBSD.Instruments
