import Mathlib.Data.List.TakeWhile
import ObservableBSD.Instruments.Lemmas.Render
import ObservableBSD.Instruments.Parameters

/-!
# Placeholders

A placeholder begins at its only dollar sign, so no two overlap and a text is a row of characters and placeholders.
-/

namespace ObservableBSD.Instruments

open Base Export

variable {boundary : CharacterBoundary} {parameters : Text → Option Text} {name front s t u : Text} {c : Char}

/-! ## Names -/

theorem isIdentChar_of_isIdentStart (h : isIdentStart c = true) : isIdentChar c = true := by
  rw [isIdentChar, h, Bool.true_or]

theorem IsIdent.all (h : IsIdent name) : ∀ d ∈ name, isIdentChar d = true := by
  cases name with
  | nil => cases h
  | cons c name => exact List.forall_mem_cons.2 ⟨isIdentChar_of_isIdentStart h.1, h.2⟩

theorem IsIdent.notMem (h : IsIdent name) (hc : isIdentChar c = false) : c ∉ name := fun hmem => by
  rw [h.all c hmem] at hc
  cases hc

theorem takeWhile_ident (h : ∀ d ∈ name, isIdentChar d = true) (s : Text) :
    (name ++ '}' :: s).takeWhile isIdentChar = name ∧ (name ++ '}' :: s).dropWhile isIdentChar = '}' :: s := by
  induction name with
  | nil => exact ⟨rfl, rfl⟩
  | cons c name ih =>
      obtain ⟨htake, hdrop⟩ := ih fun d hd => h d (List.mem_cons_of_mem _ hd)
      have hc : isIdentChar c = true := h c List.mem_cons_self
      rw [List.cons_append, List.takeWhile_cons, List.dropWhile_cons, if_pos hc, if_pos hc, htake, hdrop]
      exact ⟨rfl, rfl⟩

theorem placeholderName?_placeholder (h : IsIdent name) (s : Text) :
    placeholderName? (placeholder name ++ s) = some name := by
  cases name with
  | nil => cases h
  | cons c name =>
      obtain ⟨htake, hdrop⟩ := takeWhile_ident h.2 s
      have hshape : placeholder (c :: name) ++ s = '$' :: '{' :: c :: (name ++ '}' :: s) := by simp [placeholder]
      rw [hshape, placeholderName?, htake, hdrop, if_pos ⟨h.1, rfl⟩]

theorem placeholderName?_eq_some (h : placeholderName? s = some name) :
    IsIdent name ∧ ∃ rest, s = placeholder name ++ rest := by
  unfold placeholderName? at h
  split at h
  · rename_i c s
    split at h
    · rename_i hmatch
      obtain ⟨hstart, hhead⟩ := hmatch
      cases h
      cases hdrop : s.dropWhile isIdentChar with
      | nil => rw [hdrop] at hhead; cases hhead
      | cons d rest =>
          rw [hdrop] at hhead
          cases hhead
          have hsplit : s = s.takeWhile isIdentChar ++ '}' :: rest := by rw [← hdrop, List.takeWhile_append_dropWhile]
          refine ⟨⟨hstart, fun d hd => List.mem_takeWhile_imp hd⟩, rest, ?_⟩
          simpa [placeholder] using hsplit
    · cases h
  · cases h

theorem placeholderName?_eq_none_iff : placeholderName? s = none ↔ ∀ name, IsIdent name → ¬ placeholder name <+: s := by
  constructor
  · rintro h name hname ⟨rest, rfl⟩
    rw [placeholderName?_placeholder hname] at h
    cases h
  · intro h
    cases hs : placeholderName? s with
    | none => rfl
    | some name =>
        obtain ⟨hname, rest, rfl⟩ := placeholderName?_eq_some hs
        exact absurd (List.prefix_append _ rest) (h name hname)

/-! ## Rows of characters and placeholders -/

@[elab_as_elim]
theorem placeholder_induction {motive : Text → Prop} (nil : motive [])
    (plain : ∀ c s, placeholderName? (c :: s) = none → motive s → motive (c :: s))
    (placeholder : ∀ name s, IsIdent name → motive s → motive (placeholder name ++ s)) (s : Text) : motive s := by
  induction hn : s.length using Nat.strongRecOn generalizing s with
  | ind n ih =>
      cases s with
      | nil => exact nil
      | cons c s =>
          cases hname : placeholderName? (c :: s) with
          | none => exact plain c s hname (ih s.length (by rw [← hn]; exact Nat.lt_succ_self _) s rfl)
          | some name =>
              obtain ⟨hident, rest, hrest⟩ := placeholderName?_eq_some hname
              have hlt : rest.length < n := by
                have hlen := congrArg List.length hrest
                simp only [Instruments.placeholder, List.length_append, List.length_cons] at hlen hn
                omega
              rw [hrest]
              exact placeholder name rest hident (ih rest.length hlt rest rfl)

/-- A placeholder that begins behind the dollar sign of another one begins behind all of it. -/
theorem hasPlaceholder_append_iff (hu : '$' ∉ u) : HasPlaceholder (u ++ s) name ↔ HasPlaceholder s name := by
  unfold HasPlaceholder
  refine and_congr_right fun _ => ⟨fun h => ?_, fun h => h.trans (List.suffix_append u s).isInfix⟩
  induction u with
  | nil => exact h
  | cons c u ih =>
      rcases List.infix_cons_iff.1 h with hpre | hinfix
      · exact absurd (List.cons_prefix_cons.1 hpre).1 fun hc => hu (hc ▸ List.mem_cons_self)
      · exact ih (fun hmem => hu (List.mem_cons_of_mem _ hmem)) hinfix

theorem hasPlaceholder_cons_iff (h : placeholderName? (c :: s) = none) :
    HasPlaceholder (c :: s) name ↔ HasPlaceholder s name := by
  unfold HasPlaceholder
  refine and_congr_right fun hname => ⟨fun hinfix => ?_, List.infix_cons⟩
  exact (List.infix_cons_iff.1 hinfix).resolve_left (placeholderName?_eq_none_iff.1 h name hname)

theorem hasPlaceholder_placeholder_iff (hname : IsIdent name) {other : Text} :
    HasPlaceholder (placeholder name ++ s) other ↔ other = name ∨ HasPlaceholder s other := by
  have hdollar : '$' ∉ '{' :: (name ++ ['}']) := by simp [hname.notMem (c := '$') (by decide)]
  have hrest : HasPlaceholder ('{' :: (name ++ ['}']) ++ s) other ↔ HasPlaceholder s other :=
    hasPlaceholder_append_iff hdollar
  rw [← hrest]
  constructor
  · rintro ⟨hother, hinfix⟩
    rcases List.infix_cons_iff.1 hinfix with hpre | hinfix
    · obtain ⟨rest, heq⟩ := hpre
      have hsame := placeholderName?_placeholder hother rest
      have hwhole : placeholder other ++ rest = placeholder name ++ s := heq
      rw [hwhole, placeholderName?_placeholder hname] at hsame
      exact .inl (Option.some.inj hsame).symm
    · exact .inr ⟨hother, hinfix⟩
  · rintro (rfl | ⟨hother, hinfix⟩)
    · exact ⟨hname, (List.prefix_append _ s).isInfix⟩
    · exact ⟨hother, List.infix_cons hinfix⟩

theorem not_hasPlaceholder_nil : ¬ HasPlaceholder [] name := fun h => by
  have hnil := List.infix_nil.1 h.2
  cases hnil

/-! ## Substitution -/

theorem substitutes_nil_iff : Substitutes parameters [] t ↔ t = [] := by
  constructor
  · intro h
    generalize hs : ([] : Text) = s at h
    cases h with
    | nil => rfl
    | plain => cases hs
    | placeholder => cases hs
  · rintro rfl
    exact .nil

theorem substitutes_cons_iff (h : placeholderName? (c :: s) = none) :
    Substitutes parameters (c :: s) t ↔ ∃ t', t = c :: t' ∧ Substitutes parameters s t' := by
  constructor
  · intro hsub
    generalize hs : c :: s = whole at hsub
    cases hsub with
    | nil => cases hs
    | plain _ hrest =>
        cases hs
        exact ⟨_, rfl, hrest⟩
    | placeholder hname =>
        rw [hs, placeholderName?_placeholder hname] at h
        cases h
  · rintro ⟨t', rfl, hrest⟩
    exact .plain (placeholderName?_eq_none_iff.1 h) hrest

theorem substitutes_placeholder_iff (hname : IsIdent name) : Substitutes parameters (placeholder name ++ s) t ↔
    ∃ value t', parameters name = some value ∧ t = value ++ t' ∧ Substitutes parameters s t' := by
  constructor
  · intro hsub
    have hsome := placeholderName?_placeholder hname s
    generalize hs : placeholder name ++ s = whole at hsub hsome
    cases hsub with
    | nil => cases hs
    | plain hnone _ => exact absurd (hs ▸ List.prefix_append _ s) (hnone name hname)
    | @placeholder other value s' t' hother hvalue hrest =>
        rw [placeholderName?_placeholder hother] at hsome
        obtain rfl : other = name := Option.some.inj hsome
        obtain rfl : s = s' := List.append_cancel_left hs
        exact ⟨value, t', hvalue, rfl, hrest⟩
  · rintro ⟨value, t', hvalue, rfl, hrest⟩
    exact .placeholder hname hvalue hrest

theorem Substitutes.unique {t' : Text} (h : Substitutes parameters s t) (h' : Substitutes parameters s t') :
    t' = t := by
  induction s using placeholder_induction generalizing t t' with
  | nil => rw [substitutes_nil_iff.1 h, substitutes_nil_iff.1 h']
  | plain c s hnone ih =>
      obtain ⟨u, rfl, hu⟩ := (substitutes_cons_iff hnone).1 h
      obtain ⟨u', rfl, hu'⟩ := (substitutes_cons_iff hnone).1 h'
      rw [ih hu hu']
  | placeholder name s hname ih =>
      obtain ⟨value, u, hvalue, rfl, hu⟩ := (substitutes_placeholder_iff hname).1 h
      obtain ⟨value', u', hvalue', rfl, hu'⟩ := (substitutes_placeholder_iff hname).1 h'
      rw [hvalue] at hvalue'
      cases hvalue'
      rw [ih hu hu']

/-- A text without a value for one of its placeholders has one; any other has a substitution. -/
theorem exists_substitutes_or_missing (parameters : Text → Option Text) (s : Text) :
    (∃ t, Substitutes parameters s t) ∨ ∃ name, HasPlaceholder s name ∧ parameters name = none := by
  induction s using placeholder_induction with
  | nil => exact .inl ⟨[], .nil⟩
  | plain c s hnone ih =>
      rcases ih with ⟨t, ht⟩ | ⟨name, hhas, hmissing⟩
      · exact .inl ⟨c :: t, (substitutes_cons_iff hnone).2 ⟨t, rfl, ht⟩⟩
      · exact .inr ⟨name, (hasPlaceholder_cons_iff hnone).2 hhas, hmissing⟩
  | placeholder name s hname ih =>
      rcases ih with ⟨t, ht⟩ | ⟨other, hhas, hmissing⟩
      · cases hvalue : parameters name with
        | none => exact .inr ⟨name, (hasPlaceholder_placeholder_iff hname).2 (.inl rfl), hvalue⟩
        | some value => exact .inl ⟨value ++ t, .placeholder hname hvalue ht⟩
      · exact .inr ⟨other, (hasPlaceholder_placeholder_iff hname).2 (.inr hhas), hmissing⟩

theorem Substitutes.not_missing (h : Substitutes parameters s t) (hhas : HasPlaceholder s name) :
    parameters name ≠ none := by
  induction s using placeholder_induction generalizing t with
  | nil => exact absurd hhas not_hasPlaceholder_nil
  | plain c s hnone ih =>
      obtain ⟨u, _, hu⟩ := (substitutes_cons_iff hnone).1 h
      exact ih hu ((hasPlaceholder_cons_iff hnone).1 hhas)
  | placeholder other s hother ih =>
      obtain ⟨value, u, hvalue, _, hu⟩ := (substitutes_placeholder_iff hother).1 h
      rcases (hasPlaceholder_placeholder_iff hother).1 hhas with rfl | hhas
      · rw [hvalue]
        exact Option.some_ne_none value
      · exact ih hu hhas

/-! ## Matches -/

theorem placeholderMatches_skip (location : Nat) : ∀ x s : Text,
    placeholderMatches location x.length (x ++ s) = placeholderMatches (location + x.length) 0 s
  | [], _ => rfl
  | _ :: x, s => by
      rw [List.cons_append, List.length_cons, placeholderMatches, placeholderMatches_skip (location + 1) x s]
      congr 1
      omega

/-- The match of a placeholder at an offset. -/
def matchOf (location : Nat) (name : Text) : PlaceholderMatch :=
  ⟨⟨location, name.length + 3⟩, ⟨location + 2, name.length⟩⟩

theorem placeholderMatches_cons (h : placeholderName? (c :: s) = none) (location : Nat) :
    placeholderMatches location 0 (c :: s) = placeholderMatches (location + 1) 0 s := by
  rw [placeholderMatches, h]

theorem length_placeholder (name : Text) : (placeholder name).length = name.length + 3 := by
  simp [placeholder]

theorem placeholderMatches_placeholder (hname : IsIdent name) (location : Nat) (s : Text) :
    placeholderMatches location 0 (placeholder name ++ s) =
      matchOf location name :: placeholderMatches (location + (placeholder name).length) 0 s := by
  have hfound := placeholderName?_placeholder hname s
  have hskip := placeholderMatches_skip (location + 1) ('{' :: (name ++ ['}'])) s
  have hlen : ('{' :: (name ++ ['}'])).length = name.length + 2 := by simp
  rw [hlen] at hskip
  have hshape : placeholder name ++ s = '$' :: ('{' :: (name ++ ['}']) ++ s) := rfl
  rw [hshape] at hfound ⊢
  rw [placeholderMatches, hfound, length_placeholder]
  dsimp only
  rw [hskip, matchOf]
  congr 2
  omega

/-! ## The loop -/

theorem cut?_append (boundary : CharacterBoundary) {r : NSRange} {inside : Text} (behind : Text)
    (hloc : r.location = front.length) (hlen : r.length = inside.length) :
    r.cut? boundary (front ++ (inside ++ behind)) =
      if boundary front (inside ++ behind) ∧ boundary (front ++ inside) behind then
        some (front, inside, behind)
      else none := by
  have hdrop : (front ++ (inside ++ behind)).drop (front.length + inside.length) = behind := by
    rw [← List.append_assoc, ← List.length_append, List.drop_left]
  have hle : front.length + inside.length ≤ (front ++ (inside ++ behind)).length := by
    rw [List.length_append, List.length_append]
    omega
  unfold NSRange.cut?
  simp only [hloc, hlen, hdrop, List.take_left, List.drop_left, hle, true_and]

theorem cut?_nameRange (front name behind : Text) :
    (matchOf front.length name).nameRange.cut? boundary (front ++ (placeholder name ++ behind)) =
      if boundary (front ++ ['$', '{']) (name ++ '}' :: behind) ∧
        boundary (front ++ '$' :: '{' :: name) ('}' :: behind) then
        some (front ++ ['$', '{'], name, '}' :: behind)
      else none := by
  have hloc : (matchOf front.length name).nameRange.location = (front ++ ['$', '{']).length := by simp [matchOf]
  have hcut := cut?_append boundary ('}' :: behind) hloc rfl
  have hfront : front ++ ['$', '{'] ++ name = front ++ '$' :: '{' :: name := by simp
  have hshape : front ++ ['$', '{'] ++ (name ++ '}' :: behind) = front ++ (placeholder name ++ behind) := by
    simp [placeholder]
  rwa [hshape, hfront] at hcut

theorem cut?_range (front name behind : Text) :
    (matchOf front.length name).range.cut? boundary (front ++ (placeholder name ++ behind)) =
      if boundary front (placeholder name ++ behind) ∧ boundary (front ++ placeholder name) behind then
        some (front, placeholder name, behind)
      else none :=
  cut?_append boundary behind rfl (length_placeholder name).symm

section Step

variable (profile : Text) (ms : List PlaceholderMatch) {behind value : Text}

theorem replaceMatches_value (h : OnBoundaries boundary front name behind) (hvalue : parameters name = some value) :
    replaceMatches boundary parameters profile (matchOf front.length name :: ms)
      (front ++ (placeholder name ++ behind)) =
      replaceMatches boundary parameters profile ms (front ++ (value ++ behind)) := by
  rw [replaceMatches, cut?_nameRange, cut?_range, if_pos ⟨h.nameFirst, h.nameLast⟩, if_pos ⟨h.first, h.last⟩]
  simp only [hvalue, List.append_assoc]

theorem replaceMatches_missing (h : OnBoundaries boundary front name behind) (hvalue : parameters name = none) :
    replaceMatches boundary parameters profile (matchOf front.length name :: ms)
      (front ++ (placeholder name ++ behind)) =
      .error (.missingParameter name profile) := by
  rw [replaceMatches, cut?_nameRange, cut?_range, if_pos ⟨h.nameFirst, h.nameLast⟩, if_pos ⟨h.first, h.last⟩]
  simp only [hvalue]

/-- A placeholder whose ends are inside of a `Character` stays, with or without a value. -/
theorem replaceMatches_left (h : ¬ OnBoundaries boundary front name behind) :
    replaceMatches boundary parameters profile (matchOf front.length name :: ms)
      (front ++ (placeholder name ++ behind)) =
      replaceMatches boundary parameters profile ms (front ++ (placeholder name ++ behind)) := by
  rw [replaceMatches, cut?_nameRange, cut?_range]
  by_cases hname : boundary (front ++ ['$', '{']) (name ++ '}' :: behind) ∧
    boundary (front ++ '$' :: '{' :: name) ('}' :: behind)
  · have hwhole : ¬ (boundary front (placeholder name ++ behind) ∧ boundary (front ++ placeholder name) behind) :=
      fun hwhole => h ⟨hwhole.1, hname.1, hname.2, hwhole.2⟩
    rw [if_pos hname, if_neg hwhole]
  · rw [if_neg hname]

end Step

theorem PlaceholdersOnBoundaries.append (h : PlaceholdersOnBoundaries boundary parameters front (u ++ s)) :
    PlaceholdersOnBoundaries boundary parameters (front ++ u) s := by
  rintro before name behind t rfl hname hsub
  rw [List.append_assoc]
  exact h (u ++ before) name behind t (List.append_assoc ..).symm hname hsub

theorem PlaceholdersOnBoundaries.head (h : PlaceholdersOnBoundaries boundary parameters front (placeholder name ++ s))
    (hname : IsIdent name) (hsub : Substitutes parameters s t) : OnBoundaries boundary front name t := by
  have hfirst := h [] name s t rfl hname hsub
  rwa [List.append_nil] at hfirst

/-- The loop over the matches of the rest of a source puts all values in. -/
theorem replaceMatches_substitutes (profile : Text) (ms : List PlaceholderMatch) (front : Text)
    (hsub : Substitutes parameters s t) (h : PlaceholdersOnBoundaries boundary parameters front s) :
    replaceMatches boundary parameters profile ((placeholderMatches front.length 0 s).reverse ++ ms) (front ++ s) =
      replaceMatches boundary parameters profile ms (front ++ t) := by
  induction s using placeholder_induction generalizing front t ms with
  | nil =>
      rw [substitutes_nil_iff.1 hsub]
      rfl
  | plain c s hnone ih =>
      obtain ⟨t, rfl, ht⟩ := (substitutes_cons_iff hnone).1 hsub
      have hrest := ih ms _ ht (PlaceholdersOnBoundaries.append (u := [c]) h)
      rw [List.length_append, List.append_assoc, List.append_assoc] at hrest
      rw [placeholderMatches_cons hnone]
      exact hrest
  | placeholder name s hname ih =>
      obtain ⟨value, t, hvalue, rfl, ht⟩ := (substitutes_placeholder_iff hname).1 hsub
      have hrest := ih (matchOf front.length name :: ms) _ ht h.append
      rw [List.length_append, List.append_assoc, List.append_assoc] at hrest
      rw [placeholderMatches_placeholder hname, List.reverse_cons, List.append_assoc, List.singleton_append, hrest]
      exact replaceMatches_value profile ms (h.head hname ht) hvalue

/-- The loop stops at the last placeholder that has no value. -/
theorem replaceMatches_of_missing (profile : Text) (ms : List PlaceholderMatch) (front : Text)
    (hmissing : ∃ name, HasPlaceholder s name ∧ parameters name = none)
    (h : PlaceholdersOnBoundaries boundary parameters front s) :
    ∃ name, HasPlaceholder s name ∧ parameters name = none ∧
      replaceMatches boundary parameters profile ((placeholderMatches front.length 0 s).reverse ++ ms) (front ++ s) =
        .error (.missingParameter name profile) := by
  induction s using placeholder_induction generalizing front ms with
  | nil =>
      obtain ⟨name, hhas, _⟩ := hmissing
      exact absurd hhas not_hasPlaceholder_nil
  | plain c s hnone ih =>
      simp only [hasPlaceholder_cons_iff hnone] at hmissing ⊢
      obtain ⟨name, hhas, hvalue, hrest⟩ := ih ms _ hmissing (PlaceholdersOnBoundaries.append (u := [c]) h)
      rw [List.length_append, List.append_assoc] at hrest
      refine ⟨name, hhas, hvalue, ?_⟩
      rw [placeholderMatches_cons hnone]
      exact hrest
  | placeholder name s hname ih =>
      rcases exists_substitutes_or_missing parameters s with ⟨t, ht⟩ | hlater
      · have hrest := replaceMatches_substitutes profile (matchOf front.length name :: ms) _ ht h.append
        rw [List.length_append, List.append_assoc, List.append_assoc] at hrest
        have hvalue : parameters name = none := by
          obtain ⟨other, hhas, hvalue⟩ := hmissing
          rcases (hasPlaceholder_placeholder_iff hname).1 hhas with rfl | hhas
          · exact hvalue
          · exact absurd hvalue (ht.not_missing hhas)
        refine ⟨name, (hasPlaceholder_placeholder_iff hname).2 (.inl rfl), hvalue, ?_⟩
        rw [placeholderMatches_placeholder hname, List.reverse_cons, List.append_assoc, List.singleton_append, hrest]
        exact replaceMatches_missing profile ms (h.head hname ht) hvalue
      · obtain ⟨other, hhas, hvalue, hrest⟩ := ih (matchOf front.length name :: ms) _ hlater h.append
        rw [List.length_append, List.append_assoc] at hrest
        refine ⟨other, (hasPlaceholder_placeholder_iff hname).2 (.inr hhas), hvalue, ?_⟩
        rw [placeholderMatches_placeholder hname, List.reverse_cons, List.append_assoc, List.singleton_append, hrest]

/-- A placeholder does not reach over a dollar sign. -/
theorem placeholderName?_append_dollar (h : placeholderName? (c :: s) = none) (t : Text) :
    placeholderName? (c :: (s ++ '$' :: t)) = none := by
  rw [placeholderName?_eq_none_iff] at h ⊢
  rintro name hname ⟨rest, heq⟩
  have htail : '$' ∉ '{' :: (name ++ ['}']) := by simp [hname.notMem (c := '$') (by decide)]
  rcases List.append_eq_append_iff.1 (show placeholder name ++ rest = c :: s ++ '$' :: t from heq) with
    ⟨x, hx, _⟩ | ⟨x, hx, hrest⟩
  · exact h name hname ⟨x, hx.symm⟩
  · cases x with
    | nil => exact h name hname ⟨[], by rw [hx, List.append_nil, List.append_nil]⟩
    | cons d x =>
        obtain ⟨rfl, _⟩ := List.cons.inj hrest
        obtain ⟨rfl, hs⟩ := List.cons.inj (show '$' :: '{' :: (name ++ ['}']) = c :: (s ++ '$' :: x) from hx)
        exact htail (hs ▸ List.mem_append_right s List.mem_cons_self)

theorem placeholderMatches_append_dollar (location : Nat) (s t : Text) :
    placeholderMatches location 0 (s ++ '$' :: t) =
      placeholderMatches location 0 s ++ placeholderMatches (location + s.length) 0 ('$' :: t) := by
  induction s using placeholder_induction generalizing location with
  | nil => rfl
  | plain c s hnone ih =>
      rw [placeholderMatches_cons hnone, List.cons_append,
        placeholderMatches_cons (placeholderName?_append_dollar hnone t), ih, List.length_cons, Nat.add_assoc,
        Nat.add_comm 1]
  | placeholder name s hname ih =>
      rw [List.append_assoc, placeholderMatches_placeholder hname, placeholderMatches_placeholder hname, ih,
        List.cons_append, List.length_append, Nat.add_assoc]

/-- With a value for every placeholder of `s`, the loop over their matches goes on, whatever stays. -/
theorem replaceMatches_of_values (boundary : CharacterBoundary) (profile : Text) (ms : List PlaceholderMatch)
    (front behind : Text)
    (h : ∀ name, HasPlaceholder s name → parameters name ≠ none) :
    ∃ t, replaceMatches boundary parameters profile ((placeholderMatches front.length 0 s).reverse ++ ms)
        (front ++ (s ++ behind)) = replaceMatches boundary parameters profile ms (front ++ t) := by
  induction s using placeholder_induction generalizing front ms with
  | nil => exact ⟨behind, rfl⟩
  | plain c s hnone ih =>
      obtain ⟨t, ht⟩ := ih ms (front ++ [c]) fun name hhas => h name ((hasPlaceholder_cons_iff hnone).2 hhas)
      rw [List.length_append, List.append_assoc, List.append_assoc] at ht
      exact ⟨c :: t, by rw [placeholderMatches_cons hnone]; exact ht⟩
  | placeholder name s hname ih =>
      have hlater (other : Text) (hhas : HasPlaceholder s other) : parameters other ≠ none :=
        h other ((hasPlaceholder_placeholder_iff hname).2 (.inr hhas))
      obtain ⟨t, ht⟩ := ih (matchOf front.length name :: ms) (front ++ placeholder name) hlater
      rw [List.length_append, List.append_assoc, List.append_assoc] at ht
      rw [placeholderMatches_placeholder hname, List.reverse_cons, List.append_assoc, List.append_assoc,
        List.singleton_append, ht]
      obtain ⟨value, hvalue⟩ := Option.ne_none_iff_exists'.1
        (h name ((hasPlaceholder_placeholder_iff hname).2 (.inl rfl)))
      by_cases hb : OnBoundaries boundary front name t
      · exact ⟨value ++ t, replaceMatches_value profile ms hb hvalue⟩
      · exact ⟨placeholder name ++ t, replaceMatches_left profile ms hb⟩

/-! ## Rendering -/

theorem Injection.render_of_unmarked (i : Injection) (h : ∀ m ∈ markerComments, ¬ m <:+: t) :
    i.render boundary t = t := by
  have hkept (r : Text) {m : Text} (hm : m ∈ markerComments) : replacingOccurrences boundary m r t = t :=
    replacingOccurrences_of_not_infix (h m hm)
  unfold Injection.render
  dsimp only
  rw [hkept _ (by simp [markerComments]), hkept _ (by simp [markerComments]), hkept _ (by simp [markerComments]),
    hkept _ (by simp [markerComments])]

theorem Profile.render_of_substitutes {p : Profile} (hsub : Substitutes parameters p.source t)
    (h : PlaceholdersOnBoundaries boundary parameters [] p.source) (i : Injection) (nanos : Option Nat) :
    ∃ suffix, p.render boundary parameters i nanos = .ok (i.render boundary t ++ suffix) ∧
      (nanos = none → suffix = []) := by
  have hloop := replaceMatches_substitutes p.name [] [] hsub h
  rw [List.append_nil] at hloop
  unfold Profile.render
  rw [List.length_nil, List.nil_append] at hloop
  rw [hloop]
  cases nanos with
  | none => exact ⟨[], by rw [List.append_nil]; rfl, fun _ => rfl⟩
  | some n => exact ⟨_, by rw [← List.append_assoc, ← List.append_assoc]; rfl, fun hnone => by cases hnone⟩

theorem Profile.render_of_missing {p : Profile}
    (hmissing : ∃ name, HasPlaceholder p.source name ∧ parameters name = none)
    (h : PlaceholdersOnBoundaries boundary parameters [] p.source) (i : Injection) (nanos : Option Nat) :
    ∃ name, p.render boundary parameters i nanos = .error (.missingParameter name p.name) := by
  obtain ⟨name, _, _, hloop⟩ := replaceMatches_of_missing p.name [] [] hmissing h
  rw [List.append_nil, List.length_nil, List.nil_append] at hloop
  unfold Profile.render
  rw [hloop]
  exact ⟨name, rfl⟩

section Last

variable {p : Profile} {behind : Text} (hsource : p.source = front ++ (placeholder name ++ behind))
  (hname : IsIdent name)
  (hsub : Substitutes parameters behind t)
  (hbehind : PlaceholdersOnBoundaries boundary parameters (front ++ placeholder name) behind)

include hsource hname hsub hbehind

/-- The loop reaches a placeholder with the values behind it put in. -/
theorem Profile.replaceMatches_source :
    replaceMatches boundary parameters p.name (placeholderMatches 0 0 p.source).reverse p.source =
      replaceMatches boundary parameters p.name (matchOf front.length name :: (placeholderMatches 0 0 front).reverse)
        (front ++ (placeholder name ++ t)) := by
  have hmatches : placeholderMatches 0 0 p.source = placeholderMatches 0 0 front ++
      matchOf front.length name :: placeholderMatches (front ++ placeholder name).length 0 behind := by
    have hsplit := placeholderMatches_append_dollar 0 front ('{' :: (name ++ ['}']) ++ behind)
    have hlater := placeholderMatches_placeholder hname front.length behind
    rw [Nat.zero_add] at hsplit
    rw [hsource, List.length_append, ← hlater]
    exact hsplit
  have hlater := replaceMatches_substitutes p.name (matchOf front.length name :: (placeholderMatches 0 0 front).reverse)
    (front ++ placeholder name) hsub hbehind
  rw [List.append_assoc, List.append_assoc] at hlater
  rw [hmatches, List.reverse_append, List.reverse_cons, List.append_assoc, List.singleton_append, hsource, hlater]

/-- A placeholder without a value that is on boundaries stops the loop. -/
theorem Profile.render_of_onBoundaries (h : OnBoundaries boundary front name t) (hvalue : parameters name = none)
    (i : Injection) (nanos : Option Nat) :
    p.render boundary parameters i nanos = .error (.missingParameter name p.name) := by
  unfold Profile.render
  rw [Profile.replaceMatches_source hsource hname hsub hbehind, replaceMatches_missing _ _ h hvalue]
  rfl

/-- One that is not on boundaries is passed over. -/
theorem Profile.render_of_left (hfront : ∀ other, HasPlaceholder front other → parameters other ≠ none)
    (h : ¬ OnBoundaries boundary front name t) : ∃ t, p.render boundary parameters {} none = .ok t := by
  obtain ⟨r, hr⟩ := replaceMatches_of_values boundary p.name [] [] (placeholder name ++ t) hfront
  rw [List.append_nil, List.length_nil, List.nil_append] at hr
  unfold Profile.render
  rw [Profile.replaceMatches_source hsource hname hsub hbehind, replaceMatches_left _ _ h, hr]
  exact ⟨_, rfl⟩

end Last

end ObservableBSD.Instruments
