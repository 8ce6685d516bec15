import ObservableBSD.DLang.Lemmas.Listing
import ObservableBSD.Instruments.KeyNames
import ObservableBSD.Instruments.Lemmas.Parameters
import ObservableBSD.Instruments.Lemmas.Text

/-!
# Names of aggregation keys

The match that gives the names of an aggregation, the pieces of its keys, and what one piece is taken for.
-/

namespace ObservableBSD.Instruments

open Base DLang Export

variable {boundary : CharacterBoundary} {beyond : Char → Bool} {source name front use list rest : Text}
  {element : Element} {elements : List Element} {i : Nat}

/-! ## Matches -/

theorem isWordChar_of_isIdentChar {c : Char} (h : isIdentChar c = true) : isWordChar c = true := by
  simp only [isIdentChar, isIdentStart, Bool.or_eq_true, Bool.and_eq_true, decide_eq_true_eq] at h
  have halnum (h : c.isAlphanum = true) : isWordChar c = true := by rw [isWordChar, h, Bool.true_or]
  have halpha (h : c.isAlpha = true) : isWordChar c = true := halnum (Bool.or_eq_true_iff.2 (.inl h))
  rcases h with ((hupper | hlower) | rfl) | hdigit
  · exact halpha (Bool.or_eq_true_iff.2 (.inl (decide_eq_true hupper)))
  · have hlower : c.isLower = true := Bool.and_eq_true_iff.2 ⟨decide_eq_true hlower.1, decide_eq_true hlower.2⟩
    exact halpha (Bool.or_eq_true_iff.2 (.inr hlower))
  · rfl
  · have hdigit : c.isDigit = true := Bool.and_eq_true_iff.2 ⟨decide_eq_true hdigit.1, decide_eq_true hdigit.2⟩
    exact halnum (Bool.or_eq_true_iff.2 (.inr hdigit))

theorem lexStep_aggregation (h : IsIdent name) (list : Text) :
    lexStep ('@' :: (name ++ '[' :: list)) = some ([.word ('@' :: name)], '[' :: list) := by
  have hword : ∀ c ∈ '@' :: name, isWordChar c = true :=
    List.forall_mem_cons.2 ⟨rfl, fun c hc => isWordChar_of_isIdentChar (h.all c hc)⟩
  exact lexStep_word (List.cons_ne_nil _ _) hword rfl list

theorem isWord_of_isIdentChar {c : Char} (h : isIdentChar c = true) : isWord beyond c = true := by
  rw [isWord, h, Bool.true_or]

theorem isWord_bracket : isWord beyond '[' = false := by simp [isWord, isIdentChar, isIdentStart]

theorem keyMatch?_use (location : Nat) (hname : IsIdent name) (hclosing : ']' ∈ list)
    (hkeys : list.takeWhile (· ≠ ']') ≠ []) :
    keyMatch? beyond location ('@' :: (name ++ '[' :: list)) = some ⟨location, name, list.takeWhile (· ≠ ']')⟩ := by
  have hword : ∀ c ∈ name, isWord beyond c = true := fun c hc => isWord_of_isIdentChar (hname.all c hc)
  have hne : name ≠ [] := by
    rintro rfl
    exact hname
  have htake : (name ++ '[' :: list).takeWhile (isWord beyond) = name := by
    rw [List.takeWhile_append_of_pos hword, List.takeWhile_cons_of_neg (by simp [isWord_bracket]), List.append_nil]
  have hdrop : (name ++ '[' :: list).dropWhile (isWord beyond) = '[' :: list := by
    rw [List.dropWhile_append_of_pos hword, List.dropWhile_cons_of_neg (by simp [isWord_bracket])]
  simp only [keyMatch?, htake, hdrop, List.tail_cons, List.head?_cons]
  exact if_pos ⟨hne, hkeys, trivial, List.mem_cons_of_mem _ hclosing⟩

/-- The matches that start in front of a place end there. -/
theorem keyMatches_append {location : Nat} (h : ∀ before s m, front = before ++ s → s ≠ [] →
      keyMatch? beyond (location + before.length) (s ++ use) = some m → m.name ≠ name ∧ m.length ≤ s.length)
    {skip : Nat} (hskip : skip ≤ front.length) :
    ∃ ms, keyMatches beyond location skip (front ++ use) =
        ms ++ keyMatches beyond (location + front.length) 0 use ∧ ∀ m ∈ ms, m.name ≠ name := by
  induction front generalizing location skip with
  | nil =>
      cases Nat.le_zero.1 hskip
      exact ⟨[], rfl, fun m hm => by cases hm⟩
  | cons c front ih =>
      have hlocation (n : Nat) : location + 1 + n = location + (n + 1) := by omega
      have hrest : ∀ before s m, front = before ++ s → s ≠ [] →
          keyMatch? beyond (location + 1 + before.length) (s ++ use) = some m →
          m.name ≠ name ∧ m.length ≤ s.length := fun before s m hs hne hm =>
        h (c :: before) s m (by rw [hs, List.cons_append]) hne (by rwa [List.length_cons, ← hlocation])
      rw [List.length_cons, ← hlocation]
      cases skip with
      | succ skip => exact ih hrest (Nat.le_of_succ_le_succ hskip)
      | zero =>
          rw [List.cons_append, keyMatches]
          cases hmatch : keyMatch? beyond location (c :: (front ++ use)) with
          | none => exact ih hrest (Nat.zero_le _)
          | some m =>
              obtain ⟨hname, hlength⟩ := h [] (c :: front) m rfl (List.cons_ne_nil _ _) hmatch
              rw [List.length_cons] at hlength
              have hskip : m.length - 1 ≤ front.length := by omega
              obtain ⟨ms, hms, hnames⟩ := ih hrest hskip
              exact ⟨m :: ms, congrArg _ hms, List.forall_mem_cons.2 ⟨hname, hnames⟩⟩

/-- Where a match is in a text. -/
def KeyMatch.IsIn (m : KeyMatch) (source : Text) : Prop :=
  ∃ front rest, m.location = front.length ∧ source = front ++ '@' :: (m.name ++ '[' :: (m.keys ++ ']' :: rest))

theorem keyMatch?_eq_some {location : Nat} {s : Text} {m : KeyMatch} (h : keyMatch? beyond location s = some m) :
    m.location = location ∧ ∃ rest, s = '@' :: (m.name ++ '[' :: (m.keys ++ ']' :: rest)) := by
  unfold keyMatch? at h
  split at h
  · rename_i s
    dsimp only at h
    split at h
    · rename_i hmatch
      cases h
      obtain ⟨-, -, hopen, hclosing⟩ := hmatch
      refine ⟨rfl, ?_⟩
      obtain ⟨list, hlist⟩ := List.head?_eq_some_iff.1 hopen
      rw [hlist, List.mem_cons, or_iff_right (by decide)] at hclosing
      -- behind the keys stands the bracket that closes
      obtain ⟨rest, hrest⟩ : ∃ rest, list.dropWhile (· ≠ ']') = ']' :: rest := by
        cases hdrop : list.dropWhile (· ≠ ']') with
        | nil =>
            rw [List.dropWhile_eq_nil_iff] at hdrop
            simpa using hdrop _ hclosing
        | cons d rest =>
            have hd := List.head?_dropWhile_not (· ≠ ']') list
            rw [hdrop] at hd
            exact ⟨rest, by rw [show d = ']' by simpa using hd]⟩
      refine ⟨rest, ?_⟩
      rw [hlist, List.tail_cons, ← hrest, List.takeWhile_append_dropWhile, ← hlist, List.takeWhile_append_dropWhile]
    · cases h
  · cases h

theorem isIn_of_mem_keyMatches {skip : Nat} {s : Text} {m : KeyMatch}
    (h : m ∈ keyMatches beyond front.length skip s) : m.IsIn (front ++ s) := by
  induction s generalizing front skip with
  | nil => cases h
  | cons c s ih =>
      have hrest {skip : Nat} (h : m ∈ keyMatches beyond (front.length + 1) skip s) : m.IsIn (front ++ c :: s) := by
        have hin := @ih (front ++ [c]) skip (by rwa [List.length_append])
        rwa [List.append_assoc, List.singleton_append] at hin
      cases skip with
      | succ skip => exact hrest h
      | zero =>
          rw [keyMatches] at h
          split at h
          · rename_i m' hmatch
            rcases List.mem_cons.1 h with rfl | h
            · obtain ⟨hlocation, rest, hs⟩ := keyMatch?_eq_some hmatch
              exact ⟨front, rest, hlocation, by rw [hs]⟩
            · exact hrest h
          · exact hrest h

section Cuts

variable {m : KeyMatch}

theorem cut?_nameRange_of_isIn (hlocation : m.location = front.length) (rest : Text) :
    m.nameRange.cut? boundary (front ++ '@' :: (m.name ++ '[' :: (m.keys ++ ']' :: rest))) =
      if boundary (front ++ ['@']) (m.name ++ '[' :: (m.keys ++ ']' :: rest)) ∧
          boundary (front ++ ['@'] ++ m.name) ('[' :: (m.keys ++ ']' :: rest)) then
        some (front ++ ['@'], m.name, '[' :: (m.keys ++ ']' :: rest))
      else none := by
  have hloc : m.nameRange.location = (front ++ ['@']).length := by simp [KeyMatch.nameRange, hlocation]
  rw [List.append_cons]
  exact cut?_append boundary _ hloc rfl

theorem cut?_keysRange_of_isIn (hlocation : m.location = front.length) (rest : Text) :
    m.keysRange.cut? boundary (front ++ '@' :: (m.name ++ '[' :: (m.keys ++ ']' :: rest))) =
      if boundary (front ++ '@' :: (m.name ++ ['['])) (m.keys ++ ']' :: rest) ∧
          boundary (front ++ '@' :: (m.name ++ '[' :: m.keys)) (']' :: rest) then
        some (front ++ '@' :: (m.name ++ ['[']), m.keys, ']' :: rest)
      else none := by
  have hloc : m.keysRange.location = (front ++ '@' :: (m.name ++ ['['])).length := by
    simp [KeyMatch.keysRange, hlocation]
    omega
  have hcut := cut?_append boundary (']' :: rest) hloc rfl
  have hshape : front ++ '@' :: (m.name ++ ['[']) ++ (m.keys ++ ']' :: rest) =
      front ++ '@' :: (m.name ++ '[' :: (m.keys ++ ']' :: rest)) := by simp
  have hfront : front ++ '@' :: (m.name ++ ['[']) ++ m.keys = front ++ '@' :: (m.name ++ '[' :: m.keys) := by simp
  rwa [hshape, hfront] at hcut

end Cuts

section Rounds

variable {m : KeyMatch} {ms : List KeyMatch} {result : Text → Option (List Text)} {names : List Text}

theorem addKeyNames_cases (boundary : CharacterBoundary) (source : Text) (result : Text → Option (List Text))
    (m : KeyMatch) : addKeyNames boundary source result m = result ∨
      ∃ before name behind keys, m.nameRange.cut? boundary source = some (before, name, behind) ∧ result name = none ∧
        addKeyNames boundary source result m = Function.update result name (some (keyNames boundary keys)) := by
  unfold addKeyNames
  cases hname : m.nameRange.cut? boundary source with
  | none => exact .inl rfl
  | some cut =>
      obtain ⟨before, name, behind⟩ := cut
      cases hkeys : m.keysRange.cut? boundary source with
      | none => exact .inl rfl
      | some cut =>
          obtain ⟨-, keys, -⟩ := cut
          by_cases hfound : result name = none
          · exact .inr ⟨before, name, behind, keys, rfl, hfound, if_neg (not_not.2 hfound)⟩
          · exact .inl (if_pos hfound)

/-- The names of an aggregation stay. -/
theorem addKeyNames_of_some (h : result name = some names) :
    addKeyNames boundary source result m name = some names := by
  rcases addKeyNames_cases boundary source result m with heq | ⟨_, found, _, keys, -, hnone, heq⟩
  · rw [heq, h]
  · have hne : name ≠ found := by
      rintro rfl
      rw [h] at hnone
      cases hnone
    rw [heq, Function.update_of_ne hne, h]

theorem foldl_addKeyNames_of_some (ms : List KeyMatch) (h : result name = some names) :
    ms.foldl (addKeyNames boundary source) result name = some names := by
  induction ms generalizing result with
  | nil => exact h
  | cons m ms ih => exact ih (addKeyNames_of_some h)

/-- A match gives names to its own aggregation only. -/
theorem addKeyNames_of_ne (hm : m.IsIn source) (h : m.name ≠ name) :
    addKeyNames boundary source result m name = result name := by
  obtain ⟨front, rest, hlocation, rfl⟩ := hm
  rcases addKeyNames_cases boundary (front ++ '@' :: (m.name ++ '[' :: (m.keys ++ ']' :: rest))) result m with
    heq | ⟨_, found, _, keys, hname, -, heq⟩
  · rw [heq]
  · rw [cut?_nameRange_of_isIn hlocation] at hname
    split at hname
    · cases hname
      rw [heq, Function.update_of_ne h.symm]
    · cases hname

theorem foldl_addKeyNames_of_ne (h : ∀ m ∈ ms, m.IsIn source ∧ m.name ≠ name) :
    ms.foldl (addKeyNames boundary source) result name = result name := by
  induction ms generalizing result with
  | nil => rfl
  | cons m ms ih =>
      obtain ⟨⟨hm, hname⟩, hrest⟩ := List.forall_mem_cons.1 h
      rw [List.foldl_cons, ih hrest, addKeyNames_of_ne hm hname]

end Rounds

/-- The first match of a name gives its keys, if the ends of its groups are ends of `Character`s. -/
theorem parseAggregationKeyNames_of_first {ms ms' : List KeyMatch} {m : KeyMatch} {before behind before' behind' : Text}
    (h : keyMatches beyond 0 0 source = ms ++ m :: ms') (hother : ∀ m' ∈ ms, m'.name ≠ m.name)
    (hname : m.nameRange.cut? boundary source = some (before, m.name, behind))
    (hkeys : m.keysRange.cut? boundary source = some (before', m.keys, behind')) :
    parseAggregationKeyNames boundary beyond source m.name = some (keyNames boundary m.keys) := by
  have hin : ∀ m' ∈ ms, m'.IsIn source ∧ m'.name ≠ m.name := by
    intro m' hm'
    have hread : m'.IsIn ([] ++ source) := isIn_of_mem_keyMatches (h ▸ List.mem_append_left _ hm')
    exact ⟨hread, hother m' hm'⟩
  rw [parseAggregationKeyNames, h, List.foldl_append, List.foldl_cons]
  refine foldl_addKeyNames_of_some ms' ?_
  have hnone : ms.foldl (addKeyNames boundary source) (fun _ => none) m.name = none := foldl_addKeyNames_of_ne hin
  simp only [addKeyNames, hname, hkeys]
  rw [if_neg (not_not.2 hnone), Function.update_self]

/-! ## Pieces -/

/-- The keys up to the first one with a bracket that closes. -/
def seenElements : List Element → List Element
  | [] => []
  | element :: elements => element :: if ']' ∈ element.text then [] else seenElements elements

theorem mem_of_mem_seenElements (h : element ∈ seenElements elements) : element ∈ elements := by
  induction elements with
  | nil => exact h
  | cons next elements ih =>
      rw [seenElements] at h
      rcases List.mem_cons.1 h with rfl | h
      · exact List.mem_cons_self
      · split at h
        · cases h
        · exact List.mem_cons_of_mem _ (ih h)

theorem seenElements_ne_nil (h : elements ≠ []) : seenElements elements ≠ [] := by
  obtain ⟨element, elements, rfl⟩ := List.exists_cons_of_ne_nil h
  exact List.cons_ne_nil _ _

theorem seenElements_eq_self (h : ∀ element ∈ elements.dropLast, ']' ∉ element.text) :
    seenElements elements = elements := by
  induction elements with
  | nil => rfl
  | cons element elements ih =>
      cases elements with
      | nil => simp [seenElements]
      | cons next elements =>
          obtain ⟨hhere, hrest⟩ := List.forall_mem_cons.1 h
          rw [seenElements, if_neg hhere, ih hrest]

theorem closes_of_length_seenElements (h : (seenElements elements).length = elements.length) :
    ∀ element ∈ elements.dropLast, ']' ∉ element.text := by
  induction elements with
  | nil => exact fun element helement => by cases helement
  | cons element elements ih =>
      cases elements with
      | nil => exact fun element helement => by cases helement
      | cons next elements =>
          rw [seenElements] at h
          split at h
          · simp at h
          · rename_i hhere
            exact List.forall_mem_cons.2 ⟨hhere, ih (Nat.succ.inj h)⟩

theorem takeWhile_elements (h : Elements list elements rest) :
    list.takeWhile (· ≠ ']') = [','].intercalate ((seenElements elements).map pieceOf) := by
  induction h with
  | last =>
      rw [seenElements, seenElements, ite_self, List.map_singleton, pieceOf, takeWhile_append_stop (by simp)]
      simp
  | @cons element s rest elements _ _ helements ih =>
      rw [seenElements]
      split
      · rename_i hmem
        have hshort : (element.text.takeWhile (· ≠ ']')).length ≠ element.text.length := fun hlength => by
          have hself := (List.takeWhile_prefix _).eq_of_length hlength
          simpa using List.takeWhile_eq_self_iff.1 hself ']' hmem
        rw [List.takeWhile_append, if_neg hshort, List.map_singleton, pieceOf]
        simp
      · rename_i hhere
        have hall : ∀ c ∈ element.text, decide (c ≠ ']') = true := fun c hc => decide_eq_true fun h => hhere (h ▸ hc)
        obtain ⟨next, seen, hseen⟩ := List.exists_cons_of_ne_nil (seenElements_ne_nil helements.ne_nil)
        rw [hseen, List.map_cons, List.map_cons, List.intercalate_cons_cons, ← List.map_cons, ← hseen, ← ih, pieceOf,
          List.takeWhile_append_of_pos hall, List.takeWhile_eq_self_iff.2 hall, List.takeWhile_cons_of_pos (by simp)]
        simp

/-- Where the commas are `Character`s, the pieces are those between the commas. -/
theorem keyNames_of_commas {keys : Text} (h : ∀ e ∈ scalars boundary keys, e.1 = ',' → e.2 = true) :
    keyNames boundary keys =
      ((split ',' none keys).map (trimmingCharacters whitespaces)).mapIdx (keyName boundary) := by
  have hcomma : ∀ e ∈ scalars boundary keys, e.1 = ',' → e = (',', true) := fun e he hc => Prod.ext hc (h e he hc)
  have hsplit : ((split (',', true) none (scalars boundary keys)).map (List.map Prod.fst)) = _ :=
    map_split Prod.fst hcomma
  rw [scalars, map_fst_scalarsIn] at hsplit
  rw [keyNames, ← hsplit, List.map_map]
  rfl

theorem keyNames_intercalate {pieces : List Text} (hne : pieces ≠ []) (hpieces : ∀ p ∈ pieces, p ≠ [] ∧ ',' ∉ p)
    (hcommas : ∀ e ∈ scalars boundary ([','].intercalate pieces), e.1 = ',' → e.2 = true) :
    keyNames boundary ([','].intercalate pieces) =
      pieces.mapIdx fun i p => keyName boundary i (trimmingCharacters whitespaces p) := by
  have hsplit : split ',' none ([','].intercalate pieces) = pieces := by
    rw [split_none, List.splitOn_intercalate ',' (fun p hp => (hpieces p hp).2) hne, List.filter_eq_self]
    exact fun p hp => by simpa using (hpieces p hp).1
  rw [keyNames_of_commas hcommas, hsplit]
  refine List.ext_getElem (by simp) fun i _ _ => ?_
  simp

/-! ## Blanks around a piece -/

theorem whitespaces_cases {c : Char} (h : whitespaces c = true) : isBlank c = true ∨ 128 ≤ c.toNat := by
  have hlist : ∀ n ∈ [0x20, 0xA0, 0x1680, 0x202F, 0x205F, 0x3000], n = 0x20 ∨ 128 ≤ n := by decide
  simp only [whitespaces, Bool.or_eq_true, Bool.and_eq_true, decide_eq_true_eq] at h
  rcases h with (rfl | hmem) | ⟨hlow, -⟩
  · exact .inl rfl
  · rcases hlist _ (List.elem_iff.1 hmem) with heq | hle
    · have hc : c = ' ' := Char.toNat_inj.1 heq
      exact .inl (hc ▸ rfl)
    · exact .inr hle
  · exact .inr (by omega)

theorem not_isWordChar_of_whitespaces {c : Char} (h : whitespaces c = true) : isWordChar c = false := by
  refine eq_false_of_ne_true fun hword => ?_
  rcases whitespaces_cases h with hblank | hbeyond
  · have hnot := notMem_special_of_isWordChar hword
    have hmem : c ∈ [' ', '\t', '\n', '\r', '\x0b', '\x0c'] := List.elem_iff.1 hblank
    exact hnot (List.mem_append_left _ hmem)
  · exact absurd (isWordChar_ascii hword) (by omega)

/-- Blanks that no token is made of are passed over. -/
theorem lexTo_of_whitespaces {u s e : Text} {toks : List Token} (hu : ∀ c ∈ u, whitespaces c = true)
    (h : LexTo (u ++ s) toks e) (hle : e.length ≤ s.length)
    (hspaces : ∀ c, .word [c] ∈ toks → whitespaces c = false) : LexTo s toks e := by
  induction u with
  | nil => exact h
  | cons c u ih =>
      obtain ⟨hc, hu⟩ := List.forall_mem_cons.1 hu
      have hlt : e.length < (c :: (u ++ s)).length := by
        simp only [List.length_cons, List.length_append]
        omega
      rcases whitespaces_cases hc with hblank | hbeyond
      · obtain ⟨toks', hrest, rfl⟩ := h.of_step (lexStep_blank hblank (u ++ s)) hlt
        exact ih hu hrest
      · obtain ⟨toks', -, rfl⟩ := h.of_step (lexStep_beyond hbeyond (u ++ s)) hlt
        rw [hspaces c List.mem_cons_self] at hc
        cases hc

/-- A key that reads like a word between blanks is that word. -/
theorem tokens_eq_word {u w v t : Text} {c : Char} (hwhole : element.Whole) (hc : c = ',' ∨ c = ']')
    (h : LexTo (element.text ++ c :: t) element.tokens (c :: t))
    (hspaces : ∀ c, .word [c] ∈ element.tokens → whitespaces c = false) (hpiece : pieceOf element = u ++ w ++ v)
    (huv : ∀ c ∈ u ++ v, whitespaces c = true) (hne : w ≠ []) (hw : ∀ d ∈ w, isWordChar d = true) :
    element.tokens = [.word w] := by
  obtain ⟨hu, hv⟩ := List.forall_mem_append.1 huv
  -- what stands behind the piece: the separator, or a bracket inside of the key
  obtain ⟨d, x, htext, hd, hend⟩ : ∃ d x, element.text ++ c :: t = u ++ (w ++ (v ++ d :: x)) ∧ (d = ',' ∨ d = ']') ∧
      (d :: x = c :: t ∨ d = ']' ∧ (c :: t).length < (d :: x).length) := by
    have hcut : pieceOf element ++ element.text.dropWhile (· ≠ ']') = element.text := List.takeWhile_append_dropWhile
    rw [hpiece] at hcut
    cases htail : element.text.dropWhile (· ≠ ']') with
    | nil =>
        rw [htail, List.append_nil] at hcut
        exact ⟨c, t, by simp [← hcut], hc, .inl rfl⟩
    | cons d tail =>
        have hd := List.head?_dropWhile_not (· ≠ ']') element.text
        rw [htail] at hcut hd
        have hd : d = ']' := by simpa using hd
        refine ⟨d, tail ++ c :: t, by simp [← hcut], .inr hd, .inr ⟨hd, ?_⟩⟩
        simp only [List.length_cons, List.length_append]
        omega
  have hle : (c :: t).length ≤ (d :: x).length := by
    rcases hend with heq | ⟨-, hlt⟩
    · rw [heq]
    · exact Nat.le_of_lt hlt
  have hbehind : (c :: t).length ≤ (v ++ d :: x).length := by
    rw [List.length_append]
    omega
  rw [htext] at h
  have hword := lexTo_of_whitespaces hu h (by rw [List.length_append]; omega) hspaces
  obtain ⟨a, y, hay, ha⟩ : ∃ a y, v ++ d :: x = a :: y ∧ isWordChar a = false := by
    cases v with
    | nil =>
        refine ⟨d, x, rfl, ?_⟩
        rcases hd with rfl | rfl <;> rfl
    | cons a v => exact ⟨a, v ++ d :: x, rfl, not_isWordChar_of_whitespaces (hv a List.mem_cons_self)⟩
  have hpos : 0 < w.length := List.length_pos_iff.2 hne
  have hstep := lexStep_word hne hw ha y
  rw [← hay] at hstep
  obtain ⟨toks, hrest, htoks⟩ := hword.of_step hstep (by rw [List.length_append]; omega)
  have hrest := lexTo_of_whitespaces hv hrest hle fun b hb => hspaces b (htoks ▸ List.mem_append_right _ hb)
  rcases hend with heq | ⟨rfl, hlt⟩
  · rw [heq] at hrest
    rw [htoks, hrest.nil_of_self]
    rfl
  · obtain ⟨toks', -, rfl⟩ := hrest.of_step (lexStep_closing x) hlt
    have hopen := hwhole.2
    rw [htoks] at hopen
    cases hopen

/-! ## The name of a piece -/

theorem builtinNames_plain : ∀ b ∈ builtinNames, b.1 ≠ [] ∧ b.1.all isWordChar = true ∧ b.1.head? ≠ some '"' ∧
    b.2 ≠ text "label" ∧ b.2.head? ≠ some 'k' := by decide

theorem builtinNames_injective : ∀ b ∈ builtinNames, ∀ b' ∈ builtinNames, b.2 = b'.2 → b.1 = b'.1 := by decide

theorem mem_builtinNames {w n : Text} (h : builtinNames.lookup w = some n) : (w, n) ∈ builtinNames := by
  obtain ⟨front, behind, heq, -⟩ := List.lookup_eq_some_iff.1 h
  rw [heq]
  exact List.mem_append_right _ List.mem_cons_self

theorem lookup_builtinNames {w n : Text} (h : (w, n) ∈ builtinNames) : builtinNames.lookup w = some n := by
  have hall : ∀ b ∈ builtinNames, builtinNames.lookup b.1 = some b.2 := by decide
  exact hall _ h

theorem keyN_ne_builtin {w n : Text} (h : (w, n) ∈ builtinNames) : keyN i ≠ n := fun heq =>
  (builtinNames_plain _ h).2.2.2.2 (heq ▸ rfl)

theorem keyN_ne_label : keyN i ≠ text "label" := fun h => by
  have hhead := congrArg List.head? h
  cases hhead

theorem hasPrefix_quote (boundary : CharacterBoundary) (s : Text) :
    hasPrefix boundary s (text "\"") = true ↔ ∃ t, s = '"' :: t ∧ boundary ['"'] t = true := by
  have htext : text "\"" = ['"'] := rfl
  rw [hasPrefix, htext, Bool.and_eq_true, List.isPrefixOf_iff_prefix]
  constructor
  · rintro ⟨⟨t, rfl⟩, hboundary⟩
    exact ⟨t, rfl, hboundary⟩
  · rintro ⟨t, rfl, hboundary⟩
    exact ⟨⟨t, rfl⟩, hboundary⟩

/-- A piece is a builtin, starts with a quote or is something else, and its name tells which. -/
theorem keyName_cases (boundary : CharacterBoundary) (i : Nat) (s : Text) :
    (∃ n, (s, n) ∈ builtinNames ∧ keyName boundary i s = n ∧ hasPrefix boundary s (text "\"") = false) ∨
    builtinNames.lookup s = none ∧
      (hasPrefix boundary s (text "\"") = true ∧ keyName boundary i s = text "label" ∨
        hasPrefix boundary s (text "\"") = false ∧ keyName boundary i s = keyN i) := by
  unfold keyName
  cases hs : builtinNames.lookup s with
  | some n =>
      have hmem := mem_builtinNames hs
      refine .inl ⟨n, hmem, rfl, eq_false_of_ne_true fun hquote => ?_⟩
      obtain ⟨t, rfl, -⟩ := (hasPrefix_quote boundary s).1 hquote
      exact (builtinNames_plain _ hmem).2.2.1 rfl
  | none =>
      refine .inr ⟨rfl, ?_⟩
      cases hquote : hasPrefix boundary s (text "\"") with
      | true => exact .inl ⟨rfl, if_pos rfl⟩
      | false => exact .inr ⟨rfl, if_neg Bool.false_ne_true⟩

theorem keyName_eq_builtin_iff {w n s : Text} (h : (w, n) ∈ builtinNames) :
    keyName boundary i s = n ↔ s = w := by
  rcases keyName_cases boundary i s with ⟨n', hmem, hname, -⟩ | ⟨hnone, ⟨-, hname⟩ | ⟨-, hname⟩⟩
  · rw [hname]
    refine ⟨fun heq => builtinNames_injective _ hmem _ h heq, ?_⟩
    rintro rfl
    exact Option.some.inj ((lookup_builtinNames hmem).symm.trans (lookup_builtinNames h))
  · have hne : s ≠ w := by
      rintro rfl
      rw [lookup_builtinNames h] at hnone
      cases hnone
    rw [hname]
    exact iff_of_false (builtinNames_plain _ h).2.2.2.1.symm hne
  · have hne : s ≠ w := by
      rintro rfl
      rw [lookup_builtinNames h] at hnone
      cases hnone
    rw [hname]
    exact iff_of_false (keyN_ne_builtin h) hne

theorem keyName_eq_label_iff {s : Text} :
    keyName boundary i s = text "label" ↔ hasPrefix boundary s (text "\"") = true := by
  rcases keyName_cases boundary i s with ⟨n, hmem, hname, hquote⟩ | ⟨-, ⟨hquote, hname⟩ | ⟨hquote, hname⟩⟩
  · rw [hname, hquote]
    exact iff_of_false (builtinNames_plain _ hmem).2.2.2.1 Bool.false_ne_true
  · exact iff_of_true hname hquote
  · rw [hname, hquote]
    exact iff_of_false keyN_ne_label Bool.false_ne_true

theorem keyName_eq_keyN_iff {s : Text} :
    keyName boundary i s = keyN i ↔ builtinNames.lookup s = none ∧ hasPrefix boundary s (text "\"") = false := by
  rcases keyName_cases boundary i s with ⟨n, hmem, hname, -⟩ | ⟨hnone, ⟨hquote, hname⟩ | ⟨hquote, hname⟩⟩
  · rw [hname, lookup_builtinNames hmem]
    exact iff_of_false (keyN_ne_builtin hmem).symm (by simp)
  · rw [hname, hquote]
    exact iff_of_false keyN_ne_label.symm (by simp)
  · exact iff_of_true hname ⟨hnone, hquote⟩

/-! ## The name of a key -/

theorem documentedName_cases (i : Nat) (element : Element) :
    (∃ w n, element.tokens = [.word w] ∧ (w, n) ∈ builtinNames ∧ documentedName i element = n) ∨
    (∃ s, element.tokens = [.literal ('"' :: s)] ∧ documentedName i element = text "label") ∨
    (∀ w, element.tokens = [.word w] → builtinNames.lookup w = none) ∧ (∀ s, element.tokens ≠ [.literal ('"' :: s)]) ∧
      documentedName i element = keyN i := by
  unfold documentedName
  split
  · rename_i w htokens
    cases hw : builtinNames.lookup w with
    | some n => exact .inl ⟨w, n, htokens, mem_builtinNames hw, rfl⟩
    | none =>
        refine .inr (.inr ⟨fun w' hw' => ?_, fun s hs => ?_, rfl⟩)
        · cases htokens.symm.trans hw'
          exact hw
        · cases htokens.symm.trans hs
  · rename_i s htokens
    exact .inr (.inl ⟨s, htokens, rfl⟩)
  · rename_i hword hliteral
    exact .inr (.inr ⟨fun w hw => absurd hw (hword w), fun s hs => hliteral s hs, rfl⟩)

/-- Blanks around a builtin are what is trimmed from it. -/
theorem trimmed_eq_builtin_iff {w n s : Text} (h : (w, n) ∈ builtinNames) : trimmingCharacters whitespaces s = w ↔
    ∃ before after, s = before ++ w ++ after ∧ ∀ c ∈ before ++ after, whitespaces c = true := by
  obtain ⟨hne, hword, -⟩ := builtinNames_plain _ h
  have hkept : ∀ c ∈ w, whitespaces c = false := fun c hc => eq_false_of_ne_true fun hset => by
    have hw := List.all_eq_true.1 hword c hc
    rw [not_isWordChar_of_whitespaces hset] at hw
    cases hw
  exact trimmingCharacters_eq_iff hne (fun c hc => hkept c (List.mem_of_mem_head? hc))
    fun c hc => hkept c (List.mem_of_mem_getLast? hc)

theorem hasPrefix_trimmed_iff (boundary : CharacterBoundary) (s : Text) :
    hasPrefix boundary (trimmingCharacters whitespaces s) (text "\"") = true ↔ StartsWithQuote boundary s := by
  have hquote (after : Text) : ('"' :: after).rdropWhile whitespaces = '"' :: after.rdropWhile whitespaces :=
    rdropWhile_cons_of_false (by decide) after
  rw [hasPrefix_quote]
  constructor
  · rintro ⟨t, htrim, hboundary⟩
    obtain ⟨rest, hrest⟩ := List.rdropWhile_prefix whitespaces (s.dropWhile whitespaces)
    rw [← trimmingCharacters, htrim, List.cons_append] at hrest
    refine ⟨s.takeWhile whitespaces, t ++ rest, ?_, fun c hc => List.mem_takeWhile_imp hc, ?_⟩
    · rw [hrest, List.takeWhile_append_dropWhile]
    · rw [trimmingCharacters, ← hrest, hquote] at htrim
      rwa [(List.cons.inj htrim).2]
  · rintro ⟨before, after, rfl, hblank, hboundary⟩
    refine ⟨_, ?_, hboundary⟩
    rw [trimmingCharacters, List.dropWhile_append_of_pos hblank, List.dropWhile_cons_of_neg (by decide), hquote]

/-- The name of a key is the documented one exactly when its piece is plain. -/
theorem keyName_eq_documentedName_iff {c : Char} {t : Text} (boundary : CharacterBoundary) (i : Nat)
    (hwhole : element.Whole) (hc : c = ',' ∨ c = ']') (h : LexTo (element.text ++ c :: t) element.tokens (c :: t))
    (hspaces : ∀ c, .word [c] ∈ element.tokens → whitespaces c = false) :
    keyName boundary i (trimmingCharacters whitespaces (pieceOf element)) = documentedName i element ↔
      PlainKey boundary element := by
  rcases documentedName_cases i element with ⟨w, n, htokens, hmem, hname⟩ | ⟨s, htokens, hname⟩ |
      ⟨hword, hliteral, hname⟩
  · rw [hname, keyName_eq_builtin_iff hmem]
    constructor
    · intro htrim
      refine ⟨fun w' hw' _ => ?_, fun s hs => ?_, fun _ hquote => ?_⟩
      · cases htokens.symm.trans hw'
        exact (trimmed_eq_builtin_iff hmem).1 htrim
      · cases htokens.symm.trans hs
      · rw [← hasPrefix_trimmed_iff, htrim] at hquote
        obtain ⟨t, rfl, -⟩ := (hasPrefix_quote boundary w).1 hquote
        exact (builtinNames_plain _ hmem).2.2.1 rfl
    · intro hplain
      refine (trimmed_eq_builtin_iff hmem).2 (hplain.builtin w htokens ?_)
      rw [lookup_builtinNames hmem]
      exact Option.some_ne_none n
  · rw [hname, keyName_eq_label_iff, hasPrefix_trimmed_iff]
    constructor
    · intro hquote
      refine ⟨fun w hw => ?_, fun _ _ => hquote, fun hother => absurd htokens (hother s)⟩
      cases htokens.symm.trans hw
    · intro hplain
      exact hplain.literal s htokens
  · rw [hname, keyName_eq_keyN_iff, ← Bool.not_eq_true, hasPrefix_trimmed_iff]
    constructor
    · rintro ⟨-, hquote⟩
      exact ⟨fun w hw hne => absurd (hword w hw) hne, fun s hs => absurd hs (hliteral s), fun _ => hquote⟩
    · intro hplain
      refine ⟨?_, hplain.other hliteral⟩
      cases hlookup : builtinNames.lookup (trimmingCharacters whitespaces (pieceOf element)) with
      | none => rfl
      | some n =>
          -- the piece would be a builtin between blanks, and so would be the key
          have hmem := mem_builtinNames hlookup
          obtain ⟨u, v, hpiece, hblank⟩ := (trimmed_eq_builtin_iff hmem).1 rfl
          obtain ⟨hne, hchars, -⟩ := builtinNames_plain _ hmem
          have htokens := tokens_eq_word hwhole hc h hspaces hpiece hblank hne (List.all_eq_true.1 hchars)
          rw [hword _ htokens] at hlookup
          cases hlookup

/-! ## All names -/

theorem isAscii_of_isIdentChar {c : Char} (h : isIdentChar c = true) : isAscii c = true :=
  decide_eq_true (isWordChar_ascii (isWordChar_of_isIdentChar h))

/-- No mark joins a name to what stands around it in a use. -/
theorem boundary_name {j : Joining} (hname : IsIdent name) (front behind : Text) :
    j.boundary (front ++ ['@']) (name ++ '[' :: behind) = true ∧
      j.boundary (front ++ ['@'] ++ name) ('[' :: behind) = true := by
  have hascii : ∀ c ∈ name, isAscii c = true := fun c hc => isAscii_of_isIdentChar (hname.all c hc)
  have hne : name ≠ [] := by
    rintro rfl
    exact hname
  constructor
  · obtain ⟨c, name, rfl⟩ := List.exists_cons_of_ne_nil hne
    rw [Joining.boundary_concat_plain (by decide)]
    simp [Joining.joinsFront_of_isAscii (hascii c List.mem_cons_self)]
  · rw [Joining.boundary_plain (by decide), List.getLast?_append_of_ne_nil _ hne, List.getLast?_eq_some_getLast hne]
    simp [Joining.joinsBehind_of_isAscii (hascii _ (List.getLast_mem hne))]

theorem parseAggregationKeyNames_of_reached {j : Joining} (u : FirstUse source name) (hreached : u.Reached beyond)
    (hcommas : u.Commas) (hunjoined : u.Unjoined j.boundary) : parseAggregationKeyNames j.boundary beyond source name =
      some ((seenElements u.elements).mapIdx fun i element =>
        keyName j.boundary i (trimmingCharacters whitespaces (pieceOf element))) := by
  have hothers := hreached.others
  have hsource := u.source_eq
  have hfirst := hunjoined.first
  have hlast := hunjoined.last
  rw [hreached.adjacent, List.nil_append] at hothers hsource hfirst hlast
  have hpieces : ∀ p ∈ (seenElements u.elements).map pieceOf, p ≠ [] ∧ ',' ∉ p := by
    intro p hp
    obtain ⟨element, hseen, rfl⟩ := List.mem_map.1 hp
    have helement := mem_of_mem_seenElements hseen
    obtain ⟨hwhole, c, t, -, hlex⟩ := u.keys.lexTo_of_mem helement
    exact ⟨hwhole.takeWhile_ne_nil hlex, hcommas element helement⟩
  have hne : (seenElements u.elements).map pieceOf ≠ [] := by simpa using seenElements_ne_nil u.keys.ne_nil
  have hkeys := takeWhile_elements u.keys
  have hkeys_ne : u.list.takeWhile (· ≠ ']') ≠ [] := by
    obtain ⟨p, pieces, heq⟩ := List.exists_cons_of_ne_nil hne
    have hp := (hpieces p (heq ▸ List.mem_cons_self)).1
    rw [hkeys, heq]
    cases pieces with
    | nil => simpa using hp
    | cons q pieces =>
        rw [List.intercalate_cons_cons]
        simp [hp]
  obtain ⟨ms, hms, hnames⟩ : ∃ ms, keyMatches beyond 0 0 source =
      ms ++ keyMatches beyond u.front.length 0 ('@' :: (name ++ '[' :: u.list)) ∧ ∀ m ∈ ms, m.name ≠ name := by
    have happend : ∃ ms, keyMatches beyond 0 0 (u.front ++ '@' :: (name ++ '[' :: u.list)) =
        ms ++ keyMatches beyond (0 + u.front.length) 0 ('@' :: (name ++ '[' :: u.list)) ∧ ∀ m ∈ ms, m.name ≠ name :=
      keyMatches_append (by simpa using hothers) (Nat.zero_le _)
    rwa [← hsource, Nat.zero_add] at happend
  rw [keyMatches, keyMatch?_use u.front.length u.ident u.keys.closing_mem hkeys_ne] at hms
  obtain ⟨rest, hrest⟩ : ∃ rest, u.list = u.list.takeWhile (· ≠ ']') ++ ']' :: rest := by
    have huse := @keyMatch?_use beyond name u.list 0 u.ident u.keys.closing_mem hkeys_ne
    obtain ⟨-, rest, heq⟩ := keyMatch?_eq_some huse
    exact ⟨rest, (List.cons.inj (List.append_cancel_left (List.cons.inj heq).2)).2⟩
  have hshape : source = u.front ++ '@' :: (name ++ '[' :: (u.list.takeWhile (· ≠ ']') ++ ']' :: rest)) :=
    hsource.trans (congrArg (fun list => u.front ++ '@' :: (name ++ '[' :: list)) hrest)
  have hname : NSRange.cut? j.boundary _ source = some (_, name, _) :=
    (congrArg _ hshape).trans ((cut?_nameRange_of_isIn (m := ⟨_, name, _⟩) rfl rest).trans
      (if_pos (boundary_name u.ident _ _)))
  have hkeysRange : NSRange.cut? j.boundary _ source = some (_, u.list.takeWhile (· ≠ ']'), _) :=
    (congrArg _ hshape).trans ((cut?_keysRange_of_isIn (m := ⟨_, name, u.list.takeWhile (· ≠ ']')⟩) rfl rest).trans
      (if_pos ⟨hrest ▸ hfirst, (Joining.boundary_cons _ _ _).trans hlast⟩))
  rw [parseAggregationKeyNames_of_first hms hnames hname hkeysRange]
  have hcommas' := hunjoined.commas
  rw [hkeys] at hcommas' ⊢
  rw [keyNames_intercalate hne hpieces hcommas']
  congr 1
  refine List.ext_getElem (by simp) fun i _ _ => ?_
  simp

theorem recordAttributes_of_names {aggKeyNames : Text → Option (List Text)} {names values : List Text}
    (h : aggKeyNames name = some names) (hlength : values.length = names.length) :
    recordAttributes aggKeyNames name values = names.zip values := by
  refine List.ext_getElem (by simp [recordAttributes, hlength]) fun i hi _ => ?_
  have hnames : i < names.length := by
    rw [recordAttributes, List.length_mapIdx] at hi
    omega
  simp [recordAttributes, h, hnames]

/-- The names line up exactly when they are the documented ones at each place. -/
theorem keysLineUp_iff {aggKeyNames : Text → Option (List Text)} {found : Nat → Element → Text}
    (h : aggKeyNames name = some (elements.mapIdx found)) : KeysLineUp aggKeyNames name elements ↔
      ∀ (i : Nat) (hi : i < elements.length), found i elements[i] = documentedName i elements[i] := by
  rw [← List.mapIdx_eq_mapIdx_iff]
  constructor
  · intro hlines
    exact Option.some.inj (h.symm.trans hlines.names)
  · intro heq
    rw [heq] at h
    exact ⟨h, fun values hlength => recordAttributes_of_names h (by rw [List.length_mapIdx, hlength])⟩

end ObservableBSD.Instruments
