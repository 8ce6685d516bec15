import ObservableBSD.Json.Lemmas.RoundTrip

/-!
# Documents with spaces

A text reads as a value when the parser takes it for the value whatever stands behind it. The texts of a
document's parts make up the text of the document, with any spaces in front of a value and of a bracket.
-/

namespace ObservableBSD.Json

def Spaces (cs : List Char) : Prop := cs.all isSpace = true

theorem skipSpaces_append {sp : List Char} (h : Spaces sp) (cs : List Char) :
    skipSpaces (sp ++ cs) = skipSpaces cs :=
  List.dropWhile_append_of_pos (List.all_eq_true.1 h)

theorem Spaces.skip {sp : List Char} (h : Spaces sp) : skipSpaces sp = [] := by
  simpa [skipSpaces] using skipSpaces_append h []

theorem Spaces.noNumberHead {sp cs : List Char} (h : Spaces sp) (hcs : NoNumberHead cs) :
    NoNumberHead (sp ++ cs) := by
  cases sp with
  | nil => exact hcs
  | cons c sp =>
      have hc : isSpace c = true := List.all_eq_true.1 h c List.mem_cons_self
      apply noNumberHead_cons
      simp only [isSpace, Bool.or_eq_true, decide_eq_true_eq] at hc
      rcases hc with ((rfl | rfl) | rfl) | rfl <;> rfl

/-! ## Values -/

def Reads (cs : List Char) (v : Value) : Prop :=
  ∀ fuel rest, cs.length < fuel → NoNumberHead rest → parseValue fuel (cs ++ rest) = some (v, rest)

/-- The text of the elements of an array, with the closing bracket. -/
def ReadsElements (cs : List Char) (elems : List Value) : Prop :=
  ∀ fuel rest, cs.length < fuel → parseElements fuel (cs ++ rest) = some (elems, rest)

/-- The text of the members of an object, with the closing brace. -/
def ReadsMembers (cs : List Char) (members : List (List Char × Value)) : Prop :=
  ∀ fuel rest, cs.length < fuel → parseMembers fuel (cs ++ rest) = some (members, rest)

theorem Reads.parse {cs : List Char} {v : Value} (h : Reads cs v) (sp : List Char) (hsp : Spaces sp) :
    parse (cs ++ sp) = some v := by
  have hrest : NoNumberHead sp := by
    have hnil : NoNumberHead [] := by rintro c ⟨⟩
    simpa using hsp.noNumberHead hnil
  have hvalue := h ((cs ++ sp).length + 1) sp (by rw [List.length_append]; omega) hrest
  rw [Json.parse, hvalue]
  exact if_pos hsp.skip

theorem parseValue_spaces {sp : List Char} (h : Spaces sp) (fuel : Nat) (cs : List Char) :
    parseValue fuel (sp ++ cs) = parseValue fuel cs := by
  cases fuel with
  | zero => rfl
  | succ fuel => rw [parseValue, parseValue, skipSpaces_append h]

theorem Reads.spaces {cs : List Char} {v : Value} (h : Reads cs v) (sp : List Char) (hsp : Spaces sp) :
    Reads (sp ++ cs) v := by
  intro fuel rest hfuel hrest
  rw [List.length_append] at hfuel
  rw [List.append_assoc, parseValue_spaces hsp]
  exact h fuel rest (by omega) hrest

theorem Reads.blank {cs : List Char} {v : Value} (h : Reads cs v) : Reads (' ' :: cs) v := h.spaces [' '] rfl

theorem reads_number (n : JsonNumber) : Reads n.chars (.number n) := by
  intro fuel rest hfuel hrest
  cases fuel with
  | zero => cases hfuel
  | succ fuel => exact parseValue_number n fuel hrest

theorem reads_string (E : Escaper) (s : List Char) : Reads (E.quote s) (.string s) := by
  intro fuel rest hfuel hrest
  have h := @parseValue_render E fuel rest (.string s) (by rwa [Escaper.render]) hrest
  rwa [Escaper.render] at h

/-! ## Arrays -/

section

variable {cs ds : List Char} {v : Value} {elems : List Value}

theorem ReadsElements.spaces (h : ReadsElements cs elems) (sp : List Char) (hsp : Spaces sp) :
    ReadsElements (sp ++ cs) elems := by
  intro fuel rest hfuel
  rw [List.length_append] at hfuel
  have helems := h fuel rest (by omega)
  cases fuel with
  | zero => cases hfuel
  | succ fuel =>
      rw [parseElements] at helems
      rwa [List.append_assoc, parseElements, parseValue_spaces hsp]

theorem readsElements_last (h : Reads cs v) (sp : List Char) (hsp : Spaces sp) :
    ReadsElements (cs ++ (sp ++ [']'])) [v] := by
  intro fuel rest hfuel
  cases fuel with
  | zero => cases hfuel
  | succ fuel =>
      simp only [List.length_append, List.length_singleton] at hfuel
      have hrest : NoNumberHead (sp ++ ']' :: rest) := hsp.noNumberHead (noNumberHead_cons rfl _)
      have hvalue := h fuel _ (by omega) hrest
      rw [List.append_assoc, List.append_assoc, List.singleton_append, parseElements, hvalue]
      simp only [skipSpaces_append hsp, skipSpaces_cons (c := ']') rfl]

theorem ReadsElements.cons (h : Reads cs v) (hrest : ReadsElements ds elems) :
    ReadsElements (cs ++ ',' :: ds) (v :: elems) := by
  intro fuel rest hfuel
  cases fuel with
  | zero => cases hfuel
  | succ fuel =>
      simp only [List.length_append, List.length_cons] at hfuel
      rw [List.append_assoc]
      exact parseElements_cons (h fuel _ (by omega) (noNumberHead_cons rfl _)) (hrest fuel rest (by omega))

theorem reads_array_nil {sp : List Char} (hsp : Spaces sp) : Reads ('[' :: (sp ++ [']'])) (.array []) := by
  intro fuel rest hfuel hrest
  cases fuel with
  | zero => cases hfuel
  | succ fuel =>
      rw [List.cons_append, List.append_assoc, parseValue, skipSpaces_cons rfl]
      simp only [skipSpaces_append hsp, List.singleton_append, skipSpaces_cons (c := ']') rfl]

/-- No element starts with a closing bracket. -/
theorem parseElements_bracket {fuel : Nat} {cs rest : List Char} (h : skipSpaces cs = ']' :: rest) :
    parseElements fuel cs = none := by
  cases fuel with
  | zero => rfl
  | succ fuel =>
      have hvalue : parseValue fuel cs = none := by
        cases fuel with
        | zero => rfl
        | succ fuel =>
            rw [parseValue, h]
            rfl
      rw [parseElements, hvalue]

theorem ReadsElements.reads (h : ReadsElements cs elems) : Reads ('[' :: cs) (.array elems) := by
  intro fuel rest hfuel hrest
  cases fuel with
  | zero => cases hfuel
  | succ fuel =>
      have helems := h fuel rest (Nat.lt_of_succ_lt_succ hfuel)
      rw [List.cons_append, parseValue, skipSpaces_cons rfl]
      simp only
      split
      · rename_i heq
        rw [parseElements_bracket heq] at helems
        cases helems
      · rw [helems]
        rfl

/-- Texts with a comma behind each but the last, and `gap` behind each. -/
def listed (gap : List Char) : List (List Char) → List Char
  | [] => []
  | [cs] => cs ++ gap
  | cs :: ds :: texts => cs ++ ',' :: (gap ++ listed gap (ds :: texts))

theorem reads_listed {texts : List (List Char)} (h : List.Forall₂ Reads texts elems) (before gap after : List Char)
    (hbefore : Spaces before) (hgap : Spaces gap) (hafter : Spaces after) :
    Reads ('[' :: (before ++ (listed gap texts ++ (after ++ [']'])))) (.array elems) := by
  cases h with
  | nil =>
      have hspaces : Spaces (before ++ after) := by
        rw [Spaces, List.all_append, hbefore, hafter]
        rfl
      rw [listed, List.nil_append, ← List.append_assoc]
      exact reads_array_nil hspaces
  | @cons cs v texts elems hhead htail =>
      refine ReadsElements.reads (.spaces ?_ before hbefore)
      induction htail generalizing cs v with
      | nil =>
          have hspaces : Spaces (gap ++ after) := by
            rw [Spaces, List.all_append, hgap, hafter]
            rfl
          rw [listed, List.append_assoc, ← List.append_assoc gap]
          exact readsElements_last hhead _ hspaces
      | cons hnext htail ih =>
          rw [listed, List.append_assoc, List.cons_append, List.append_assoc]
          exact .cons hhead (.spaces (ih hnext) gap hgap)

end

/-! ## Objects -/

section

variable {cs ds : List Char} {v : Value} {members : List (List Char × Value)}

theorem ReadsMembers.spaces (h : ReadsMembers cs members) (sp : List Char) (hsp : Spaces sp) :
    ReadsMembers (sp ++ cs) members := by
  intro fuel rest hfuel
  rw [List.length_append] at hfuel
  have hmembers := h fuel rest (by omega)
  cases fuel with
  | zero => cases hfuel
  | succ fuel =>
      rw [parseMembers] at hmembers
      rwa [List.append_assoc, parseMembers, skipSpaces_append hsp]

theorem readsMembers_last (E : Escaper) (name : List Char) (h : Reads cs v) (sp : List Char) (hsp : Spaces sp) :
    ReadsMembers (E.quote name ++ ':' :: (cs ++ (sp ++ ['\x7d']))) [(name, v)] := by
  intro fuel rest hfuel
  cases fuel with
  | zero => cases hfuel
  | succ fuel =>
      simp only [Escaper.quote, List.length_append, List.length_cons] at hfuel
      have hrest : NoNumberHead (sp ++ '\x7d' :: rest) := hsp.noNumberHead (noNumberHead_cons rfl _)
      have hvalue := h fuel _ (by omega) hrest
      simp only [Escaper.quote, List.cons_append, List.append_assoc, List.nil_append]
      rw [parseMembers, skipSpaces_cons rfl]
      simp only [readString_body E (show (E.body name).length < fuel by omega), skipSpaces_cons (c := ':') rfl,
        hvalue, skipSpaces_append hsp, skipSpaces_cons (c := '\x7d') rfl]

theorem ReadsMembers.cons (E : Escaper) (name : List Char) (h : Reads cs v) (hrest : ReadsMembers ds members) :
    ReadsMembers (E.quote name ++ ':' :: (cs ++ ',' :: ds)) ((name, v) :: members) := by
  intro fuel rest hfuel
  cases fuel with
  | zero => cases hfuel
  | succ fuel =>
      simp only [Escaper.quote, List.length_append, List.length_cons] at hfuel
      simp only [Escaper.quote, List.cons_append, List.append_assoc, List.nil_append]
      exact parseMembers_cons (readString_body E (by omega))
        (h fuel _ (by omega) (noNumberHead_cons rfl _)) (hrest fuel rest (by omega))

theorem ReadsMembers.reads (h : ReadsMembers cs members) : Reads ('\x7b' :: cs) (.object members) := by
  intro fuel rest hfuel hrest
  cases fuel with
  | zero => cases hfuel
  | succ fuel =>
      have hmembers := h fuel rest (Nat.lt_of_succ_lt_succ hfuel)
      rw [List.cons_append, parseValue, skipSpaces_cons rfl]
      simp only
      split
      · -- no member starts with a closing brace
        rename_i heq
        cases fuel with
        | zero => cases hmembers
        | succ fuel =>
            rw [parseMembers, heq] at hmembers
            cases hmembers
      · rw [hmembers]
        rfl

end

end ObservableBSD.Json
