import ObservableBSD.Json.Parser

/-!
# What is written is read back
-/

namespace ObservableBSD.Json

/-! ## Spaces -/

theorem skipSpaces_cons {c : Char} (hc : isSpace c = false) (cs : List Char) :
    skipSpaces (c :: cs) = c :: cs := by
  simp [skipSpaces, hc]

/-! ## Strings -/

variable {E : Escaper}

theorem readString_readChar {cs rest : List Char} {c : Char} (h : readChar cs = some (c, rest))
    (fuel : Nat) :
    readString (fuel + 1) cs = (readString fuel rest).map fun (s, rest) => (c :: s, rest) := by
  have hquote : ∀ cs', cs = '"' :: cs' → False := by
    rintro cs' rfl
    cases h
  rw [readString, h]
  exact hquote

theorem Escaper.escape_ne_nil (E : Escaper) (c : Char) : E.escape c ≠ [] := by
  intro hnil
  have h := E.readChar_escape c []
  rw [hnil] at h
  cases h

theorem readString_body (E : Escaper) {s rest : List Char} {fuel : Nat}
    (hfuel : (E.body s).length < fuel) :
    readString fuel (E.body s ++ '"' :: rest) = some (s, rest) := by
  induction s generalizing fuel with
  | nil => cases fuel with
      | zero => cases hfuel
      | succ fuel => rfl
  | cons c s ih =>
      cases fuel with
      | zero => cases hfuel
      | succ fuel =>
          have hbody : E.body (c :: s) = E.escape c ++ E.body s := rfl
          have hpos : 0 < (E.escape c).length := List.length_pos_iff.mpr (E.escape_ne_nil c)
          rw [hbody, List.length_append] at hfuel
          rw [hbody, List.append_assoc, readString_readChar (E.readChar_escape c _), ih (by omega)]
          rfl

/-! ## Numbers -/

/-- The text does not go on with a character of a number. -/
def NoNumberHead (cs : List Char) : Prop := ∀ c ∈ cs.head?, isNumberChar c = false

theorem noNumberHead_cons {c : Char} (h : isNumberChar c = false) (cs : List Char) :
    NoNumberHead (c :: cs) := by
  intro d hd
  cases hd
  exact h

def AllNumberChars (cs : List Char) : Prop := ∀ c ∈ cs, isNumberChar c = true

theorem AllNumberChars.of_digits {cs : List Char} (h : cs.all Char.isDigit = true) :
    AllNumberChars cs := by
  intro c hc
  have hdigit := List.all_eq_true.mp h c hc
  simp [isNumberChar, hdigit]

theorem AllNumberChars.cons {c : Char} {cs : List Char} (hc : isNumberChar c = true)
    (h : AllNumberChars cs) : AllNumberChars (c :: cs) := by
  intro d hd
  rcases List.mem_cons.mp hd with rfl | hd
  · exact hc
  · exact h d hd

theorem AllNumberChars.append {cs ds : List Char} (hc : AllNumberChars cs) (hd : AllNumberChars ds) :
    AllNumberChars (cs ++ ds) := by
  intro c h
  rcases List.mem_append.mp h with h | h
  · exact hc c h
  · exact hd c h

theorem allDigits_numberChars {cs : List Char} (h : allDigits cs = true) : AllNumberChars cs := by
  rw [allDigits, Bool.and_eq_true] at h
  exact .of_digits h.2

/-- The leading digits are characters of a number, and so is all of it if the rest is. -/
theorem AllNumberChars.of_dropWhile {cs : List Char} (h : AllNumberChars (cs.dropWhile Char.isDigit)) :
    AllNumberChars cs := by
  rw [← List.takeWhile_append_dropWhile (p := Char.isDigit) (l := cs)]
  exact (AllNumberChars.of_digits List.all_takeWhile).append h

theorem isExponent_numberChars {cs : List Char} (h : isExponent cs = true) : AllNumberChars cs := by
  have hletter : ∀ c : Char, (c = 'e' || c = 'E') = true → isNumberChar c = true := by
    intro c hc
    rw [Bool.or_eq_true, decide_eq_true_eq, decide_eq_true_eq] at hc
    rcases hc with rfl | rfl <;> rfl
  unfold isExponent at h
  split at h
  · intro c hc; cases hc
  · rw [Bool.and_eq_true] at h
    exact .cons (hletter _ h.1) (.cons rfl (allDigits_numberChars h.2))
  · rw [Bool.and_eq_true] at h
    exact .cons (hletter _ h.1) (.cons rfl (allDigits_numberChars h.2))
  · rw [Bool.and_eq_true] at h
    exact .cons (hletter _ h.1) (allDigits_numberChars h.2)

theorem isUnsigned_numberChars {cs : List Char} (h : isUnsigned cs = true) : AllNumberChars cs := by
  simp only [isUnsigned, Bool.and_eq_true] at h
  obtain ⟨_, hrest⟩ := h
  apply AllNumberChars.of_dropWhile
  cases hfraction : dropFraction (cs.dropWhile Char.isDigit) with
  | none => rw [hfraction] at hrest; cases hrest
  | some rest =>
      rw [hfraction] at hrest
      have hexp : AllNumberChars rest := isExponent_numberChars hrest
      unfold dropFraction at hfraction
      split at hfraction
      · split at hfraction
        · cases hfraction
        · cases hfraction
          rename_i heq _
          rw [heq]
          exact .cons rfl (.of_dropWhile hexp)
      · cases hfraction
        exact hexp

theorem isNumber_numberChars {cs : List Char} (h : isNumber cs = true) : AllNumberChars cs := by
  unfold isNumber at h
  split at h
  · exact .cons rfl (isUnsigned_numberChars h)
  · exact isUnsigned_numberChars h

theorem takeWhile_number {cs rest : List Char} (hcs : AllNumberChars cs) (hrest : NoNumberHead rest) :
    (cs ++ rest).takeWhile isNumberChar = cs ∧ (cs ++ rest).dropWhile isNumberChar = rest := by
  have hstop : rest.takeWhile isNumberChar = [] ∧ rest.dropWhile isNumberChar = rest := by
    cases rest with
    | nil => exact ⟨rfl, rfl⟩
    | cons c rest =>
        have hc : isNumberChar c = false := hrest c rfl
        simp [hc]
  rw [List.takeWhile_append_of_pos hcs, List.dropWhile_append_of_pos hcs, hstop.1, hstop.2,
    List.append_nil]
  exact ⟨rfl, rfl⟩

theorem readNumber_chars (n : JsonNumber) {rest : List Char} (hrest : NoNumberHead rest) :
    readNumber (n.chars ++ rest) = some (.number n, rest) := by
  obtain ⟨htake, hdrop⟩ := takeWhile_number (isNumber_numberChars n.valid) hrest
  unfold readNumber
  simp only [htake, hdrop, n.valid, dif_pos]

/-- A number starts with a digit or a minus sign. -/
theorem JsonNumber.head (n : JsonNumber) :
    ∃ c cs, n.chars = c :: cs ∧ (c.isDigit = true ∨ c = '-') := by
  have h := n.valid
  unfold isNumber at h
  split at h
  · rename_i cs heq
    exact ⟨'-', cs, heq, .inr rfl⟩
  · simp only [isUnsigned, Bool.and_eq_true, decide_eq_true_eq] at h
    cases hchars : n.chars with
    | nil => rw [hchars] at h; exact absurd rfl h.1.1
    | cons c cs =>
        refine ⟨c, cs, rfl, .inl ?_⟩
        by_contra hc
        rw [hchars, List.takeWhile_cons_of_neg hc] at h
        exact h.1.1 rfl

/-! ## Values -/

/-- A value starts with a character that is neither a space nor a closing bracket. -/
theorem Escaper.render_head (E : Escaper) (v : Value) :
    ∃ c cs, E.render v = c :: cs ∧ isSpace c = false ∧ c ≠ ']' := by
  cases v with
  | null => exact ⟨_, _, by rw [Escaper.render], rfl, by decide⟩
  | bool b => cases b with
      | false => exact ⟨_, _, by rw [Escaper.render], rfl, by decide⟩
      | true => exact ⟨_, _, by rw [Escaper.render], rfl, by decide⟩
  | number n =>
      obtain ⟨c, cs, hchars, hc⟩ := n.head
      refine ⟨c, cs, by rw [Escaper.render, hchars], ?_, ?_⟩
      · rcases hc with hc | rfl
        · by_contra hspace
          simp only [isSpace, Bool.not_eq_false, Bool.or_eq_true, decide_eq_true_eq] at hspace
          rcases hspace with ((rfl | rfl) | rfl) | rfl <;> cases hc
        · rfl
      · rcases hc with hc | rfl
        · rintro rfl
          cases hc
        · decide
  | string s => exact ⟨_, _, by rw [Escaper.render]; rfl, rfl, by decide⟩
  | array elems => exact ⟨_, _, by rw [Escaper.render], rfl, by decide⟩
  | object members => exact ⟨_, _, by rw [Escaper.render], rfl, by decide⟩

theorem parseValue_number (n : JsonNumber) (fuel : Nat) {rest : List Char} (hrest : NoNumberHead rest) :
    parseValue (fuel + 1) (n.chars ++ rest) = some (.number n, rest) := by
  obtain ⟨c, cs, hchars, hc⟩ := n.head
  have hspace : isSpace c = false := by
    rcases hc with hc | rfl
    · by_contra h
      simp only [isSpace, Bool.not_eq_false, Bool.or_eq_true, decide_eq_true_eq] at h
      rcases h with ((rfl | rfl) | rfl) | rfl <;> cases hc
    · rfl
  have hskip : skipSpaces (n.chars ++ rest) = n.chars ++ rest := by
    rw [hchars]
    exact skipSpaces_cons hspace _
  rw [← readNumber_chars n hrest, parseValue, hskip]
  split
  all_goals first
    | rfl
    | (rename_i heq
       rw [hchars, List.cons_append] at heq
       obtain rfl := (List.cons.inj heq).1
       rcases hc with hc | hc <;> cases hc)

theorem parseValue_array {fuel : Nat} {cs rest : List Char} {elems : List Value}
    (hhead : ∃ c cs', cs = c :: cs' ∧ isSpace c = false ∧ c ≠ ']')
    (h : parseElements fuel cs = some (elems, rest)) :
    parseValue (fuel + 1) ('[' :: cs) = some (.array elems, rest) := by
  obtain ⟨c, cs', rfl, hspace, hne⟩ := hhead
  rw [parseValue, skipSpaces_cons rfl]
  simp only [skipSpaces_cons hspace]
  split
  · rename_i heq
    exact absurd (List.cons.inj heq).1 hne
  · rw [h]
    rfl

theorem parseElements_last {fuel : Nat} {cs rest : List Char} {elem : Value}
    (h : parseValue fuel cs = some (elem, ']' :: rest)) :
    parseElements (fuel + 1) cs = some ([elem], rest) := by
  rw [parseElements, h]
  rfl

theorem parseElements_cons {fuel : Nat} {cs cs' rest : List Char} {elem : Value} {elems : List Value}
    (h : parseValue fuel cs = some (elem, ',' :: cs'))
    (hrest : parseElements fuel cs' = some (elems, rest)) :
    parseElements (fuel + 1) cs = some (elem :: elems, rest) := by
  rw [parseElements, h]
  simp only [skipSpaces_cons (c := ',') rfl, hrest, Option.map_some]

theorem parseValue_object {fuel : Nat} {cs rest : List Char} {members : List (List Char × Value)}
    (h : parseMembers fuel ('"' :: cs) = some (members, rest)) :
    parseValue (fuel + 1) ('{' :: '"' :: cs) = some (.object members, rest) := by
  rw [parseValue, skipSpaces_cons rfl]
  simp only [skipSpaces_cons (c := '"') rfl, h, Option.map_some]
  rfl

section

variable {fuel : Nat} {name cs cs' rest : List Char} {value : Value}

theorem parseMembers_last (hname : readString fuel cs = some (name, ':' :: cs'))
    (h : parseValue fuel cs' = some (value, '}' :: rest)) :
    parseMembers (fuel + 1) ('"' :: cs) = some ([(name, value)], rest) := by
  rw [parseMembers, skipSpaces_cons rfl]
  simp only [hname, skipSpaces_cons (c := ':') rfl, h, skipSpaces_cons (c := '}') rfl]

theorem parseMembers_cons {members : List (List Char × Value)} {ds : List Char}
    (hname : readString fuel cs = some (name, ':' :: cs'))
    (h : parseValue fuel cs' = some (value, ',' :: ds))
    (hrest : parseMembers fuel ds = some (members, rest)) :
    parseMembers (fuel + 1) ('"' :: cs) = some ((name, value) :: members, rest) := by
  rw [parseMembers, skipSpaces_cons rfl]
  simp only [hname, skipSpaces_cons (c := ':') rfl, h, skipSpaces_cons (c := ',') rfl, hrest,
    Option.map_some]

end

/-- The elements of an array start as the first of them does. -/
theorem Escaper.renderElements_head (E : Escaper) (elem : Value) (elems : List Value) :
    ∃ c cs, E.renderElements (elem :: elems) = c :: cs ∧ isSpace c = false ∧ c ≠ ']' := by
  obtain ⟨c, cs, hrender, hspace, hne⟩ := E.render_head elem
  cases elems with
  | nil => exact ⟨c, cs, by rw [Escaper.renderElements, hrender], hspace, hne⟩
  | cons elem' elems =>
      exact ⟨c, _, by rw [Escaper.renderElements, hrender, List.cons_append], hspace, hne⟩

/-- The members of an object start with a quotation mark. -/
theorem Escaper.renderMembers_head (E : Escaper) (member : List Char × Value)
    (members : List (List Char × Value)) :
    ∃ cs, E.renderMembers (member :: members) = '"' :: cs := by
  obtain ⟨name, value⟩ := member
  cases members with
  | nil => exact ⟨_, by rw [Escaper.renderMembers, Escaper.quote]; rfl⟩
  | cons member' members => exact ⟨_, by rw [Escaper.renderMembers, Escaper.quote]; rfl⟩

/-- Every member but the first stands behind a comma. -/
theorem Escaper.renderMembers_cons (E : Escaper) (name : List Char) (value : Value)
    (members : List (List Char × Value)) :
    E.renderMembers ((name, value) :: members) = E.quote name ++ (':' :: (E.render value ++
      members.flatMap fun m => ',' :: (E.quote m.1 ++ (':' :: E.render m.2)))) := by
  induction members generalizing name value with
  | nil => rw [Escaper.renderMembers, List.flatMap_nil, List.append_nil]
  | cons member members ih =>
      obtain ⟨name', value'⟩ := member
      rw [Escaper.renderMembers, ih, List.flatMap_cons]
      simp only [List.cons_append, List.append_assoc]

mutual
theorem parseValue_render (E : Escaper) {fuel : Nat} {rest : List Char} :
    (v : Value) → (E.render v).length < fuel → NoNumberHead rest →
    parseValue fuel (E.render v ++ rest) = some (v, rest) := by
  intro v hfuel hrest
  cases fuel with
  | zero => cases hfuel
  | succ fuel =>
      match v with
      | .null => rw [Escaper.render]; rfl
      | .bool true => rw [Escaper.render]; rfl
      | .bool false => rw [Escaper.render]; rfl
      | .number n => rw [Escaper.render]; exact parseValue_number n fuel hrest
      | .string s =>
          rw [Escaper.render, Escaper.quote] at hfuel ⊢
          have hbody : (E.body s).length < fuel := by
            simp only [List.length_cons, List.length_append] at hfuel
            omega
          rw [List.cons_append, List.append_assoc, parseValue, skipSpaces_cons rfl]
          simp only [List.singleton_append, readString_body E hbody, Option.map_some]
      | .array [] => rw [Escaper.render, Escaper.renderElements]; rfl
      | .array (elem :: elems) =>
          rw [Escaper.render] at hfuel ⊢
          simp only [List.length_cons, List.length_append, List.length_nil] at hfuel
          rw [List.cons_append, List.append_assoc]
          apply parseValue_array
          · obtain ⟨c, cs, hcs, hspace, hne⟩ := E.renderElements_head elem elems
            exact ⟨c, cs ++ (']' :: rest), by rw [hcs]; rfl, hspace, hne⟩
          · exact parseElements_render E elem elems (by omega)
      | .object [] => rw [Escaper.render, Escaper.renderMembers]; rfl
      | .object (member :: members) =>
          rw [Escaper.render] at hfuel ⊢
          simp only [List.length_cons, List.length_append, List.length_nil] at hfuel
          have hmembers : parseMembers fuel (E.renderMembers (member :: members) ++ '}' :: rest) =
              some (member :: members, rest) := parseMembers_render E member members (by omega)
          obtain ⟨cs, hcs⟩ := E.renderMembers_head member members
          rw [hcs] at hmembers ⊢
          rw [List.cons_append, List.append_assoc]
          exact parseValue_object hmembers

theorem parseElements_render (E : Escaper) {fuel : Nat} {rest : List Char} :
    (elem : Value) → (elems : List Value) → (E.renderElements (elem :: elems)).length + 1 < fuel →
    parseElements fuel (E.renderElements (elem :: elems) ++ ']' :: rest) = some (elem :: elems, rest) := by
  intro elem elems hfuel
  cases fuel with
  | zero => cases hfuel
  | succ fuel =>
      match elems with
      | [] =>
          rw [Escaper.renderElements] at hfuel ⊢
          exact parseElements_last (parseValue_render E elem (by omega) (noNumberHead_cons rfl _))
      | elem' :: elems =>
          rw [Escaper.renderElements] at hfuel ⊢
          simp only [List.length_cons, List.length_append] at hfuel
          rw [List.append_assoc]
          exact parseElements_cons (parseValue_render E elem (by omega) (noNumberHead_cons rfl _))
            (parseElements_render E elem' elems (by omega))

theorem parseMembers_render (E : Escaper) {fuel : Nat} {rest : List Char} :
    (member : List Char × Value) → (members : List (List Char × Value)) →
    (E.renderMembers (member :: members)).length + 1 < fuel →
    parseMembers fuel (E.renderMembers (member :: members) ++ '}' :: rest) =
      some (member :: members, rest) := by
  intro member members hfuel
  cases fuel with
  | zero => cases hfuel
  | succ fuel =>
      match member, members with
      | (name, value), [] =>
          rw [Escaper.renderMembers, Escaper.quote] at hfuel ⊢
          simp only [List.length_cons, List.length_append, List.length_nil] at hfuel
          simp only [List.cons_append, List.append_assoc, List.nil_append]
          exact parseMembers_last (readString_body E (by omega))
            (parseValue_render E value (by omega) (noNumberHead_cons rfl _))
      | (name, value), member' :: members =>
          rw [Escaper.renderMembers, Escaper.quote] at hfuel ⊢
          simp only [List.length_cons, List.length_append, List.length_nil] at hfuel
          simp only [List.cons_append, List.append_assoc, List.nil_append]
          exact parseMembers_cons (readString_body E (by omega))
            (parseValue_render E value (by omega) (noNumberHead_cons rfl _))
            (parseMembers_render E member' members (by omega))
end

/-- A document that has been written is read back. -/
theorem parse_render (E : Escaper) (v : Value) : parse (E.render v) = some v := by
  have hvalue : parseValue ((E.render v).length + 1) (E.render v ++ []) = some (v, []) :=
    parseValue_render E v (by omega) (by intro c hc; cases hc)
  rw [List.append_nil] at hvalue
  rw [parse, hvalue]
  rfl

end ObservableBSD.Json
