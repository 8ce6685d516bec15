import Mathlib.Data.List.TakeWhile
import ObservableBSD.Instruments.Text

/-!
# Cutting, trimming and reading texts
-/

namespace ObservableBSD.Instruments

open Base Export

variable {c : Char} {s : Text}

/-! ## Trimming -/

variable {set : Char → Bool}

/-- A text whose first and last character stay is not trimmed. -/
theorem trimmingCharacters_eq_self (hfirst : ∀ d ∈ s.head?, set d = false) (hlast : ∀ d ∈ s.getLast?, set d = false) :
    trimmingCharacters set s = s := by
  have hdrop : s.dropWhile set = s := by
    cases s with
    | nil => rfl
    | cons d s => rw [List.dropWhile_cons, if_neg (by simpa using hfirst d rfl)]
  rw [trimmingCharacters, hdrop, List.rdropWhile_eq_self_iff]
  intro hne hset
  rw [hlast _ (List.getLast?_eq_some_getLast hne)] at hset
  cases hset

theorem head?_trimmingCharacters (set : Char → Bool) (s : Text) :
    ∀ d ∈ (trimmingCharacters set s).head?, set d = false := by
  intro d hd
  have hfront : trimmingCharacters set s <+: s.dropWhile set := List.rdropWhile_prefix _ _
  obtain ⟨rest, hrest⟩ := hfront
  have hhead : (s.dropWhile set).head? = some d := by
    rw [← hrest, List.head?_append, hd]
    rfl
  have hnot := List.head?_dropWhile_not set s
  rw [hhead] at hnot
  simpa using hnot

theorem getLast?_trimmingCharacters (set : Char → Bool) (s : Text) :
    ∀ d ∈ (trimmingCharacters set s).getLast?, set d = false := by
  intro d hd
  have hne : trimmingCharacters set s ≠ [] := fun hnil => by
    rw [hnil] at hd
    cases hd
  have hlast := List.rdropWhile_last_not set (s.dropWhile set) hne
  rw [Option.mem_def, List.getLast?_eq_some_getLast hne] at hd
  cases hd
  exact eq_false_of_ne_true hlast

/-- What is trimmed to a text whose first and last character stay. -/
theorem trimmingCharacters_eq_iff {w : Text} (hne : w ≠ []) (hfirst : ∀ d ∈ w.head?, set d = false)
    (hlast : ∀ d ∈ w.getLast?, set d = false) :
    trimmingCharacters set s = w ↔ ∃ u v, s = u ++ w ++ v ∧ ∀ d ∈ u ++ v, set d = true := by
  constructor
  · rintro rfl
    refine ⟨s.takeWhile set, (s.dropWhile set).rtakeWhile set, ?_, List.forall_mem_append.2
      ⟨fun d hd => List.mem_takeWhile_imp hd, fun d hd => List.mem_rtakeWhile_imp hd⟩⟩
    rw [List.append_assoc, trimmingCharacters, List.rdropWhile_append_rtakeWhile, List.takeWhile_append_dropWhile]
  · rintro ⟨u, v, rfl, hset⟩
    obtain ⟨hu, hv⟩ := List.forall_mem_append.1 hset
    have hfront : (w ++ v).dropWhile set = w ++ v := by
      obtain ⟨d, w, rfl⟩ := List.exists_cons_of_ne_nil hne
      rw [List.cons_append, List.dropWhile_cons_of_neg (by simpa using hfirst d rfl)]
    have hback : w.reverse.dropWhile set = w.reverse := by
      cases hw : w.reverse with
      | nil => rfl
      | cons d ds =>
          have hd : d ∈ w.getLast? := by rw [← List.head?_reverse, hw]; rfl
          rw [List.dropWhile_cons_of_neg (by simpa using hlast d hd)]
    have hv' : ∀ d ∈ v.reverse, set d = true := fun d hd => hv d (List.mem_reverse.1 hd)
    rw [trimmingCharacters, List.append_assoc, List.dropWhile_append_of_pos hu, hfront, List.rdropWhile,
      List.reverse_append, List.dropWhile_append_of_pos hv', hback, List.reverse_reverse]

theorem rdropWhile_cons_of_false {d : Char} (hd : set d = false) (s : Text) :
    (d :: s).rdropWhile set = d :: s.rdropWhile set := by
  have hdrop : (s.reverse ++ [d]).dropWhile set = s.reverse.dropWhile set ++ [d] := by
    rw [List.dropWhile_append]
    split
    · rename_i hnil
      rw [List.isEmpty_iff.1 hnil, List.dropWhile_cons_of_neg (by simp [hd]), List.nil_append]
    · rfl
  rw [List.rdropWhile, List.rdropWhile, List.reverse_cons, hdrop, List.reverse_concat]

/-! ## Lines -/

theorem splitNewlines_newline (s : Text) : splitNewlines ('\n' :: s) = [] :: splitNewlines s := rfl

theorem splitNewlines_ne_nil (s : Text) : splitNewlines s ≠ [] := by
  have hmodify {f : Text → Text} {lines : List Text} (h : lines ≠ []) : lines.modifyHead f ≠ [] := by
    cases lines with
    | nil => exact absurd rfl h
    | cons line lines => exact List.cons_ne_nil _ _
  induction s using splitNewlines.induct with
  | case1 => exact List.cons_ne_nil _ _
  | case2 s ih => exact hmodify ih
  | case3 s => exact List.cons_ne_nil _ _
  | case4 c s hreturn hc ih =>
      rw [splitNewlines.eq_3 _ _ hreturn, if_neg hc]
      exact hmodify ih

/-- A character that is no newline is the first of its line, unless it is a carriage return with a newline behind it. -/
theorem splitNewlines_cons (hc : c ≠ '\n') (hreturn : c = '\r' → s.head? ≠ some '\n') :
    splitNewlines (c :: s) = (splitNewlines s).modifyHead (c :: ·) := by
  rw [splitNewlines.eq_3, if_neg hc]
  rintro t rfl rfl
  exact hreturn rfl rfl

/-- Without a carriage return in front of it, a newline ends the last line of what stands in front of it. -/
theorem splitNewlines_append {front : Text} (h : front.getLast? ≠ some '\r') (s : Text) :
    splitNewlines (front ++ '\n' :: s) = splitNewlines front ++ splitNewlines s := by
  have hmodify (f : Text → Text) (front : Text) (lines : List Text) :
      (splitNewlines front ++ lines).modifyHead f = (splitNewlines front).modifyHead f ++ lines := by
    obtain ⟨line, rest, hlines⟩ := List.exists_cons_of_ne_nil (splitNewlines_ne_nil front)
    rw [hlines]
    rfl
  induction front using splitNewlines.induct with
  | case1 => rfl
  | case2 front ih =>
      have hlast : front.getLast? ≠ some '\r' := by
        rintro hfront
        rw [List.getLast?_cons_cons, List.getLast?_cons, hfront] at h
        exact h rfl
      rw [List.cons_append, List.cons_append, splitNewlines, splitNewlines, ih hlast, hmodify]
  | case3 front _ ih =>
      have hlast : front.getLast? ≠ some '\r' := by
        rintro hfront
        rw [List.getLast?_cons, hfront] at h
        exact h rfl
      rw [List.cons_append, splitNewlines_newline, splitNewlines_newline, ih hlast, List.cons_append]
  | case4 c front hreturn hc ih =>
      cases front with
      | nil =>
          have hne : c ≠ '\r' := fun heq => h (by rw [heq]; rfl)
          rw [List.singleton_append, splitNewlines_cons hc fun heq => absurd heq hne,
            splitNewlines_cons hc fun heq => absurd heq hne]
          rfl
      | cons d front =>
          rw [List.getLast?_cons_cons] at h
          have hd : c = '\r' → d ≠ '\n' := fun hr hd => hreturn front hr (by rw [hd])
          rw [List.cons_append, splitNewlines_cons hc fun hr => by simpa using hd hr, ih h,
            splitNewlines_cons hc fun hr => by simpa using hd hr, hmodify]

/-- A line is one line. -/
theorem splitNewlines_of_mem {line : Text} (h : line ∈ splitNewlines s) : splitNewlines line = [line] := by
  induction s using splitNewlines.induct generalizing line with
  | case1 =>
      cases List.mem_singleton.1 h
      rfl
  | case2 s ih =>
      obtain ⟨first, rest, hlines⟩ := List.exists_cons_of_ne_nil (splitNewlines_ne_nil s)
      rw [splitNewlines, hlines, List.modifyHead_cons] at h
      rw [hlines] at ih
      rcases List.mem_cons.1 h with rfl | h
      · rw [splitNewlines, ih List.mem_cons_self]
        rfl
      · exact ih (List.mem_cons_of_mem _ h)
  | case3 s _ ih =>
      rw [splitNewlines_newline] at h
      rcases List.mem_cons.1 h with rfl | h
      · rfl
      · exact ih h
  | case4 c s hreturn hc ih =>
      obtain ⟨first, rest, hlines⟩ := List.exists_cons_of_ne_nil (splitNewlines_ne_nil s)
      rw [splitNewlines.eq_3 _ _ hreturn, if_neg hc, hlines, List.modifyHead_cons] at h
      rw [hlines] at ih
      rcases List.mem_cons.1 h with rfl | h
      · have hfirst := ih List.mem_cons_self
        -- the first line is no newline, which would be two lines
        have hhead : first.head? ≠ some '\n' := by
          intro hhead
          obtain ⟨t, rfl⟩ := List.head?_eq_some_iff.1 hhead
          rw [splitNewlines_newline] at hfirst
          cases hfirst
        rw [splitNewlines_cons hc fun _ => hhead, hfirst]
        rfl
      · exact ih (List.mem_cons_of_mem _ h)

/-- The lines are the parts between the `Character`s that are newlines. -/
theorem splitNewlines_eq_splitOn (j : Joining) (s : Text) :
    splitNewlines s = ((scalars j.boundary s).splitOn ('\n', true)).map fun line => line.map Prod.fst := by
  have hmodify (e : Char × Bool) (lines : List (List (Char × Bool))) :
      (lines.modifyHead (e :: ·)).map (fun line => line.map Prod.fst) =
        (lines.map fun line => line.map Prod.fst).modifyHead (e.1 :: ·) := by
    cases lines <;> rfl
  have hother {c : Char} (b : Bool) (hc : c ≠ '\n') : ((c, b) == ('\n', true)) = false :=
    beq_eq_false_iff_ne.2 fun heq => hc (congrArg Prod.fst heq)
  suffices h : ∀ front : Text, (front.getLast? = some '\r' → s.head? ≠ some '\n') → splitNewlines s =
      ((scalarsIn j.boundary front s []).splitOn ('\n', true)).map fun line => line.map Prod.fst from
    h [] fun heq => by cases heq
  induction s using splitNewlines.induct with
  | case1 => exact fun front _ => rfl
  | case2 s ih =>
      intro front _
      have hjoined : j.boundary (front ++ ['\r']) ('\n' :: (s ++ [])) = false := by
        rw [Joining.boundary_newline, List.getLast?_concat]
        rfl
      have hrest := ih (front ++ ['\r'] ++ ['\n']) (by rw [List.getLast?_concat]; exact fun heq => by cases heq)
      rw [splitNewlines, scalarsIn, scalarsIn, List.cons_append, hjoined, Bool.and_false, Bool.false_and,
        List.splitOn_cons_eq_if_modifyHead, List.splitOn_cons_eq_if_modifyHead, if_neg (by simp), if_neg (by simp),
        hmodify, hmodify, ← hrest, List.modifyHead_modifyHead]
      rfl
  | case3 s _ ih =>
      intro front hfront
      have hboundary : j.boundary front ('\n' :: (s ++ [])) = true := by
        rw [Joining.boundary_newline]
        exact decide_eq_true fun heq => hfront heq rfl
      have hrest := ih (front ++ ['\n']) (by rw [List.getLast?_concat]; exact fun heq => by cases heq)
      rw [splitNewlines_newline, scalarsIn, hboundary, Joining.boundary_concat_newline,
        List.splitOn_cons_eq_if_modifyHead, if_pos (by simp), List.map_cons, ← hrest]
      rfl
  | case4 c s hreturn hc ih =>
      intro front _
      have hrest := ih (front ++ [c]) fun heq hhead => by
        rw [List.getLast?_concat, Option.some.injEq] at heq
        obtain ⟨t, ht⟩ := List.head?_eq_some_iff.1 hhead
        exact hreturn t heq ht
      rw [splitNewlines.eq_3 _ _ hreturn, if_neg hc, scalarsIn, List.splitOn_cons_eq_if_modifyHead,
        if_neg (by rw [hother _ hc]; exact Bool.false_ne_true), hmodify, ← hrest]

/-! ## Numerals -/

theorem digitValue?_digitChar : ∀ b ≤ 16, ∀ d < b, digitValue? b d.digitChar.toNat = some d := by decide

theorem digitsValue?_concat {radix : Nat} (hs : s ≠ []) : digitsValue? radix (s ++ [c]) =
    (digitsValue? radix s).bind fun v => (digitValue? radix c.toNat).map (v * radix + ·) := by
  obtain ⟨d, s, rfl⟩ := List.exists_cons_of_ne_nil hs
  rw [List.cons_append, digitsValue?, digitsValue?, ← List.cons_append, List.foldlM_append]
  cases (d :: s).foldlM (fun acc d => (digitValue? radix d.toNat).map (acc * radix + ·)) 0 with
  | none => rfl
  | some v => simp

theorem digitsValue?_toDigits {b : Nat} (h1 : 1 < b) (h16 : b ≤ 16) (n : Nat) :
    digitsValue? b (Nat.toDigits b n) = some n := by
  induction n using Nat.strong_induction_on with
  | _ n ih =>
      by_cases hlt : n < b
      · rw [Nat.toDigits_of_lt_base hlt, digitsValue?]
        simp [digitValue?_digitChar b h16 n hlt]
      · have hmod : n % b < b := Nat.mod_lt n (by omega)
        rw [Nat.toDigits_of_base_le h1 (Nat.le_of_not_lt hlt), digitsValue?_concat Nat.toDigits_ne_nil,
          ih (n / b) (Nat.div_lt_self (by omega) h1), digitValue?_digitChar b h16 _ hmod]
        simp [Nat.div_add_mod']

theorem digitsValue?_zeros {radix : Nat} (hr : 0 < radix) (zeros : Nat) (hs : s ≠ []) :
    digitsValue? radix (List.replicate zeros '0' ++ s) = digitsValue? radix s := by
  have hzero : digitValue? radix ('0' : Char).toNat = some 0 := by
    simp [digitValue?, hr]
  induction zeros with
  | zero => rfl
  | succ zeros ih =>
      rw [← ih, List.replicate_succ, List.cons_append, digitsValue?]
      obtain ⟨d, rest, hrest⟩ := List.exists_cons_of_ne_nil
        (List.append_ne_nil_of_right_ne_nil (List.replicate zeros '0') hs)
      rw [hrest, digitsValue?, List.foldlM_cons, hzero]
      simp

theorem digit_of_mem_toDigits {b n : Nat} (h1 : 1 < b) (h16 : b ≤ 16) (hc : c ∈ Nat.toDigits b n) :
    ∃ d < b, c = d.digitChar := by
  induction n using Nat.strong_induction_on with
  | _ n ih =>
      by_cases hlt : n < b
      · rw [Nat.toDigits_of_lt_base hlt] at hc
        exact ⟨n, hlt, List.mem_singleton.1 hc⟩
      · rw [Nat.toDigits_of_base_le h1 (Nat.le_of_not_lt hlt)] at hc
        rcases List.mem_append.1 hc with hc | hc
        · exact ih (n / b) (Nat.div_lt_self (by omega) h1) hc
        · exact ⟨n % b, Nat.mod_lt n (by omega), List.mem_singleton.1 hc⟩

theorem digitChar_plain : ∀ d < 16, d.digitChar ≠ '+' ∧ d.digitChar ≠ '-' ∧ d.digitChar ≠ '\x60' ∧
    whitespaces d.digitChar = false := by decide

theorem plain_of_mem_toDigits {b n : Nat} (h1 : 1 < b) (h16 : b ≤ 16) (hc : c ∈ Nat.toDigits b n) :
    c ≠ '+' ∧ c ≠ '-' ∧ c ≠ '\x60' ∧ whitespaces c = false := by
  obtain ⟨d, hd, rfl⟩ := digit_of_mem_toDigits h1 h16 hc
  exact digitChar_plain d (Nat.lt_of_lt_of_le hd h16)

/-- A text of digits has no sign in front. -/
theorem integer?_of_digits {radix : Nat} {low high : Int} {n : Nat} (hs : digitsValue? radix s = some n)
    (hplain : ∀ d ∈ s, d ≠ '+' ∧ d ≠ '-') (hlow : low ≤ n) (hhigh : n ≤ high) :
    integer? radix low high s = some (n : Int) := by
  unfold integer?
  split
  · exact absurd rfl (hplain '+' List.mem_cons_self).1
  · exact absurd rfl (hplain '-' List.mem_cons_self).2
  · simp [hs, Option.filter, hlow, hhigh]

theorem uint64OfHex?_of_digits {n : UInt64} (hs : digitsValue? 16 s = some n.toNat)
    (hplain : ∀ d ∈ s, d ≠ '+' ∧ d ≠ '-') :
    uint64OfHex? s = some n := by
  have hlt := n.toNat_lt
  have hvalue : integer? 16 0 18446744073709551615 s = some (n.toNat : Int) :=
    integer?_of_digits hs hplain (by omega) (by omega)
  rw [uint64OfHex?, hvalue, Option.map_some, Int.toNat_natCast, UInt64.ofNat_toNat]

theorem int32?_toDigits {n : Int32} (h : 0 ≤ n) : int32? (Nat.toDigits 10 n.toInt.toNat) = some n := by
  have hnonneg : 0 ≤ n.toInt := Int32.le_iff_toInt_le.1 h
  have hlt := n.toInt_lt
  have hnat : (n.toInt.toNat : Int) = n.toInt := Int.toNat_of_nonneg hnonneg
  have hplain : ∀ d ∈ Nat.toDigits 10 n.toInt.toNat, d ≠ '+' ∧ d ≠ '-' := fun d hd =>
    have hd := plain_of_mem_toDigits (by decide) (by decide) hd
    ⟨hd.1, hd.2.1⟩
  have hvalue : integer? 10 (-2147483648) 2147483647 (Nat.toDigits 10 n.toInt.toNat) = some (n.toInt.toNat : Int) :=
    integer?_of_digits (digitsValue?_toDigits (by decide) (by decide) _) hplain (by omega) (by omega)
  rw [int32?, hvalue, Option.map_some, hnat, Int32.ofInt_toInt]

end ObservableBSD.Instruments
