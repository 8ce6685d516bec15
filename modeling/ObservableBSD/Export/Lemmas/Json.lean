import ObservableBSD.Export.Json
import ObservableBSD.Json.Lemmas.Number
import ObservableBSD.Json.Lemmas.RoundTrip

/-!
# The exporters write JSON
-/

namespace ObservableBSD.Export

open Json

/-! ## Strings -/

theorem hexValue?_digitChar {d : Nat} (hd : d < 16) : hexValue? d.digitChar = some d := by
  have h : ∀ d < 16, hexValue? d.digitChar = some d := by decide
  exact h d hd

/-- `%04x` of a control character. -/
theorem leftpad_hex {v : Nat} (hv : v < 32) :
    List.leftpad 4 '0' (Nat.toDigits 16 v) =
      ['0', '0', (v / 16).digitChar, (v % 16).digitChar] := by
  have h : ∀ v < 32, List.leftpad 4 '0' (Nat.toDigits 16 v) =
      ['0', '0', (v / 16).digitChar, (v % 16).digitChar] := by decide
  exact h v hv

theorem readUnicode_control {v : Nat} (hv : v < 32) (rest : Text) :
    readUnicode (List.leftpad 4 '0' (Nat.toDigits 16 v) ++ rest) = some (Char.ofNat v, rest) := by
  have hhex : readHex4 (List.leftpad 4 '0' (Nat.toDigits 16 v) ++ rest) = some (v, rest) := by
    rw [leftpad_hex hv]
    simp only [List.cons_append, List.nil_append, readHex4,
      hexValue?_digitChar (show v / 16 < 16 by omega), hexValue?_digitChar (show v % 16 < 16 by omega)]
    have hzero : hexValue? '0' = some 0 := rfl
    simp only [hzero, Option.some.injEq, Prod.mk.injEq, and_true]
    omega
  have hlow : ¬ (0xD800 ≤ v ∧ v < 0xDC00) := by omega
  have hhigh : ¬ (0xDC00 ≤ v ∧ v < 0xE000) := by omega
  simp only [readUnicode, hhex, if_neg hlow, if_neg hhigh]

theorem readChar_escapeScalar (c : Char) (rest : Text) :
    readChar (escapeScalar c ++ rest) = some (c, rest) := by
  unfold escapeScalar
  split
  · subst c; rfl
  split
  · subst c; rfl
  split
  · subst c; rfl
  split
  · subst c; rfl
  split
  · subst c; rfl
  split
  · subst c; rfl
  split
  · subst c; rfl
  rename_i hquote hbackslash _ _ _ _ _
  split
  · rename_i hcontrol
    have hread := readUnicode_control hcontrol rest
    rw [Char.ofNat_toNat] at hread
    exact hread
  · rename_i hplain
    rw [List.singleton_append, readChar]
    · rw [if_neg hplain]
    all_goals
      intros
      simp_all

/-- The escaping of the exporters. -/
def swift : Escaper := ⟨escapeScalar, readChar_escapeScalar⟩

theorem escapeJSON_append (s t : Text) : escapeJSON (s ++ t) = escapeJSON s ++ escapeJSON t :=
  List.flatMap_append

theorem escapeScalar_digit {c : Char} (h : c.isDigit = true) : escapeScalar c = [c] := by
  have hcode : 48 ≤ c.toNat ∧ c.toNat ≤ 57 := by
    rw [Char.isDigit, Bool.and_eq_true, decide_eq_true_eq, decide_eq_true_eq] at h
    exact ⟨h.1, h.2⟩
  have hne : ∀ d : Char, ¬ (48 ≤ d.toNat ∧ d.toNat ≤ 57) → c ≠ d := by
    rintro d hd rfl
    exact hd hcode
  unfold escapeScalar
  rw [if_neg (hne _ (by decide)), if_neg (hne _ (by decide)), if_neg (hne _ (by decide)),
    if_neg (hne _ (by decide)), if_neg (hne _ (by decide)), if_neg (hne _ (by decide)),
    if_neg (hne _ (by decide)), if_neg (by omega)]

theorem escapeJSON_natText (n : Nat) : escapeJSON (natText n) = natText n := by
  have hdigits : ∀ c ∈ natText n, escapeScalar c = [c] := fun c hc =>
    escapeScalar_digit (Nat.isDigit_of_mem_toDigits (by decide) (by decide) hc)
  rw [escapeJSON, List.flatMap_congr hdigits]
  exact List.flatMap_singleton' _

theorem escapeJSON_intText (v : Int) : escapeJSON (intText v) = intText v := by
  unfold intText
  split
  · exact congrArg (List.cons '-') (escapeJSON_natText _)
  · exact escapeJSON_natText _

theorem natText_eq (n : Nat) : natText n = intText n := rfl

theorem swift_quote (s : Text) : swift.quote s = '"' :: (escapeJSON s ++ ['"']) := rfl

/-! ## Lists -/

theorem joined_render (values : List Value) :
    joined (values.map swift.render) = swift.renderElements values := by
  induction values with
  | nil => rw [Escaper.renderElements]; rfl
  | cons value values ih => cases values with
      | nil => rw [Escaper.renderElements]; rfl
      | cons value' values =>
          rw [Escaper.renderElements, ← ih]
          exact List.append_assoc _ _ _

theorem joined_cons (part : Text) (parts : List Text) :
    joined (part :: parts) = part ++ parts.flatMap fun part => text "," ++ part := by
  induction parts generalizing part with
  | nil => exact (List.append_nil part).symm
  | cons part' parts ih =>
      rw [joined, ih, List.flatMap_cons]
      exact List.append_assoc _ _ _

/-- A comma in front of every element but the first joins them. -/
theorem enumerated_eq_joined {α : Type} (write : Nat → α → Text) (elems : List α) :
    enumerated write elems = joined (elems.zipIdx.map fun (elem, i) => write i elem) := by
  cases elems with
  | nil => rfl
  | cons elem elems =>
      have htail : ∀ k, 0 < k → ((elems.zipIdx k).flatMap fun (elem, i) =>
          (if 0 < i then text "," else []) ++ write i elem) =
            ((elems.zipIdx k).map fun (elem, i) => write i elem).flatMap fun part =>
              text "," ++ part := by
        induction elems with
        | nil => intros; rfl
        | cons elem elems ih =>
            intro k hk
            simp only [List.zipIdx_cons, List.flatMap_cons, List.map_cons, if_pos hk, ih (k + 1) (by omega)]
      rw [enumerated, List.zipIdx_cons, List.flatMap_cons, List.map_cons, joined_cons, htail _ (by omega)]
      rfl

theorem map_zipIdx_fst {α β : Type} (f : α → β) (elems : List α) (k : Nat) :
    ((elems.zipIdx k).map fun x => f x.1) = elems.map f := by
  have hzip := congrArg (List.map f) (List.zipIdx_map_fst k elems)
  rwa [List.map_map] at hzip

theorem enumerated_const {α : Type} (write : α → Text) (elems : List α) :
    enumerated (fun _ elem => write elem) elems = joined (elems.map write) := by
  rw [enumerated_eq_joined]
  exact congrArg joined (map_zipIdx_fst write elems 0)

/-! ## Values -/

/-- A member whose value is the text of an integer. -/
def intString (v : Int) : Value := .string (intText v)

def stringAttribute (key value : Text) : Value :=
  .object [(text "key", .string key), (text "value", .object [(text "stringValue", .string value)])]

theorem render_stringAttribute (key value : Text) :
    swift.render (stringAttribute key value) = stringAttributeJSON key value := by
  simp only [stringAttribute, Escaper.render, Escaper.renderMembers, swift_quote, stringAttributeJSON,
    text, List.append_assoc, List.cons_append, List.nil_append]
  rfl

end ObservableBSD.Export
