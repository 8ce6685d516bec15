import Mathlib.Data.List.TakeWhile
import ObservableBSD.Json.Value

/-!
# Integers in JSON
-/

namespace ObservableBSD.Json

theorem toDigits_all_digits (n : Nat) : allDigits (Nat.toDigits 10 n) = true := by
  rw [allDigits, Bool.and_eq_true, decide_eq_true_eq]
  refine ⟨Nat.toDigits_ne_nil, List.all_eq_true.mpr fun c hc => ?_⟩
  exact Nat.isDigit_of_mem_toDigits (by decide) (by decide) hc

theorem natOfChars?_toDigits (n : Nat) : natOfChars? (Nat.toDigits 10 n) = some n := by
  rw [natOfChars?, if_pos (toDigits_all_digits n), Nat.ofDigitChars_ten_toDigits]

/-- The first digit is 0 for the number 0 only. -/
theorem head_toDigits {n : Nat} (hn : n ≠ 0) : ∃ c cs, Nat.toDigits 10 n = c :: cs ∧ c ≠ '0' := by
  induction n using Nat.strong_induction_on with
  | _ n ih =>
      by_cases hlt : n < 10
      · have hdigit : ∀ d < 10, d ≠ 0 → d.digitChar ≠ '0' := by decide
        exact ⟨n.digitChar, [], Nat.toDigits_of_lt_base hlt, hdigit n hlt hn⟩
      · obtain ⟨c, cs, heq, hc⟩ := ih (n / 10) (by omega) (by omega)
        refine ⟨c, cs ++ [(n % 10).digitChar], ?_, hc⟩
        rw [Nat.toDigits_of_base_le (by decide) (by omega), heq]
        rfl

theorem isUnsigned_toDigits (n : Nat) : isUnsigned (Nat.toDigits 10 n) = true := by
  have hall : (Nat.toDigits 10 n).takeWhile Char.isDigit = Nat.toDigits 10 n ∧
      (Nat.toDigits 10 n).dropWhile Char.isDigit = [] := by
    have hdigits := toDigits_all_digits n
    rw [allDigits, Bool.and_eq_true] at hdigits
    constructor
    · rw [List.takeWhile_eq_self_iff]
      exact List.all_eq_true.mp hdigits.2
    · rw [List.dropWhile_eq_nil_iff]
      exact List.all_eq_true.mp hdigits.2
  have hzero : Nat.toDigits 10 n = ['0'] ∨ (Nat.toDigits 10 n).head? ≠ some '0' := by
    by_cases hn : n = 0
    · left
      rw [hn]
      rfl
    · obtain ⟨c, cs, heq, hc⟩ := head_toDigits hn
      right
      rw [heq]
      intro h
      exact hc (Option.some.inj h)
  simp only [isUnsigned, hall.1, hall.2, Bool.and_eq_true, Bool.or_eq_true, decide_eq_true_eq]
  exact ⟨⟨Nat.toDigits_ne_nil, hzero⟩, rfl⟩

/-- A text of digits has no minus sign in front. -/
theorem toDigits_ne_minus (n : Nat) (cs : List Char) : Nat.toDigits 10 n ≠ '-' :: cs := by
  intro h
  have hdigits := toDigits_all_digits n
  rw [h, allDigits, Bool.and_eq_true] at hdigits
  have hminus := List.all_eq_true.mp hdigits.2 '-' List.mem_cons_self
  cases hminus

theorem isNumber_intChars (v : Int) : isNumber (intChars v) = true := by
  unfold intChars
  split
  · exact isUnsigned_toDigits _
  · rw [isNumber]
    · exact isUnsigned_toDigits _
    · exact toDigits_ne_minus _

theorem intOfChars?_intChars (v : Int) : intOfChars? (intChars v) = some v := by
  unfold intChars
  split
  · rename_i hneg
    rw [intOfChars?, natOfChars?_toDigits, Option.map_some, Option.some.injEq]
    simp only [Int.ofNat_eq_natCast]
    omega
  · rename_i hpos
    rw [intOfChars?, natOfChars?_toDigits, Option.map_some, Option.some.injEq]
    · simp only [Int.ofNat_eq_natCast]
      omega
    · exact toDigits_ne_minus _

def JsonNumber.ofInt (v : Int) : JsonNumber := ⟨intChars v, isNumber_intChars v⟩

theorem int?_ofInt (v : Int) : (Value.number (JsonNumber.ofInt v)).int? = some v :=
  intOfChars?_intChars v

end ObservableBSD.Json
