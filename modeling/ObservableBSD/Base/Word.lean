import Mathlib.Algebra.Group.Nat.Defs
import Mathlib.Algebra.Order.Floor.Ring
import Mathlib.Data.Rat.Floor

/-!
# Machine words
-/

namespace ObservableBSD.Base

theorem toNat_add_of_lt {a b : UInt64} (h : a.toNat + b.toNat < UInt64.size) :
    (a + b).toNat = a.toNat + b.toNat := by
  rw [UInt64.toNat_add]
  exact Nat.mod_eq_of_lt h

/-- A sum is above its summands exactly when it does not wrap. -/
theorem lt_add_iff {a b : UInt64} (h : 0 < b) : a < a + b ↔ a.toNat + b.toNat < UInt64.size := by
  have ha := a.toNat_lt
  have hb := b.toNat_lt
  have hpos : 0 < b.toNat := UInt64.lt_iff_toNat_lt.mp h
  rw [UInt64.lt_iff_toNat_lt, UInt64.toNat_add]
  simp only [UInt64.size]
  omega

/-- A mask of the high bits rounds down to a multiple of a power of two. -/
theorem toNat_and_not_mask (x : UInt64) {k : Nat} (hk : k ≤ 64) :
    (x &&& ~~~UInt64.ofNat (2 ^ k - 1)).toNat = x.toNat / 2 ^ k * 2 ^ k := by
  have hpow : 2 ^ k ≤ 2 ^ 64 := Nat.pow_le_pow_right (by decide) hk
  have hpos : 0 < 2 ^ k := Nat.two_pow_pos k
  have hmask : (UInt64.ofNat (2 ^ k - 1)).toNat = 2 ^ k - 1 :=
    UInt64.toNat_ofNat_of_lt' (by simp only [UInt64.size]; omega)
  have hnot : (~~~UInt64.ofNat (2 ^ k - 1)).toNat = 2 ^ 64 - (2 ^ k - 1 + 1) := by
    rw [UInt64.toNat_not, hmask]
    simp only [UInt64.size]
    omega
  rw [UInt64.toNat_and, hnot]
  refine Nat.eq_of_testBit_eq fun i => ?_
  rw [Nat.testBit_and, Nat.testBit_two_pow_sub_succ (by omega), Nat.testBit_two_pow_sub_one, Nat.testBit_mul_two_pow,
    Nat.testBit_div_two_pow]
  rcases Nat.lt_or_ge i k with hi | hi
  · have hlow : ¬ k ≤ i := by omega
    simp [hi, hlow]
  · rcases Nat.lt_or_ge i 64 with h64 | h64
    · simp [hi, h64, Nat.sub_add_cancel hi]
    · have hx : x.toNat.testBit i = false :=
        Nat.testBit_lt_two_pow (Nat.lt_of_lt_of_le x.toNat_lt (Nat.pow_le_pow_right (by decide) h64))
      simp [hx, Nat.sub_add_cancel hi]

/-!
## Conversions of fractions

The initializers of Swift's integer types, of a floating-point number that stands for a fraction: it is rounded toward
zero, and they trap (`none`) when the type does not have the result.
-/

def truncate (x : ℚ) : ℤ := if 0 ≤ x then ⌊x⌋ else ⌈x⌉

/-- The result in a type of the values from `low` up to `high`. -/
def integerOf? (low high : ℤ) (x : ℚ) : Option ℤ :=
  if low ≤ truncate x ∧ truncate x < high then some (truncate x) else none

def uint32Of? (x : ℚ) : Option UInt32 := (integerOf? 0 (2 ^ 32) x).map fun n => UInt32.ofNat n.toNat

def uint64Of? (x : ℚ) : Option UInt64 := (integerOf? 0 (2 ^ 64) x).map fun n => UInt64.ofNat n.toNat

def int64Of? (x : ℚ) : Option Int64 := (integerOf? (-2 ^ 63) (2 ^ 63) x).map Int64.ofInt

def int64OfUInt64? (v : UInt64) : Option Int64 := if v.toNat < 2 ^ 63 then some v.toInt64 else none

variable {low high : ℤ} {x : ℚ}

theorem truncate_of_nonneg (h : 0 ≤ x) : truncate x = ⌊x⌋ := if_pos h

theorem integerOf?_of_nonneg (h : 0 ≤ x) (hlow : low ≤ 0) (hhigh : x < high) : integerOf? low high x = some ⌊x⌋ := by
  have hfloor : 0 ≤ ⌊x⌋ := Int.floor_nonneg.mpr h
  rw [integerOf?, truncate_of_nonneg h, if_pos ⟨hlow.trans hfloor, Int.floor_lt.mpr hhigh⟩]

theorem lt_of_integerOf? {n : ℤ} (hhigh : 0 < high) (h : integerOf? low high x = some n) : x < high := by
  rcases le_or_gt 0 x with h0 | h0
  · unfold integerOf? at h
    rw [truncate_of_nonneg h0] at h
    split at h
    · rename_i hrange
      exact Int.floor_lt.mp hrange.2
    · cases h
  · exact h0.trans (by exact_mod_cast hhigh)

end ObservableBSD.Base
