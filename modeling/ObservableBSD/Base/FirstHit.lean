import Mathlib.Data.ENat.Lattice

/-!
# The first hit of a property

Places are counted from one, and a property that never holds is first hit at infinity. A bounded search takes as many
steps as the first hit says, or all of them.
-/

namespace ObservableBSD.Base

variable {p : Nat → Prop} {n m : Nat}

noncomputable def firstHit (p : Nat → Prop) : ℕ∞ := ⨅ (i : Nat) (_ : p i), ((i + 1 : Nat) : ℕ∞)

theorem le_firstHit_iff : (n : ℕ∞) ≤ firstHit p ↔ ∀ i, i + 1 < n → ¬ p i := by
  simp only [firstHit, le_iInf_iff, Nat.cast_le]
  constructor
  · intro h i hi hp
    exact absurd (h i hp) (by omega)
  · intro h i hp
    by_contra hlt
    exact h i (by omega) hp

theorem firstHit_le_of {i : Nat} (h : p i) : firstHit p ≤ ((i + 1 : Nat) : ℕ∞) := iInf₂_le i h

/-- The steps of a search of at most `m + 1` steps: no earlier one hits, and the last one does unless it is the last
that there is. -/
theorem eq_min_firstHit_iff : (n : ℕ∞) = min (firstHit p) ((m + 1 : Nat) : ℕ∞) ↔
    0 < n ∧ n ≤ m + 1 ∧ (∀ i, i + 1 < n → ¬ p i) ∧ (n = m + 1 ∨ p (n - 1)) := by
  constructor
  · intro h
    have hle : (n : ℕ∞) ≤ firstHit p := h.trans_le (min_le_left _ _)
    have hbound : n ≤ m + 1 := Nat.cast_le.1 (h.trans_le (min_le_right _ _))
    have hearlier := le_firstHit_iff.1 hle
    have hhit : n = m + 1 ∨ p (n - 1) := by
      by_contra hnot
      rw [not_or] at hnot
      have hnext : ((n + 1 : Nat) : ℕ∞) ≤ min (firstHit p) ((m + 1 : Nat) : ℕ∞) := by
        refine le_min (le_firstHit_iff.2 fun i hi hp => ?_) (Nat.cast_le.2 (by omega))
        rcases Nat.lt_or_ge (i + 1) n with hlt | hge
        · exact hearlier i hlt hp
        · have hi : i = n - 1 := by omega
          exact hnot.2 (hi ▸ hp)
      rw [← h] at hnext
      exact absurd (Nat.cast_le.1 hnext) (by omega)
    refine ⟨Nat.pos_of_ne_zero ?_, hbound, hearlier, hhit⟩
    rintro rfl
    have hone : ((1 : Nat) : ℕ∞) ≤ min (firstHit p) ((m + 1 : Nat) : ℕ∞) :=
      le_min (le_firstHit_iff.2 fun i hi => absurd hi (by omega)) (Nat.cast_le.2 (by omega))
    rw [← h] at hone
    exact absurd (Nat.cast_le.1 hone) (by omega)
  · rintro ⟨hpos, hbound, hearlier, hhit⟩
    refine le_antisymm (le_min (le_firstHit_iff.2 hearlier) (Nat.cast_le.2 hbound)) ?_
    rcases hhit with rfl | hp
    · exact min_le_right _ _
    · refine (min_le_left _ _).trans ?_
      have hle := firstHit_le_of hp
      rwa [Nat.sub_add_cancel hpos] at hle

end ObservableBSD.Base
