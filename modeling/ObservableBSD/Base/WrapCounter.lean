import Mathlib.Data.Nat.ModEq

/-!
# Counters that wrap

A counter shows a true count modulo `M`. The difference of two readings is right as long as the true count
grows by less than `M` between them, and then the differences of a series of readings telescope.
-/

namespace ObservableBSD.Base

variable {M : Nat}

/-- The growth between the readings `prev` and `cur` of a counter modulo `M` that wrapped at most once. -/
def wrapDelta (M cur prev : Nat) : Nat := if prev ≤ cur then cur - prev else M - prev + cur

theorem wrapDelta_lt {cur prev : Nat} (hcur : cur < M) (hprev : prev < M) : wrapDelta M cur prev < M := by
  unfold wrapDelta
  split <;> omega

theorem add_wrapDelta_modEq {cur prev : Nat} (hprev : prev < M) :
    prev + wrapDelta M cur prev ≡ cur [MOD M] := by
  unfold wrapDelta
  split
  · rw [Nat.add_sub_of_le ‹_›]
  · have h : prev + (M - prev + cur) = cur + M := by omega
    rw [h]
    exact Nat.add_modEq_right

/-- The difference of two readings is the growth of the true count modulo `M`. -/
theorem wrapDelta_mod {a b : Nat} (hM : 0 < M) (hab : a ≤ b) :
    wrapDelta M (b % M) (a % M) = (b - a) % M := by
  have hlt : wrapDelta M (b % M) (a % M) < M := wrapDelta_lt (Nat.mod_lt b hM) (Nat.mod_lt a hM)
  have hsum : a + wrapDelta M (b % M) (a % M) ≡ a + (b - a) [MOD M] := by
    calc a + wrapDelta M (b % M) (a % M)
        ≡ a % M + wrapDelta M (b % M) (a % M) [MOD M] := (Nat.mod_modEq a M).symm.add_right _
      _ ≡ b % M [MOD M] := add_wrapDelta_modEq (Nat.mod_lt a hM)
      _ ≡ b [MOD M] := Nat.mod_modEq b M
      _ = a + (b - a) := (Nat.add_sub_of_le hab).symm
  have hd : wrapDelta M (b % M) (a % M) % M = (b - a) % M := Nat.ModEq.add_left_cancel' a hsum
  rwa [Nat.mod_eq_of_lt hlt] at hd

theorem wrapDelta_mod_of_lt {a b : Nat} (hab : a ≤ b) (hlt : b - a < M) :
    wrapDelta M (b % M) (a % M) = b - a := by
  rw [wrapDelta_mod (by omega) hab, Nat.mod_eq_of_lt hlt]

/-! ## Series of readings -/

/-- From one true count to the next the counter goes round less than once. -/
def Slow (M a b : Nat) : Prop := a ≤ b ∧ b - a < M

instance (M a b : Nat) : Decidable (Slow M a b) := inferInstanceAs (Decidable (_ ∧ _))

/-- The differences of neighbouring readings of a series of true counts. -/
def wrapDeltas (M : Nat) : List Nat → List Nat
  | a :: b :: l => wrapDelta M (b % M) (a % M) :: wrapDeltas M (b :: l)
  | _ => []

def total (l : List Nat) : Nat := l.foldr (· + ·) 0

@[simp] theorem total_nil : total [] = 0 := rfl

@[simp] theorem total_cons (n : Nat) (l : List Nat) : total (n :: l) = n + total l := rfl

theorem wrapDeltas_lt (hM : 0 < M) {l : List Nat} {d : Nat} (hd : d ∈ wrapDeltas M l) : d < M := by
  induction l with
  | nil => cases hd
  | cons a l ih =>
      cases l with
      | nil => cases hd
      | cons b l =>
          rcases List.mem_cons.1 hd with rfl | hd
          · exact wrapDelta_lt (Nat.mod_lt b hM) (Nat.mod_lt a hM)
          · exact ih hd

/-- The differences of a slow series add up to the growth from its first to its last true count. -/
theorem add_total_wrapDeltas {l : List Nat} (h : l.IsChain (Slow M)) {a z : Nat} (ha : l.head? = some a)
    (hz : l.getLast? = some z) : a + total (wrapDeltas M l) = z := by
  induction l generalizing a with
  | nil => cases ha
  | cons b l ih =>
      cases ha
      cases l with
      | nil => cases hz; rfl
      | cons b l =>
          obtain ⟨⟨hab, hlt⟩, hl⟩ := List.isChain_cons_cons.1 h
          have hrest := ih hl rfl (by rwa [List.getLast?_cons_cons] at hz)
          simp only [wrapDeltas, total_cons, wrapDelta_mod_of_lt hab hlt]
          omega

/-- One difference over a whole slow series is the sum of its differences if the count grows by less than
`M` in all, and only then. -/
theorem wrapDelta_eq_total_iff (hM : 0 < M) {l : List Nat} (h : l.IsChain (Slow M)) {a z : Nat}
    (ha : l.head? = some a) (hz : l.getLast? = some z) :
    wrapDelta M (z % M) (a % M) = total (wrapDeltas M l) ↔ z - a < M := by
  have hsum := add_total_wrapDeltas h ha hz
  have htotal : total (wrapDeltas M l) = z - a := by omega
  rw [htotal, wrapDelta_mod hM (by omega)]
  exact Nat.mod_eq_iff_lt hM.ne'

end ObservableBSD.Base
