import Mathlib.Data.List.Induction

/-!
# Points and the intervals they lie in

Intervals in a list may overlap; a point belongs to the first one that it lies in. The distance from the start of
its interval tells a point from all others exactly when the intervals with points of their own start together.
-/

namespace ObservableBSD.Base

/-- The interval that a point belongs to. -/
def coverOf (segs : List (Nat × Nat)) (p : Nat) : Option (Nat × Nat) := segs.find? fun x => x.1 ≤ p ∧ p < x.2

/-- The points of the intervals have different distances from the starts. -/
def DistancesDiffer (segs : List (Nat × Nat)) : Prop :=
  ∀ p q x y, coverOf segs p = some x → coverOf segs q = some y → p - x.1 = q - y.1 → p = q

/-- The intervals that points belong to start together. -/
def StartTogether (segs : List (Nat × Nat)) : Prop :=
  ∀ p q x y, coverOf segs p = some x → coverOf segs q = some y → x.1 = y.1

variable {segs : List (Nat × Nat)} {x : Nat × Nat} {p : Nat}

theorem coverOf_bounds (h : coverOf segs p = some x) : x.1 ≤ p ∧ p < x.2 := by
  simpa using List.find?_some h

theorem coverOf_concat_of_some (h : coverOf segs p = some x) (y : Nat × Nat) : coverOf (segs ++ [y]) p = some x := by
  rw [coverOf] at h
  rw [coverOf, List.find?_append, h, Option.some_or]

theorem coverOf_concat_of_none (h : coverOf segs p = none) {y : Nat × Nat} (hy : y.1 ≤ p ∧ p < y.2) :
    coverOf (segs ++ [y]) p = some y := by
  rw [coverOf] at h
  rw [coverOf, List.find?_append, h, Option.none_or, List.find?_cons_of_pos (by simpa using hy)]

/-- A point of the longer list belongs to an earlier interval or to the last one. -/
theorem coverOf_concat (y : Nat × Nat) : coverOf (segs ++ [y]) p = some x ↔
    coverOf segs p = some x ∨ (coverOf segs p = none ∧ x = y ∧ y.1 ≤ p ∧ p < y.2) := by
  constructor
  · intro h
    cases hp : coverOf segs p with
    | some z => exact Or.inl ((coverOf_concat_of_some hp y).symm.trans h)
    | none =>
        refine Or.inr ⟨rfl, ?_⟩
        rw [coverOf] at hp
        rw [coverOf, List.find?_append, hp, Option.none_or, List.find?_singleton] at h
        split at h
        · rename_i hy
          exact ⟨(Option.some.inj h).symm, by simpa using hy⟩
        · cases h
  · rintro (h | ⟨hp, rfl, hy⟩)
    · exact coverOf_concat_of_some h y
    · exact coverOf_concat_of_none hp hy

/-- The points of the intervals form one stretch, in which each belongs to an interval from its start on. -/
structure OneStretch (segs : List (Nat × Nat)) (lo hi : Nat) : Prop where
  covers : ∀ p, (∃ x, coverOf segs p = some x) ↔ lo ≤ p ∧ p < hi
  starts : ∀ p x, coverOf segs p = some x → x.1 = lo

theorem not_distancesDiffer {y : Nat × Nat} {q : Nat} (hx : coverOf segs p = some x) (hy : coverOf segs q = some y)
    (hdist : p - x.1 = q - y.1) (hne : p ≠ q) : ¬ DistancesDiffer segs := fun h => hne (h p q x y hx hy hdist)

/-- Another interval that starts elsewhere repeats a distance. -/
theorem OneStretch.repeats {lo hi : Nat} (h : OneStretch segs lo hi) (hpos : lo < hi) {y : Nat × Nat} (hne : y.1 ≠ lo)
    (hp : coverOf segs p = none) (hy : y.1 ≤ p ∧ p < y.2) : ¬ DistancesDiffer (segs ++ [y]) := by
  have hout : ¬ (lo ≤ p ∧ p < hi) := fun hin => by
    obtain ⟨z, hz⟩ := (h.covers p).mpr hin
    exact absurd (hp.symm.trans hz) (by simp)
  -- a point of the stretch that has the distance of a point `q` behind it or in front of it
  have hrepeat : ∀ q, ¬ (lo ≤ q ∧ q < hi) → y.1 ≤ q → q < y.2 → q - y.1 < hi - lo →
    ¬ DistancesDiffer (segs ++ [y]) := by
    intro q hq hlow hhigh hdist
    obtain ⟨z, hz⟩ := (h.covers (lo + (q - y.1))).mpr (by omega)
    have hstart := h.starts _ z hz
    have hnone : coverOf segs q = none := by
      cases hcov : coverOf segs q with
      | none => rfl
      | some w => exact absurd ((h.covers q).mp ⟨w, hcov⟩) hq
    refine not_distancesDiffer (coverOf_concat_of_some hz y) (coverOf_concat_of_none hnone ⟨hlow, hhigh⟩) ?_ ?_
    · omega
    · omega
  by_cases hbetween : lo < y.1 ∧ y.1 < hi
  · exact hrepeat hi (by omega) (by omega) (by omega) (by omega)
  · exact hrepeat y.1 (by omega) (Nat.le_refl _) (by omega) (by omega)

/-- An interval that no point belongs to changes nothing. -/
theorem OneStretch.hidden {lo hi : Nat} (h : OneStretch segs lo hi) {y : Nat × Nat}
    (hy : ∀ p, coverOf segs p = none → ¬ (y.1 ≤ p ∧ p < y.2)) : OneStretch (segs ++ [y]) lo hi := by
  have hsame : ∀ p x, coverOf (segs ++ [y]) p = some x ↔ coverOf segs p = some x := by
    intro p x
    rw [coverOf_concat]
    exact ⟨fun hx => hx.resolve_right fun hlast => hy p hlast.1 hlast.2.2, Or.inl⟩
  exact ⟨fun p => by simp only [hsame, h.covers], fun p x hx => h.starts p x ((hsame p x).mp hx)⟩

/-- An interval with the same start makes the stretch longer; an empty stretch starts anywhere. -/
theorem OneStretch.extend {lo hi : Nat} (h : OneStretch segs lo hi) {y : Nat × Nat} (hy : hi ≤ lo ∨ y.1 = lo) :
    OneStretch (segs ++ [y]) y.1 (if lo < hi then max hi y.2 else y.2) := by
  have hnone : ∀ p, coverOf segs p = none ↔ ¬ (lo ≤ p ∧ p < hi) := by
    intro p
    rw [← h.covers p, not_exists, Option.eq_none_iff_forall_ne_some]
  have hsome : ∀ p, (∃ x, coverOf (segs ++ [y]) p = some x) ↔
      (lo ≤ p ∧ p < hi) ∨ (¬ (lo ≤ p ∧ p < hi) ∧ y.1 ≤ p ∧ p < y.2) := by
    intro p
    simp only [coverOf_concat, exists_or, h.covers, hnone, exists_and_left, exists_eq_left]
  constructor
  · intro p
    rw [hsome]
    split <;> omega
  · intro p x hx
    rcases (coverOf_concat y).mp hx with hx | ⟨_, rfl, _⟩
    · have hin := (h.covers p).mp ⟨x, hx⟩
      rw [h.starts p x hx]
      omega
    · rfl

theorem oneStretch_or_repeats (segs : List (Nat × Nat)) :
    (∃ lo hi, OneStretch segs lo hi) ∨ ¬ DistancesDiffer segs := by
  induction segs using List.reverseRecOn with
  | nil => exact Or.inl ⟨0, 0, ⟨by simp [coverOf], by simp [coverOf]⟩⟩
  | append_singleton segs y ih =>
      rcases ih with ⟨lo, hi, h⟩ | h
      · by_cases hvisible : ∃ p, coverOf segs p = none ∧ y.1 ≤ p ∧ p < y.2
        · obtain ⟨p, hp, hy⟩ := hvisible
          by_cases hstart : hi ≤ lo ∨ y.1 = lo
          · exact Or.inl ⟨_, _, h.extend hstart⟩
          · exact Or.inr (h.repeats (by omega) (by omega) hp hy)
        · exact Or.inl ⟨lo, hi, h.hidden fun p hp hy => hvisible ⟨p, hp, hy⟩⟩
      · refine Or.inr fun hall => h fun p q x z hx hz => ?_
        exact hall p q x z (coverOf_concat_of_some hx y) (coverOf_concat_of_some hz y)

theorem distancesDiffer_iff : DistancesDiffer segs ↔ StartTogether segs := by
  constructor
  · intro h
    rcases oneStretch_or_repeats segs with ⟨lo, hi, hone⟩ | hrepeats
    · intro p q x y hx hy
      rw [hone.starts p x hx, hone.starts q y hy]
    · exact absurd h hrepeats
  · intro h p q x y hx hy hdist
    have hstart := h p q x y hx hy
    have hp := coverOf_bounds hx
    have hq := coverOf_bounds hy
    omega

end ObservableBSD.Base
