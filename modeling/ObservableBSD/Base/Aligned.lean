import Mathlib.Data.List.ReduceOption

/-!
# Lists read side by side

Two lists with gaps stand for columns of one table. When the gaps of each are left out, what was side by side may be
so no more.
-/

namespace ObservableBSD.Base

variable {α β : Type*} {a : α} {xs : List (Option α)} {ys : List (Option β)} {j p : Nat}

/-- The places that are no gaps. -/
def filled : List (Option α) → List Nat
  | [] => []
  | none :: xs => (filled xs).map (· + 1)
  | some _ :: xs => 0 :: (filled xs).map (· + 1)

theorem filled_none : filled (none :: xs) = (filled xs).map (· + 1) := rfl

theorem filled_some : filled (some a :: xs) = 0 :: (filled xs).map (· + 1) := rfl

theorem length_filled (xs : List (Option α)) : (filled xs).length = xs.reduceOption.length := by
  induction xs with
  | nil => rfl
  | cons x xs ih =>
      cases x with
      | none => rw [filled_none, List.reduceOption_cons_of_none, List.length_map, ih]
      | some a => rw [filled_some, List.reduceOption_cons_of_some, List.length_cons, List.length_cons,
          List.length_map, ih]

def Has (xs : List (Option α)) (i : Nat) : Prop := ∃ a, xs[i]? = some (some a)

@[simp] theorem not_has_nil (i : Nat) : ¬ Has ([] : List (Option α)) i := by
  rintro ⟨_, h⟩
  cases h

@[simp] theorem not_has_none_zero : ¬ Has (none :: xs) 0 := by
  rintro ⟨_, h⟩
  cases h

@[simp] theorem has_some_zero : Has (some a :: xs) 0 := ⟨a, rfl⟩

@[simp] theorem has_succ {x : Option α} {i : Nat} : Has (x :: xs) (i + 1) ↔ Has xs i := Iff.rfl

/-- The places are those that the entries come from, in order. -/
theorem getElem?_of_filled (h : (filled xs)[j]? = some p) :
    ∃ a, xs[p]? = some (some a) ∧ xs.reduceOption[j]? = some a := by
  induction xs generalizing j p with
  | nil => cases h
  | cons x xs ih =>
      cases x with
      | none =>
          rw [filled_none, List.getElem?_map] at h
          obtain ⟨q, hq, rfl⟩ := Option.map_eq_some_iff.mp h
          rw [List.reduceOption_cons_of_none]
          exact ih hq
      | some a =>
          rw [filled_some] at h
          rw [List.reduceOption_cons_of_some]
          cases j with
          | zero =>
              cases h
              exact ⟨a, rfl, rfl⟩
          | succ j =>
              rw [List.getElem?_cons_succ, List.getElem?_map] at h
              obtain ⟨q, hq, rfl⟩ := Option.map_eq_some_iff.mp h
              exact ih hq

theorem filled_eq_nil_iff : filled xs = [] ↔ ∀ i, ¬ Has xs i := by
  induction xs with
  | nil => simp [filled]
  | cons x xs ih =>
      cases x with
      | none =>
          rw [filled_none, List.map_eq_nil_iff, ih]
          refine ⟨fun h i => ?_, fun h i => h (i + 1)⟩
          cases i with
          | zero => simp
          | succ i => exact h i
      | some a => exact iff_of_false (List.cons_ne_nil _ _) fun h => h 0 has_some_zero

/-- Entries that come to stand side by side were so in the table. -/
def Aligned (xs : List (Option α)) (ys : List (Option β)) : Prop :=
  ∀ j p q : Nat, (filled xs)[j]? = some p → (filled ys)[j]? = some q → p = q

/-- No entry of the first list stands beside a gap of the other with an entry further on. -/
def Covers (xs : List (Option α)) (ys : List (Option β)) : Prop :=
  ∀ i k : Nat, Has xs i → ¬ Has ys i → i < k → ¬ Has ys k

theorem Aligned.symm (h : Aligned xs ys) : Aligned ys xs := fun j p q hp hq => (h j q p hq hp).symm

theorem aligned_comm : Aligned xs ys ↔ Aligned ys xs := ⟨Aligned.symm, Aligned.symm⟩

theorem getElem?_map_succ {ps : List Nat} : (ps.map (· + 1))[j]? = some p ↔ ∃ q, ps[j]? = some q ∧ q + 1 = p := by
  rw [List.getElem?_map]
  exact Option.map_eq_some_iff

theorem aligned_none_none : Aligned (none :: xs) (none :: ys) ↔ Aligned xs ys := by
  constructor
  · intro h j p q hp hq
    exact Nat.succ.inj (h j (p + 1) (q + 1) (getElem?_map_succ.mpr ⟨p, hp, rfl⟩) (getElem?_map_succ.mpr ⟨q, hq, rfl⟩))
  · intro h j p q hp hq
    obtain ⟨p', hp', rfl⟩ := getElem?_map_succ.mp hp
    obtain ⟨q', hq', rfl⟩ := getElem?_map_succ.mp hq
    rw [h j p' q' hp' hq']

theorem aligned_some_some {b : β} : Aligned (some a :: xs) (some b :: ys) ↔ Aligned xs ys := by
  refine Iff.trans ?_ aligned_none_none
  constructor
  · exact fun h j p q hp hq => h (j + 1) p q hp hq
  · intro h j p q hp hq
    cases j with
    | zero =>
        cases hp
        cases hq
        rfl
    | succ j => exact h j p q hp hq

/-- The entry at the front comes to stand beside the first of the other list, which is further on. -/
theorem aligned_some_none : Aligned (some a :: xs) (none :: ys) ↔ ∀ i, ¬ Has ys i := by
  rw [← filled_eq_nil_iff]
  constructor
  · intro h
    cases hys : filled ys with
    | nil => rfl
    | cons q qs =>
        have hzero := h 0 0 (q + 1) rfl (by rw [filled_none, hys]; rfl)
        cases hzero
  · intro h j p q _ hq
    rw [filled_none, h] at hq
    cases hq

theorem covers_cons {x : Option α} {y : Option β} : Covers (x :: xs) (y :: ys) ↔
    (Has (x :: xs) 0 → ¬ Has (y :: ys) 0 → ∀ k, ¬ Has ys k) ∧ Covers xs ys := by
  constructor
  · intro h
    exact ⟨fun hx hy k => h 0 (k + 1) hx hy k.succ_pos,
      fun i k hx hy hlt => h (i + 1) (k + 1) hx hy (Nat.succ_lt_succ hlt)⟩
  · rintro ⟨hzero, hrest⟩ i k hx hy hlt
    cases k with
    | zero => cases hlt
    | succ k =>
        cases i with
        | zero => exact hzero hx hy k
        | succ i => exact hrest i k hx hy (Nat.lt_of_succ_lt_succ hlt)

/-- Nothing is beside a gap of an empty list, and nothing is behind one. -/
theorem covers_of_not_has (h : ∀ i, ¬ Has ys i) : Covers xs ys ∧ Covers ys xs :=
  ⟨fun _ k _ _ _ => h k, fun i _ hy => absurd hy (h i)⟩

/-- Leaving out the gaps moves nothing exactly when no entry of either list stands beside a gap with an entry further
on. -/
theorem aligned_iff (xs : List (Option α)) (ys : List (Option β)) : Aligned xs ys ↔ Covers xs ys ∧ Covers ys xs := by
  induction xs generalizing ys with
  | nil => exact iff_of_true (fun _ _ _ h => by cases h) (covers_of_not_has not_has_nil).symm
  | cons x xs ih =>
      cases ys with
      | nil => exact iff_of_true (fun _ _ _ _ h => by cases h) (covers_of_not_has not_has_nil)
      | cons y ys =>
          rw [covers_cons, covers_cons]
          cases x with
          | none =>
              cases y with
              | none => simp [aligned_none_none, ih]
              | some b =>
                  rw [aligned_comm, aligned_some_none]
                  refine ⟨fun h => ?_, fun h => h.2.1 has_some_zero not_has_none_zero⟩
                  obtain ⟨hys, hxs⟩ := @covers_of_not_has _ _ ys xs h
                  exact ⟨⟨fun hx => absurd hx not_has_none_zero, hxs⟩, fun _ _ => h, hys⟩
          | some a =>
              cases y with
              | none =>
                  rw [aligned_some_none]
                  refine ⟨fun h => ?_, fun h => h.1.1 has_some_zero not_has_none_zero⟩
                  obtain ⟨hxs, hys⟩ := @covers_of_not_has _ _ xs ys h
                  exact ⟨⟨fun _ _ => h, hxs⟩, fun hy => absurd hy not_has_none_zero, hys⟩
              | some b => simp [aligned_some_some, ih]

end ObservableBSD.Base
