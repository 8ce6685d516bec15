import Mathlib.Data.List.Induction

/-!
# Binary search

A search for the last element of a list that satisfies a predicate, where no element behind one that does not satisfies
it. It ends, looks at places in the list only, and finds what a scan from left to right finds.
-/

namespace ObservableBSD.Base

variable {α : Type*} {p : α → Bool} {l : List α}

/-! ## The scan -/

/-- The last element that satisfies `p`, with its place, as it is met from left to right. -/
def scanLast (p : α → Bool) (l : List α) : Option (α × Nat) :=
  l.zipIdx.foldl (fun last x => if p x.1 then some x else last) none

theorem scanLast_concat (p : α → Bool) (l : List α) (a : α) :
    scanLast p (l ++ [a]) = if p a then some (a, l.length) else scanLast p l := by
  simp [scanLast, List.zipIdx_append]

theorem scanLast_eq_none (h : ∀ a ∈ l, p a = false) : scanLast p l = none := by
  induction l using List.reverseRecOn with
  | nil => rfl
  | append_singleton l a ih =>
      rw [scanLast_concat, h a (by simp), if_neg Bool.false_ne_true]
      exact ih fun b hb => h b (List.mem_append_left _ hb)

theorem scanLast_eq_some {i : Nat} {a : α} (hi : l[i]? = some a) (ha : p a = true)
    (hlast : ∀ j b, i < j → l[j]? = some b → p b = false) : scanLast p l = some (a, i) := by
  induction l using List.reverseRecOn with
  | nil => cases hi
  | append_singleton l b ih =>
      have hend : (l ++ [b])[l.length]? = some b := by simp
      rw [scanLast_concat]
      rcases Nat.lt_trichotomy i l.length with hlt | rfl | hgt
      · rw [hlast l.length b hlt hend, if_neg Bool.false_ne_true]
        rw [List.getElem?_append_left hlt] at hi
        refine ih hi fun j c hj hc => hlast j c hj ?_
        rw [List.getElem?_append_left (List.getElem?_eq_some_iff.mp hc).1]
        exact hc
      · obtain rfl := Option.some.inj (hend.symm.trans hi)
        rw [if_pos ha]
      · have hlen := (List.getElem?_eq_some_iff.mp hi).1
        rw [List.length_append, List.length_singleton] at hlen
        omega

/-! ## The search -/

/-- The places from `lo` to `hi` are left to look at; `best` is the last one where `p` was seen to hold. -/
structure Search where
  lo : Int
  hi : Int
  best : Int

namespace Search

def start (l : List α) : Search := ⟨0, l.length - 1, -1⟩

def mid (s : Search) : Int := s.lo + (s.hi - s.lo) / 2

/-- The number of places that are left. -/
def width (s : Search) : Nat := (s.hi + 1 - s.lo).toNat

inductive Step (p : α → Bool) (l : List α) : Search → Search → Prop where
  | right {s a} : s.lo ≤ s.hi → l[s.mid.toNat]? = some a → p a = true →
      Step p l s { s with lo := s.mid + 1, best := s.mid }
  | left {s a} : s.lo ≤ s.hi → l[s.mid.toNat]? = some a → p a = false →
      Step p l s { s with hi := s.mid - 1 }

/-- `p` holds in front of `lo` and not behind `hi`. -/
structure Inv (p : α → Bool) (l : List α) (s : Search) : Prop where
  lo_nonneg : 0 ≤ s.lo
  lo_le : s.lo ≤ s.hi + 1
  hi_lt : s.hi < l.length
  best_eq : s.best = s.lo - 1
  front : ∀ (i : Nat) a, i < s.lo → l[i]? = some a → p a = true
  behind : ∀ (i : Nat) a, s.hi < i → l[i]? = some a → p a = false

variable {s s' : Search}

theorem mid_bounds (h : s.lo ≤ s.hi) : s.lo ≤ s.mid ∧ s.mid ≤ s.hi := by
  unfold mid
  omega

theorem Inv.start (p : α → Bool) (l : List α) : Inv p l (start l) where
  lo_nonneg := Int.le_refl 0
  lo_le := by simp [Search.start]
  hi_lt := by simp only [Search.start]; omega
  best_eq := rfl
  front i a hi _ := by
    simp only [Search.start] at hi
    omega
  behind i a hi ha := by
    have hlt := (List.getElem?_eq_some_iff.mp ha).1
    simp only [Search.start] at hi
    omega

theorem Inv.mid_lt (h : Inv p l s) (hle : s.lo ≤ s.hi) : 0 ≤ s.mid ∧ s.mid < l.length := by
  have hmid := mid_bounds hle
  have hnonneg := h.lo_nonneg
  have hlt := h.hi_lt
  omega

theorem Inv.best_bounds (h : Inv p l s) : -1 ≤ s.best ∧ s.best < l.length := by
  have hnonneg := h.lo_nonneg
  have hlo := h.lo_le
  have hlt := h.hi_lt
  have hbest := h.best_eq
  omega

theorem Inv.step (hordered : l.Pairwise fun a b => p b = true → p a = true) (h : Inv p l s)
    (hstep : Step p l s s') : Inv p l s' := by
  have hnonneg := h.lo_nonneg
  have hlt := h.hi_lt
  -- one list element against another one behind it
  have hdown : ∀ {i j : Nat} {a b : α}, i < j → l[i]? = some a → l[j]? = some b → p b = true → p a = true := by
    intro i j a b hij ha hb
    obtain ⟨hi, rfl⟩ := List.getElem?_eq_some_iff.mp ha
    obtain ⟨hj, rfl⟩ := List.getElem?_eq_some_iff.mp hb
    exact List.pairwise_iff_getElem.mp hordered i j hi hj hij
  cases hstep with
  | @right a hle hmid ha =>
      have hbounds := mid_bounds hle
      refine ⟨by simp only; omega, by simp only; omega, h.hi_lt, by simp only; omega, fun i b hi hb => ?_, h.behind⟩
      simp only at hi
      rcases Nat.lt_or_ge i s.mid.toNat with hfront | hback
      · exact hdown hfront hb hmid ha
      · obtain rfl : i = s.mid.toNat := by omega
        obtain rfl := Option.some.inj (hmid.symm.trans hb)
        exact ha
  | @left a hle hmid ha =>
      have hbounds := mid_bounds hle
      refine ⟨h.lo_nonneg, by simp only; omega, by simp only; omega, h.best_eq, h.front, fun i b hi hb => ?_⟩
      simp only at hi
      rcases Nat.lt_or_ge s.mid.toNat i with hback | hfront
      · exact Bool.eq_false_iff.mpr fun hpb => by rw [hdown hback hmid hb hpb] at ha; cases ha
      · obtain rfl : i = s.mid.toNat := by omega
        obtain rfl := Option.some.inj (hmid.symm.trans hb)
        exact ha

theorem Step.width_lt (h : Step p l s s') : s'.width < s.width := by
  cases h with
  | right hle =>
      have hbounds := mid_bounds hle
      simp only [width]
      omega
  | left hle =>
      have hbounds := mid_bounds hle
      simp only [width]
      omega

/-- When nothing is left, the search has found what the scan finds. -/
theorem Inv.scanLast (h : Inv p l s) (hend : s.hi < s.lo) :
    s.best = -1 ∧ scanLast p l = none ∨
      ∃ (i : Nat) (a : α), s.best = i ∧ l[i]? = some a ∧ Base.scanLast p l = some (a, i) := by
  have hnonneg := h.lo_nonneg
  have hbest := h.best_eq
  have hlo := h.lo_le
  have hlt := h.hi_lt
  by_cases hneg : s.best < 0
  · refine Or.inl ⟨by omega, scanLast_eq_none fun a ha => ?_⟩
    obtain ⟨i, hi⟩ := List.mem_iff_getElem?.mp ha
    exact h.behind i a (by omega) hi
  · obtain ⟨i, hi⟩ := Int.eq_ofNat_of_zero_le (Int.not_lt.mp hneg)
    have hin : i < l.length := by omega
    have hget : l[i]? = some l[i] := List.getElem?_eq_getElem hin
    refine Or.inr ⟨i, l[i], hi, hget, scanLast_eq_some hget (h.front i _ (by omega) hget) ?_⟩
    intro j b hj hb
    exact h.behind j b (by omega) hb

end Search

end ObservableBSD.Base
