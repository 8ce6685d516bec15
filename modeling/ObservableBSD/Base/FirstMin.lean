import Mathlib.Data.List.Basic

/-!
# The first least element

The place of the first element of a list, among those that satisfy a predicate, with the least key. With a constant key
it is the first element that satisfies the predicate.
-/

namespace ObservableBSD.Base

variable {α : Type*}

/-- `a` stands at `i`, no element of `p` has a smaller key, and none in front of it has the same one. -/
structure FirstMin (p : α → Bool) (key : α → Nat) (l : List α) (i : Nat) (a : α) : Prop where
  get : l[i]? = some a
  mem : p a = true
  least : ∀ b ∈ l, p b = true → key a ≤ key b
  first : ∀ j b, j < i → l[j]? = some b → p b = true → key a < key b

variable {p : α → Bool} {key : α → Nat} {l : List α}

theorem FirstMin.unique {i j : Nat} {a b : α} (ha : FirstMin p key l i a) (hb : FirstMin p key l j b) :
    i = j ∧ a = b := by
  have hle : key a ≤ key b := ha.least b (List.mem_of_getElem? hb.get) hb.mem
  have hge : key b ≤ key a := hb.least a (List.mem_of_getElem? ha.get) ha.mem
  have hij : i = j := by
    rcases Nat.lt_trichotomy i j with hlt | heq | hgt
    · exact absurd (hb.first i a hlt ha.get ha.mem) (Nat.not_lt.2 hle)
    · exact heq
    · exact absurd (ha.first j b hgt hb.get hb.mem) (Nat.not_lt.2 hge)
  subst hij
  exact ⟨rfl, Option.some.inj (ha.get.symm.trans hb.get)⟩

theorem FirstMin.cons {i : Nat} {a b : α} (h : FirstMin p key l i a) (hb : p b = true → key a < key b) :
    FirstMin p key (b :: l) (i + 1) a where
  get := h.get
  mem := h.mem
  least := List.forall_mem_cons.2 ⟨fun hp => Nat.le_of_lt (hb hp), h.least⟩
  first j c hj hc hp := by
    cases j with
    | zero =>
        obtain rfl : b = c := Option.some.inj hc
        exact hb hp
    | succ j => exact h.first j c (Nat.lt_of_succ_lt_succ hj) hc hp

theorem exists_firstMin (key : α → Nat) (h : ∃ a ∈ l, p a = true) : ∃ i a, FirstMin p key l i a := by
  induction l with
  | nil => obtain ⟨a, ha, _⟩ := h; cases ha
  | cons b l ih =>
      have hhead (hb : p b = true) (hleast : ∀ c ∈ l, p c = true → key b ≤ key c) : FirstMin p key (b :: l) 0 b :=
        ⟨rfl, hb, List.forall_mem_cons.2 ⟨fun _ => Nat.le_refl _, hleast⟩, fun j _ hj => absurd hj (Nat.not_lt_zero j)⟩
      by_cases hl : ∃ a ∈ l, p a = true
      · obtain ⟨i, a, ha⟩ := ih hl
        by_cases hb : p b = true → key a < key b
        · exact ⟨i + 1, a, ha.cons hb⟩
        · obtain ⟨hb, hle⟩ := Classical.not_imp.1 hb
          exact ⟨0, b, hhead hb fun c hc hp => Nat.le_trans (Nat.not_lt.1 hle) (ha.least c hc hp)⟩
      · obtain ⟨a, ha, hp⟩ := h
        rcases List.mem_cons.1 ha with rfl | ha
        · exact ⟨0, a, hhead hp fun c hc hpc => absurd ⟨c, hc, hpc⟩ hl⟩
        · exact absurd ⟨a, ha, hp⟩ hl

/-- The place stays when a larger key comes behind the list. -/
theorem FirstMin.concat {i : Nat} {a b : α} (h : FirstMin p key l i a) (hb : p b = true → key a ≤ key b) :
    FirstMin p key (l ++ [b]) i a where
  get := by
    rw [List.getElem?_append_left (List.getElem?_eq_some_iff.1 h.get).1]
    exact h.get
  mem := h.mem
  least c hc hp := by
    rcases List.mem_append.1 hc with hc | hc
    · exact h.least c hc hp
    · obtain rfl := List.mem_singleton.1 hc
      exact hb hp
  first j c hj hc hp := by
    have hlt : i < l.length := (List.getElem?_eq_some_iff.1 h.get).1
    rw [List.getElem?_append_left (Nat.lt_trans hj hlt)] at hc
    exact h.first j c hj hc hp

theorem firstMin_concat {b : α} (hb : p b = true) (hleast : ∀ c ∈ l, p c = true → key b < key c) :
    FirstMin p key (l ++ [b]) l.length b where
  get := List.getElem?_concat_length
  mem := hb
  least c hc hp := by
    rcases List.mem_append.1 hc with hc | hc
    · exact Nat.le_of_lt (hleast c hc hp)
    · obtain rfl := List.mem_singleton.1 hc
      exact Nat.le_refl _
  first j c hj hc hp := by
    rw [List.getElem?_append_left hj] at hc
    exact hleast c (List.mem_of_getElem? hc) hp

/-- It is found by any predicate that implies `p` with its key. -/
theorem FirstMin.find?_of {q : α → Bool} {i : Nat} {a : α} (h : FirstMin p key l i a) (ha : q a = true)
    (hq : ∀ b ∈ l, q b = true → p b = true ∧ key b = key a) : l.find? q = some a := by
  obtain ⟨hlt, hget⟩ := List.getElem?_eq_some_iff.1 h.get
  refine List.find?_eq_some_iff_getElem.2 ⟨ha, i, hlt, hget, fun j hj => ?_⟩
  cases hqj : q l[j] with
  | false => rfl
  | true =>
      obtain ⟨hp, hkey⟩ := hq l[j] (List.getElem_mem _) hqj
      exact absurd (h.first j l[j] hj (List.getElem?_eq_getElem _) hp) (by rw [hkey]; exact Nat.lt_irrefl _)

theorem FirstMin.find?_eq {i : Nat} {a : α} {c : Nat} (h : FirstMin p (fun _ => c) l i a) : l.find? p = some a :=
  h.find?_of h.mem fun _ _ hp => ⟨hp, rfl⟩

/-- The least key does not depend on the order. -/
theorem FirstMin.key_eq {l' : List α} (hperm : l'.Perm l) {i j : Nat} {a b : α} (ha : FirstMin p key l i a)
    (hb : FirstMin p key l' j b) : key a = key b :=
  Nat.le_antisymm (ha.least b (hperm.subset (List.mem_of_getElem? hb.get)) hb.mem)
    (hb.least a (hperm.symm.subset (List.mem_of_getElem? ha.get)) ha.mem)

end ObservableBSD.Base
