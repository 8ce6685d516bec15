import Mathlib.Data.List.Basic

/-!
# Find or add

A list with at most one entry for each key, in which an operation updates the first entry with a key
and appends a fresh one when there is none.
-/

namespace ObservableBSD.Base

variable {α κ : Type*} [DecidableEq κ] (key : α → κ)

def lookupKey (k : κ) (l : List α) : Option α := l.find? fun a => key a = k

/-- Apply `f` to the first entry with key `k`, or append `f new` when there is none. -/
def upsert (k : κ) (new : α) (f : α → α) : List α → List α
  | [] => [f new]
  | a :: l => if key a = k then f a :: l else a :: upsert k new f l

variable {key}

theorem lookupKey_cons (k : κ) (a : α) (l : List α) :
    lookupKey key k (a :: l) = if key a = k then some a else lookupKey key k l := by
  by_cases h : key a = k <;> simp [lookupKey, h]

theorem lookupKey_upsert_self {k : κ} {new : α} {f : α → α} (hnew : key new = k)
    (hf : ∀ a, key (f a) = key a) (l : List α) :
    lookupKey key k (upsert key k new f l) = some (f ((lookupKey key k l).getD new)) := by
  induction l with
  | nil => simp [upsert, lookupKey, hf, hnew]
  | cons a l ih =>
      by_cases h : key a = k
      · simp [upsert, lookupKey_cons, h, hf]
      · simp [upsert, lookupKey_cons, h, ih]

theorem lookupKey_upsert_ne {k k' : κ} {new : α} {f : α → α} (hne : k' ≠ k) (hnew : key new = k)
    (hf : ∀ a, key (f a) = key a) (l : List α) :
    lookupKey key k' (upsert key k new f l) = lookupKey key k' l := by
  induction l with
  | nil => simp [upsert, lookupKey, hf, hnew, Ne.symm hne]
  | cons a l ih =>
      by_cases h : key a = k
      · simp [upsert, lookupKey_cons, h, hf, Ne.symm hne]
      · simp [upsert, lookupKey_cons, h, ih]

theorem lookupKey_upsert {k : κ} {new : α} {f : α → α} (hnew : key new = k)
    (hf : ∀ a, key (f a) = key a) (l : List α) (k' : κ) :
    lookupKey key k' (upsert key k new f l) =
      if k' = k then some (f ((lookupKey key k l).getD new)) else lookupKey key k' l := by
  split
  · subst k'; exact lookupKey_upsert_self hnew hf l
  · exact lookupKey_upsert_ne ‹_› hnew hf l

theorem length_upsert (k : κ) (new : α) (f : α → α) (l : List α) :
    (upsert key k new f l).length = l.length + if (lookupKey key k l).isSome then 0 else 1 := by
  induction l with
  | nil => rfl
  | cons a l ih =>
      by_cases h : key a = k
      · simp [upsert, lookupKey_cons, h]
      · simp only [upsert, lookupKey_cons, if_neg h, List.length_cons, ih]
        omega

theorem forall_upsert {k : κ} {new : α} {f : α → α} {P : α → Prop} {l : List α} (hnew : P new)
    (hf : ∀ a, P a → P (f a)) (h : ∀ a ∈ l, P a) : ∀ a ∈ upsert key k new f l, P a := by
  induction l with
  | nil => exact List.forall_mem_singleton.2 (hf new hnew)
  | cons b l ih =>
      obtain ⟨hb, hl⟩ := List.forall_mem_cons.1 h
      rw [upsert]
      split
      · exact List.forall_mem_cons.2 ⟨hf b hb, hl⟩
      · exact List.forall_mem_cons.2 ⟨hb, ih hl⟩

/-- The keys stay, and `k` is among them. -/
theorem map_key_upsert {k : κ} {new : α} {f : α → α} (hnew : key new = k) (hf : ∀ a, key (f a) = key a)
    (l : List α) : (upsert key k new f l).map key = if k ∈ l.map key then l.map key else l.map key ++ [k] := by
  induction l with
  | nil => simp [upsert, hf, hnew]
  | cons a l ih =>
      rw [upsert]
      by_cases h : key a = k
      · simp [h, hf]
      · rw [if_neg h, List.map_cons, ih, List.map_cons]
        have hne : k ≠ key a := Ne.symm h
        by_cases hk : k ∈ l.map key <;> simp [hk, hne]

theorem nodup_upsert {k : κ} {new : α} {f : α → α} (hnew : key new = k) (hf : ∀ a, key (f a) = key a)
    {l : List α} (h : (l.map key).Nodup) : ((upsert key k new f l).map key).Nodup := by
  rw [map_key_upsert hnew hf]
  split
  · exact h
  · rename_i hk
    rw [List.nodup_append]
    refine ⟨h, by simp, fun a ha b hb hab => ?_⟩
    rw [List.mem_singleton.1 hb] at hab
    exact hk (hab ▸ ha)

theorem lookupKey_of_mem {l : List α} (h : (l.map key).Nodup) {a : α} (ha : a ∈ l) :
    lookupKey key (key a) l = some a := by
  induction l with
  | nil => cases ha
  | cons b l ih =>
      rw [List.map_cons, List.nodup_cons] at h
      rw [lookupKey_cons]
      rcases List.mem_cons.1 ha with rfl | ha
      · exact if_pos rfl
      · have hne : ¬ key b = key a := fun heq => h.1 (List.mem_map.2 ⟨a, ha, heq.symm⟩)
        rw [if_neg hne]
        exact ih h.2 ha

theorem mem_of_lookupKey {k : κ} {a : α} {l : List α} (h : lookupKey key k l = some a) : a ∈ l ∧ key a = k :=
  ⟨List.mem_of_find?_eq_some h, by simpa using List.find?_some h⟩

/-- The entry of `k` is the updated one, and the others were there. -/
theorem mem_upsert {k : κ} {new : α} {f : α → α} (hnew : key new = k) (hf : ∀ a, key (f a) = key a) {l : List α}
    (h : (l.map key).Nodup) {a : α} (ha : a ∈ upsert key k new f l) :
    (key a = k ∧ a = f ((lookupKey key k l).getD new)) ∨ (key a ≠ k ∧ a ∈ l) := by
  have hfound := lookupKey_of_mem (nodup_upsert (k := k) hnew hf h) ha
  rw [lookupKey_upsert hnew hf] at hfound
  split at hfound
  · rename_i hkey
    exact .inl ⟨hkey, (Option.some.inj hfound).symm⟩
  · rename_i hkey
    exact .inr ⟨hkey, (mem_of_lookupKey hfound).1⟩

theorem forall_mem_upsert {P : α → Prop} {k : κ} {new : α} {f : α → α} (hnew : P (f new)) (hf : ∀ a, P a → P (f a))
    {l : List α} (h : ∀ a ∈ l, P a) : ∀ a ∈ upsert key k new f l, P a := by
  induction l with
  | nil => simpa [upsert] using hnew
  | cons a l ih =>
      obtain ⟨ha, hl⟩ := List.forall_mem_cons.mp h
      rw [upsert]
      split
      · exact List.forall_mem_cons.mpr ⟨hf a ha, hl⟩
      · exact List.forall_mem_cons.mpr ⟨ha, ih hl⟩

/-- A quantity that `f` changes by `c` at any entry, and that a fresh entry does not count for. -/
theorem foldr_upsert {β : Type*} {k : κ} {new : α} {f : α → α} {g : α → β → β} {c : β → β}
    (hnew : ∀ b, g new b = b) (hf : ∀ a b, g (f a) b = c (g a b)) (hc : ∀ a b, g a (c b) = c (g a b))
    (l : List α) (b : β) : (upsert key k new f l).foldr g b = c (l.foldr g b) := by
  induction l with
  | nil => rw [upsert, List.foldr_cons, List.foldr_nil, hf, hnew]
  | cons a l ih =>
      rw [upsert]
      split
      · exact hf a _
      · rw [List.foldr_cons, ih, hc]
        rfl

end ObservableBSD.Base
