import Mathlib.Algebra.GroupWithZero.Nat
import Mathlib.Data.List.Induction
import Mathlib.Data.List.Nodup
import ObservableBSD.Base.Upsert

/-!
# Tallies

A dictionary that counts the elements of a list. Up to the order of its entries it depends only on how often each
element stands in the list.
-/

namespace ObservableBSD.Base

variable {α : Type*} [DecidableEq α]

def bump (entries : List (α × Nat)) (a : α) : List (α × Nat) :=
  upsert Prod.fst a (a, 0) (fun e => (e.1, e.2 + 1)) entries

def tally (l : List α) : List (α × Nat) := l.foldl bump []

/-- The count in the dictionary; there is none for an element that it does not have. -/
def countIn (entries : List (α × Nat)) (a : α) : Nat := ((lookupKey Prod.fst a entries).map (·.2)).getD 0

variable {l l' : List α} {a : α} {n : Nat}

theorem tally_concat (l : List α) (a : α) : tally (l ++ [a]) = bump (tally l) a := List.foldl_concat ..

theorem countIn_bump (entries : List (α × Nat)) (a b : α) :
    countIn (bump entries a) b = countIn entries b + if b = a then 1 else 0 := by
  have hlookup : lookupKey Prod.fst b (bump entries a) = if b = a then _ else lookupKey Prod.fst b entries :=
    lookupKey_upsert (by rfl) (by intro; rfl) entries b
  unfold countIn
  rw [hlookup]
  split
  · rename_i hb
    subst hb
    cases lookupKey Prod.fst b entries <;> simp
  · rfl

theorem countIn_tally (l : List α) (a : α) : countIn (tally l) a = l.count a := by
  induction l using List.reverseRecOn with
  | nil => rfl
  | append_singleton l b ih =>
      rw [tally_concat, countIn_bump, ih, List.count_append, List.count_singleton]
      simp only [beq_iff_eq, eq_comm (a := b)]

theorem map_fst_bump (entries : List (α × Nat)) (a : α) : (bump entries a).map Prod.fst =
    if a ∈ entries.map Prod.fst then entries.map Prod.fst else entries.map Prod.fst ++ [a] :=
  map_key_upsert (by rfl) (by intro; rfl) entries

theorem mem_map_fst_tally : a ∈ (tally l).map Prod.fst ↔ a ∈ l := by
  induction l using List.reverseRecOn with
  | nil => rfl
  | append_singleton l b ih =>
      rw [tally_concat, map_fst_bump, List.mem_append, List.mem_singleton]
      split
      · rename_i hb
        rw [ih]
        refine ⟨.inl, fun h => h.elim id ?_⟩
        rintro rfl
        exact ih.1 hb
      · rw [List.mem_append, List.mem_singleton, ih]

theorem nodup_map_fst_tally (l : List α) : ((tally l).map Prod.fst).Nodup := by
  induction l using List.reverseRecOn with
  | nil => exact List.nodup_nil
  | append_singleton l b ih =>
      rw [tally_concat]
      exact nodup_upsert (by rfl) (by intro; rfl) ih

theorem mem_tally : (a, n) ∈ tally l ↔ a ∈ l ∧ n = l.count a := by
  have hcount {n : Nat} (h : (a, n) ∈ tally l) : n = l.count a := by
    have hlookup : lookupKey Prod.fst a (tally l) = some (a, n) := lookupKey_of_mem (nodup_map_fst_tally l) h
    rw [← countIn_tally, countIn, hlookup]
    rfl
  constructor
  · intro h
    exact ⟨mem_map_fst_tally.1 (List.mem_map_of_mem h), hcount h⟩
  · rintro ⟨ha, rfl⟩
    obtain ⟨⟨b, m⟩, hmem, rfl⟩ := List.mem_map.1 (mem_map_fst_tally.2 ha)
    exact hcount hmem ▸ hmem

theorem mem_tally_iff_countP : (a, n) ∈ tally l ↔ a ∈ l ∧ n = l.countP fun b => b = a := mem_tally

theorem tally_perm (h : l.Perm l') : (tally l).Perm (tally l') := by
  have hnodup (l : List α) : (tally l).Nodup := List.Nodup.of_map _ (nodup_map_fst_tally l)
  refine (List.perm_ext_iff_of_nodup (hnodup l) (hnodup l')).2 fun ⟨a, n⟩ => ?_
  rw [mem_tally, mem_tally, h.mem_iff, h.count_eq]

theorem sum_tally (l : List α) : ((tally l).map Prod.snd).sum = l.length := by
  have hsum (entries : List (α × Nat)) (a : α) :
      ((bump entries a).map Prod.snd).sum = (entries.map Prod.snd).sum + 1 := by
    induction entries with
    | nil => rfl
    | cons e entries ih =>
        rw [bump, upsert]
        split
        · simp only [List.map_cons, List.sum_cons]
          omega
        · rw [List.map_cons, List.sum_cons, List.map_cons, List.sum_cons, Nat.add_assoc]
          exact congrArg _ ih
  induction l using List.reverseRecOn with
  | nil => rfl
  | append_singleton l b ih => rw [tally_concat, hsum, ih, List.length_append, List.length_singleton]

end ObservableBSD.Base
