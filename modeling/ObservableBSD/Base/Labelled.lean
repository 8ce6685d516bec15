import Mathlib.Data.List.Basic

/-!
# Where the entries of a table come from

A table grows at its end while a list is gone through. Each entry is labelled with the element of the list whose
step has appended it.
-/

namespace ObservableBSD.Base

variable {α β : Type*} {f : List α → β → List α}

/-- Each step only appends to the table. -/
def Grows (f : List α → β → List α) : Prop := ∀ table b, table <+: f table b

/-- A step on a table with labels. -/
def labelStep (f : List α → β → List α) (table : List (α × β)) (b : β) : List (α × β) :=
  table ++ ((f (table.map (·.1)) b).drop table.length).map fun a => (a, b)

def labelled (f : List α → β → List α) (bs : List β) : List (α × β) := bs.foldl (labelStep f) []

theorem labelStep_map_fst (h : Grows f) (table : List (α × β)) (b : β) :
    (labelStep f table b).map (·.1) = f (table.map (·.1)) b := by
  obtain ⟨added, hadded⟩ := h (table.map (·.1)) b
  have hlen : table.length = (table.map (·.1)).length := by rw [List.length_map]
  rw [labelStep, ← hadded, hlen, List.drop_left, List.map_append, List.map_map]
  simp [Function.comp_def]

theorem foldl_labelStep_map_fst (h : Grows f) (bs : List β) (table : List (α × β)) :
    (bs.foldl (labelStep f) table).map (·.1) = bs.foldl f (table.map (·.1)) := by
  induction bs generalizing table with
  | nil => rfl
  | cons b bs ih => rw [List.foldl_cons, List.foldl_cons, ih, labelStep_map_fst h]

/-- Without the labels it is the same table. -/
theorem labelled_map_fst (h : Grows f) (bs : List β) : (labelled f bs).map (·.1) = bs.foldl f [] :=
  foldl_labelStep_map_fst h bs []

/-- What holds of each appended entry holds throughout. -/
theorem labelled_forall {P : α → β → Prop} (h : ∀ table b, ∀ a ∈ (f table b).drop table.length, P a b)
    (bs : List β) : ∀ x ∈ labelled f bs, P x.1 x.2 := by
  suffices hall : ∀ table : List (α × β), (∀ x ∈ table, P x.1 x.2) → ∀ x ∈ bs.foldl (labelStep f) table, P x.1 x.2 from
    hall [] (by simp)
  induction bs with
  | nil => exact fun table htable => htable
  | cons b bs ih =>
      refine fun table htable => ih _ fun x hx => ?_
      rcases List.mem_append.mp hx with hx | hx
      · exact htable x hx
      · obtain ⟨a, ha, rfl⟩ := List.mem_map.mp hx
        rw [← List.length_map (·.1)] at ha
        exact h _ b a ha

def labelOf [DecidableEq α] (f : List α → β → List α) (bs : List β) (a : α) : Option β :=
  ((labelled f bs).find? fun x => x.1 = a).map (·.2)

theorem labelOf_of_mem [DecidableEq α] (h : Grows f) {bs : List β} {a : α} (ha : a ∈ bs.foldl f []) :
    ∃ b, labelOf f bs a = some b ∧ (a, b) ∈ labelled f bs := by
  rw [← labelled_map_fst h] at ha
  obtain ⟨x, hx, rfl⟩ := List.mem_map.mp ha
  cases hfind : (labelled f bs).find? fun y => y.1 = x.1 with
  | none => exact absurd (List.find?_eq_none.mp hfind x hx) (by simp)
  | some y =>
      have hy : y.1 = x.1 := by simpa using List.find?_some hfind
      exact ⟨y.2, by rw [labelOf, hfind, Option.map_some], hy ▸ List.mem_of_find?_eq_some hfind⟩

end ObservableBSD.Base
