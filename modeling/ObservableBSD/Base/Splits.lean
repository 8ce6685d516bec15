import Mathlib.Data.List.Induction

/-!
# Conditions on every element and what stands before it, or behind it
-/

namespace ObservableBSD.Base

variable {α : Type*}

/-- A condition on every element of a list and the part before it, when an element is added. -/
theorem forall_split_concat {P : List α → α → Prop} {l : List α} {x : α} :
    (∀ pre a post, l ++ [x] = pre ++ a :: post → P pre a) ↔
      (∀ pre a post, l = pre ++ a :: post → P pre a) ∧ P l x := by
  constructor
  · intro h
    exact ⟨fun pre a post he => h pre a (post ++ [x]) (by simp [he]), h l x [] rfl⟩
  · rintro ⟨h, hlast⟩ pre a post he
    cases post using List.reverseRecOn with
    | nil =>
        obtain ⟨rfl, hx⟩ := List.append_inj' he rfl
        cases hx
        exact hlast
    | append_singleton post d _ =>
        have he' : l ++ [x] = (pre ++ a :: post) ++ [d] := by simpa using he
        exact h pre a post (List.append_inj' he' rfl).1

/-- A condition on every element of a list and the part behind it, when an element is put in front. -/
theorem forall_split_cons {P : α → List α → Prop} {l : List α} {x : α} :
    (∀ pre a post, x :: l = pre ++ a :: post → P a post) ↔
      P x l ∧ ∀ pre a post, l = pre ++ a :: post → P a post := by
  constructor
  · intro h
    exact ⟨h [] x l rfl, fun pre a post he => h (x :: pre) a post (by rw [he, List.cons_append])⟩
  · rintro ⟨hfirst, h⟩ pre a post he
    cases pre with
    | nil =>
        cases he
        exact hfirst
    | cons b pre =>
        cases he
        exact h pre a post rfl

end ObservableBSD.Base
