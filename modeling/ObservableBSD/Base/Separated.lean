import Mathlib.Data.List.Basic

/-!
# Pieces of a sequence

`split(separator:maxSplits:)` of a collection, which leaves empty pieces out and does not count them.
-/

namespace ObservableBSD.Base

variable {α : Type*} [DecidableEq α]

/-- The loop over the elements. `piece` are those since the last separator, `count` the pieces so far. -/
def splitLoop (separator : α) (maxSplits : Option Nat) : Nat → List α → List α → List (List α)
  | _, piece, [] => if piece = [] then [] else [piece]
  | count, piece, c :: s =>
      if c ≠ separator then splitLoop separator maxSplits count (piece ++ [c]) s
      else if piece = [] then splitLoop separator maxSplits count [] s
      else if maxSplits = some (count + 1) then piece :: if s = [] then [] else [s]
      else piece :: splitLoop separator maxSplits (count + 1) [] s

/-- The pieces between separators, with all that is left in the last of `maxSplits + 1`. -/
def split (separator : α) (maxSplits : Option Nat) (s : List α) : List (List α) :=
  if maxSplits = some 0 then if s = [] then [] else [s] else splitLoop separator maxSplits 0 [] s

variable {separator : α}

theorem splitLoop_none (count : Nat) (piece s : List α) : splitLoop separator none count piece s =
    ((s.splitOn separator).modifyHead (piece ++ ·)).filter (· ≠ []) := by
  induction s generalizing count piece with
  | nil => by_cases h : piece = [] <;> simp [splitLoop, h]
  | cons c s ih =>
      rw [splitLoop, List.splitOn_cons_eq_if_modifyHead]
      by_cases hc : c = separator
      · subst hc
        have hrest := ih (count + 1) []
        have hhere := ih count []
        have hid : (s.splitOn c).modifyHead ([] ++ ·) = s.splitOn c := by
          cases s.splitOn c <;> rfl
        rw [hid] at hrest hhere
        by_cases h : piece = [] <;> simp [h, hrest, hhere]
      · have hpiece : ((s.splitOn separator).modifyHead (c :: ·)).modifyHead (piece ++ ·) =
            (s.splitOn separator).modifyHead (piece ++ [c] ++ ·) := by
          rw [List.modifyHead_modifyHead]
          congr 1
          funext t
          simp
        simp only [ne_eq, hc, not_false_eq_true, if_true, ih, hpiece, beq_iff_eq, if_false]

/-- Without a bound these are all pieces that have an element. -/
theorem split_none (s : List α) : split separator none s = (s.splitOn separator).filter (· ≠ []) := by
  have hid : (s.splitOn separator).modifyHead ([] ++ ·) = s.splitOn separator := by
    cases s.splitOn separator <;> rfl
  rw [split, if_neg (by simp), splitLoop_none, hid]

theorem map_splitOn {β : Type*} [DecidableEq β] (f : α → β) {s : List α}
    (h : ∀ x ∈ s, f x = f separator → x = separator) :
    (s.splitOn separator).map (List.map f) = (s.map f).splitOn (f separator) := by
  induction s with
  | nil => simp
  | cons c s ih =>
      obtain ⟨hc, hrest⟩ := List.forall_mem_cons.1 h
      rw [List.map_cons, List.splitOn_cons_eq_if_modifyHead, List.splitOn_cons_eq_if_modifyHead, ← ih hrest]
      by_cases heq : c = separator
      · simp [heq]
      · have hne : f c ≠ f separator := fun hf => heq (hc hf)
        simp only [beq_iff_eq, heq, hne, if_false]
        cases s.splitOn separator <;> rfl

/-- Elements may be replaced before or after splitting, if no other becomes a separator. -/
theorem map_split {β : Type*} [DecidableEq β] (f : α → β) {s : List α}
    (h : ∀ x ∈ s, f x = f separator → x = separator) :
    (split separator none s).map (List.map f) = split (f separator) none (s.map f) := by
  rw [split_none, split_none, ← map_splitOn f h, List.filter_map]
  congr 2
  funext piece
  simp

/-! ## Lines -/

/-- The pieces that end in a separator. -/
def linesOf (separator : α) (s : List α) : List (List α) := (s.splitOn separator).dropLast

theorem splitOn_append_cons {line : List α} (h : separator ∉ line) (rest : List α) :
    (line ++ separator :: rest).splitOn separator = line :: rest.splitOn separator := by
  induction line with
  | nil => simp [List.splitOn_cons_eq_if_modifyHead]
  | cons c line ih =>
      obtain ⟨hc, hline⟩ : separator ≠ c ∧ separator ∉ line := by simpa using h
      rw [List.cons_append, List.splitOn_cons_eq_if_modifyHead, ih hline]
      simp [Ne.symm hc]

theorem linesOf_flatMap {lines : List (List α)} (h : ∀ line ∈ lines, separator ∉ line) :
    linesOf separator (lines.flatMap (· ++ [separator])) = lines := by
  induction lines with
  | nil => simp [linesOf]
  | cons line lines ih =>
      have hrest := ih fun l hl => h l (List.mem_cons_of_mem _ hl)
      unfold linesOf at hrest ⊢
      rw [List.flatMap_cons, List.append_assoc, List.singleton_append, splitOn_append_cons (h line List.mem_cons_self),
        List.dropLast_cons_of_ne_nil (List.splitOn_ne_nil _ _), hrest]

end ObservableBSD.Base
