import Mathlib.Algebra.BigOperators.Group.Finset.Basic
import Mathlib.Algebra.GroupWithZero.Nat
import Mathlib.Algebra.Order.BigOperators.Group.Finset
import ObservableBSD.Base.RoseTree

/-!
# Weights on a tree

A weight at every pointer, such that the weight of a node covers its own value and the weights of its children
together. The values of nodes that do not stand below each other then add up to the weight of the root at most.
-/

namespace ObservableBSD.Base.RoseTree

variable {α : Type*}

mutual
/-- The most nodes with a value in `P` on one way down from the root. -/
def nesting (P : α → Bool) : RoseTree α → Nat
  | .node a cs => (P a).toNat + nestingList P cs

def nestingList (P : α → Bool) : List (RoseTree α) → Nat
  | [] => 0
  | c :: cs => max (nesting P c) (nestingList P cs)
end

/-- The weight of a node covers `g` of its value, and the weights of its children together. -/
structure Weighs (g : α → Nat) (t : RoseTree α) (W : NodePtr → Nat) : Prop where
  value : ∀ p a, t.valueAt? p = some a → g a ≤ W p
  children : ∀ p (S : Finset Nat), ∑ i ∈ S, W (p ++ [i]) ≤ W p

variable {g : α → Nat} {t : RoseTree α} {W : NodePtr → Nat}

theorem Weighs.child_le (h : Weighs g t W) (p : NodePtr) (i : Nat) : W (p ++ [i]) ≤ W p := by
  have hsum := h.children p {i}
  rwa [Finset.sum_singleton] at hsum

theorem Weighs.le_root (h : Weighs g t W) (p : NodePtr) : W p ≤ W [] := by
  induction p using List.reverseRecOn with
  | nil => exact Nat.le_refl _
  | append_singleton p i ih => exact Nat.le_trans (h.child_le p i) ih

theorem Weighs.below (h : Weighs g t W) {p : NodePtr} {n : RoseTree α} (hn : t.get? p = some n) :
    Weighs g n fun q => W (p ++ q) where
  value q a hq := h.value (p ++ q) a (by rw [valueAt?_append_of hn, hq])
  children q S := by
    simp only [← List.append_assoc]
    exact h.children (p ++ q) S

theorem sum_map_le_sum_range (cs : List (RoseTree α)) (f : RoseTree α → Nat) (V : Nat → Nat)
    (h : ∀ i c, cs[i]? = some c → f c ≤ V i) : (cs.map f).sum ≤ ∑ i ∈ Finset.range cs.length, V i := by
  induction cs generalizing V with
  | nil => exact Nat.le_refl 0
  | cons c cs ih =>
      have hrest := ih (fun i => V (i + 1)) fun i c' hc' => h (i + 1) c' (by simpa using hc')
      have hc := h 0 c rfl
      rw [List.map_cons, List.sum_cons, List.length_cons, Finset.sum_range_succ']
      omega

/-- The values of the children of a node. -/
theorem Weighs.sum_children_le (h : Weighs g t W) {p : NodePtr} {n : RoseTree α} (hn : t.get? p = some n) :
    (n.children.map fun c => g c.value).sum ≤ W p := by
  refine Nat.le_trans (sum_map_le_sum_range n.children _ (fun i => W (p ++ [i])) fun i c hc => ?_) (h.children p _)
  refine h.value (p ++ [i]) c.value ?_
  rw [valueAt?_append_of hn, valueAt?_singleton, hc, Option.map_some]

mutual
theorem Weighs.sumBy_le (P : α → Bool) : (t : RoseTree α) → (W : NodePtr → Nat) → Weighs g t W →
    sumBy (fun a => if P a then g a else 0) t ≤ nesting P t * W []
  | .node a cs, W, h => by
      have hbelow := Weighs.sumByList_le P cs (fun i q => W (i :: q)) fun i c hc =>
        h.below (p := [i]) (by simp [get?_cons, hc])
      have hchildren := h.children [] (Finset.range cs.length)
      have hown : (if P a then g a else 0) ≤ (P a).toNat * W [] := by
        cases P a with
        | false => exact Nat.zero_le _
        | true => simpa using h.value [] a rfl
      rw [sumBy, nesting, Nat.add_mul]
      exact Nat.add_le_add hown (Nat.le_trans hbelow (Nat.mul_le_mul_left _ hchildren))

theorem Weighs.sumByList_le (P : α → Bool) : (cs : List (RoseTree α)) → (V : Nat → NodePtr → Nat) →
    (∀ i c, cs[i]? = some c → Weighs g c (V i)) →
    sumByList (fun a => if P a then g a else 0) cs ≤ nestingList P cs * ∑ i ∈ Finset.range cs.length, V i []
  | [], _, _ => Nat.zero_le _
  | c :: cs, V, h => by
      have hc := Weighs.sumBy_le P c (V 0) (h 0 c rfl)
      have hcs := Weighs.sumByList_le P cs (fun i => V (i + 1)) fun i c' hc' => h (i + 1) c' (by simpa using hc')
      rw [sumByList, nestingList, List.length_cons, Finset.sum_range_succ', Nat.mul_add, Nat.add_comm]
      exact Nat.add_le_add (Nat.le_trans hcs (Nat.mul_le_mul_right _ (Nat.le_max_right _ _)))
        (Nat.le_trans hc (Nat.mul_le_mul_right _ (Nat.le_max_left _ _)))
end

end ObservableBSD.Base.RoseTree
