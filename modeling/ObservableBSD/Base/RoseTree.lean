import Mathlib.Data.List.Basic

/-!
# Trees with pointers

Trees with a list of children at each node. A pointer to a node is the list of the child indices on the
way from the root. When children are only ever added behind the present ones, a pointer keeps pointing
to its node.
-/

namespace ObservableBSD.Base

inductive RoseTree (α : Type*) where
  | node (value : α) (children : List (RoseTree α))

/-- A pointer to a node: the child indices from the root. -/
abbrev NodePtr := List Nat

namespace RoseTree

variable {α : Type*}

def value : RoseTree α → α
  | .node a _ => a

def children : RoseTree α → List (RoseTree α)
  | .node _ cs => cs

def get? (t : RoseTree α) : NodePtr → Option (RoseTree α)
  | [] => some t
  | i :: p => match t.children[i]? with
      | none => none
      | some c => c.get? p

def valueAt? (t : RoseTree α) (p : NodePtr) : Option α := (t.get? p).map value

/-- Write through a pointer; a dangling pointer leaves the tree as it is. -/
def modifyAt (f : RoseTree α → RoseTree α) : NodePtr → RoseTree α → RoseTree α
  | [], t => f t
  | i :: p, .node a cs => .node a (cs.modify i (modifyAt f p))

mutual
def sumBy (g : α → Nat) : RoseTree α → Nat
  | .node a cs => g a + sumByList g cs

def sumByList (g : α → Nat) : List (RoseTree α) → Nat
  | [] => 0
  | c :: cs => sumBy g c + sumByList g cs
end

mutual
/-- The values at the ends of each edge, from the root down. -/
def edges : RoseTree α → List (α × α)
  | .node a cs => edgesBelow a cs

/-- The edges from a node with the value `a` to its children, and the edges below them. -/
def edgesBelow (a : α) : List (RoseTree α) → List (α × α)
  | [] => []
  | c :: cs => (a, c.value) :: (edges c ++ edgesBelow a cs)
end

@[simp] theorem value_node (a : α) (cs : List (RoseTree α)) : (node a cs).value = a := rfl

@[simp] theorem children_node (a : α) (cs : List (RoseTree α)) : (node a cs).children = cs := rfl

@[simp] theorem get?_nil (t : RoseTree α) : t.get? [] = some t := rfl

theorem get?_cons (t : RoseTree α) (i : Nat) (p : NodePtr) :
    t.get? (i :: p) = (t.children[i]?).bind (·.get? p) := by
  cases h : t.children[i]? <;> simp [get?, h]

theorem get?_append (t : RoseTree α) (p q : NodePtr) :
    t.get? (p ++ q) = (t.get? p).bind (·.get? q) := by
  induction p generalizing t with
  | nil => simp
  | cons i p ih =>
      rw [List.cons_append, get?_cons, get?_cons]
      cases t.children[i]? with
      | none => rfl
      | some c => simp [ih]

theorem get?_append_of {t m : RoseTree α} {p : NodePtr} (h : t.get? p = some m) (q : NodePtr) :
    t.get? (p ++ q) = m.get? q := by
  rw [get?_append, h, Option.bind_some]

theorem get?_of_append {t m : RoseTree α} {p q : NodePtr} (h : t.get? (p ++ q) = some m) :
    ∃ m', t.get? p = some m' := by
  rw [get?_append] at h
  obtain ⟨m', hm, _⟩ := Option.bind_eq_some_iff.mp h
  exact ⟨m', hm⟩

theorem get?_modifyAt_self {f : RoseTree α → RoseTree α} {t m : RoseTree α} {p : NodePtr}
    (h : t.get? p = some m) : (t.modifyAt f p).get? p = some (f m) := by
  induction p generalizing t with
  | nil => cases h; rfl
  | cons i p ih =>
      cases t with
      | node a cs =>
          rw [get?_cons] at h
          obtain ⟨c, hc, hm⟩ := Option.bind_eq_some_iff.mp h
          have hc' : cs[i]? = some c := hc
          simp [modifyAt, get?_cons, hc', ih hm]

theorem valueAt?_cons (t : RoseTree α) (i : Nat) (p : NodePtr) :
    t.valueAt? (i :: p) = (t.children[i]?).bind (·.valueAt? p) := by
  rw [valueAt?, get?_cons]
  cases t.children[i]? <;> rfl

theorem valueAt?_singleton (t : RoseTree α) (i : Nat) : t.valueAt? [i] = (t.children[i]?).map value := by
  rw [valueAt?_cons]
  cases t.children[i]? <;> rfl

theorem valueAt?_eq_some {t : RoseTree α} {p : NodePtr} {a : α} :
    t.valueAt? p = some a ↔ ∃ m, t.get? p = some m ∧ m.value = a :=
  Option.map_eq_some_iff

/-- What is read after a write through a pointer: at the pointer and below it the tree written, and
elsewhere what was there. -/
theorem valueAt?_modifyAt (f : RoseTree α → RoseTree α) (t : RoseTree α) (p q : NodePtr) :
    (t.modifyAt f p).valueAt? q =
      if p <+: q then (t.get? p).bind fun m => (f m).valueAt? (q.drop p.length)
      else t.valueAt? q := by
  induction p generalizing t q with
  | nil => rw [if_pos (List.nil_prefix)]; rfl
  | cons i p ih =>
      cases t with
      | node a cs =>
          cases q with
          | nil => rw [if_neg (by simp)]; rfl
          | cons j q =>
              rw [valueAt?_cons, modifyAt, children_node, get?_cons, children_node]
              by_cases hij : i = j
              · subst j
                rw [List.getElem?_modify_eq]
                cases hc : cs[i]? with
                | none => simp [valueAt?_cons, hc]
                | some c =>
                    simp only [Option.map_eq_map, Option.map_some, Option.bind_some, List.length_cons,
                      List.drop_succ_cons,
                      List.cons_prefix_cons, true_and, ih, valueAt?_cons, children_node, hc]
              · have hpre : ¬ (i :: p <+: j :: q) := fun h => hij (List.cons_prefix_cons.mp h).1
                rw [List.getElem?_modify_ne _ _ hij, if_neg hpre, valueAt?_cons, children_node]

theorem valueAt?_append_of {t m : RoseTree α} {p : NodePtr} (h : t.get? p = some m) (q : NodePtr) :
    t.valueAt? (p ++ q) = m.valueAt? q := by
  rw [valueAt?, get?_append_of h, valueAt?]

/-- A write that changes the value at one pointer below its own. -/
theorem valueAt?_modifyAt_of {f : RoseTree α → RoseTree α} {t m : RoseTree α} {p r : NodePtr} {v : Option α}
    (h : t.get? p = some m) (hf : ∀ q, (f m).valueAt? q = if q = r then v else m.valueAt? q) (q : NodePtr) :
    (t.modifyAt f p).valueAt? q = if q = p ++ r then v else t.valueAt? q := by
  rw [valueAt?_modifyAt, h, Option.bind_some]
  by_cases hp : p <+: q
  · obtain ⟨s, rfl⟩ := hp
    rw [if_pos (List.prefix_append p s), List.drop_left, hf, valueAt?_append_of h]
    simp only [List.append_cancel_left_eq]
  · have hq : q ≠ p ++ r := fun hq => hp (hq ▸ List.prefix_append p r)
    rw [if_neg hp, if_neg hq]

theorem sumByList_append (g : α → Nat) (cs ds : List (RoseTree α)) :
    sumByList g (cs ++ ds) = sumByList g cs + sumByList g ds := by
  induction cs with
  | nil => simp [sumByList]
  | cons c cs ih => simp [sumByList, ih]; omega

theorem sumByList_modify {g : α → Nat} {f : RoseTree α → RoseTree α} {cs : List (RoseTree α)} {i : Nat}
    {c : RoseTree α} (h : cs[i]? = some c) :
    sumByList g (cs.modify i f) + sumBy g c = sumByList g cs + sumBy g (f c) := by
  induction cs generalizing i with
  | nil => simp at h
  | cons d cs ih =>
      cases i with
      | zero =>
          obtain rfl : d = c := by simpa using h
          simp only [List.modify_zero_cons, sumByList]; omega
      | succ i =>
          have := ih (i := i) (by simpa using h)
          simp only [List.modify_succ_cons, sumByList]; omega

/-- Writing through a valid pointer changes the sum by the change at the node written. -/
theorem sumBy_modifyAt {g : α → Nat} {f : RoseTree α → RoseTree α} {t m : RoseTree α} {p : NodePtr}
    (h : t.get? p = some m) :
    sumBy g (t.modifyAt f p) + sumBy g m = sumBy g t + sumBy g (f m) := by
  induction p generalizing t with
  | nil => cases h; simp only [modifyAt]; omega
  | cons i p ih =>
      cases t with
      | node a cs =>
          rw [get?_cons] at h
          obtain ⟨c, hc, hm⟩ := Option.bind_eq_some_iff.mp h
          have hlist : sumByList g (cs.modify i (modifyAt f p)) + sumBy g c =
              sumByList g cs + sumBy g (c.modifyAt f p) := sumByList_modify hc
          have := ih hm
          simp only [modifyAt, sumBy]; omega

end RoseTree

end ObservableBSD.Base
