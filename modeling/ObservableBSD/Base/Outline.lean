import ObservableBSD.Base.RoseTree

/-!
# Outlines

A forest as a list of lines, each with its depth, and the forest that such a list stands for. The lines of a node's
descendants stand right behind its own, and are deeper.
-/

namespace ObservableBSD.Base.RoseTree

variable {α β : Type*}

/-! ## Values and orders -/

mutual
def map (f : α → β) : RoseTree α → RoseTree β
  | .node a cs => .node (f a) (mapList f cs)

def mapList (f : α → β) : List (RoseTree α) → List (RoseTree β)
  | [] => []
  | c :: cs => map f c :: mapList f cs
end

/-- The same tree, but for the order of the children at each node. -/
inductive Reordered : RoseTree α → RoseTree α → Prop where
  | node {a : α} {cs ds es : List (RoseTree α)} : List.Forall₂ Reordered cs ds → ds.Perm es →
      Reordered (.node a cs) (.node a es)

/-- The children of each node are in this order. -/
inductive Ordered (r : α → α → Prop) : RoseTree α → Prop where
  | node {a : α} {cs : List (RoseTree α)} : cs.Pairwise (fun c d => r c.value d.value) → (∀ c ∈ cs, Ordered r c) →
      Ordered r (.node a cs)

/-- Every value in the tree is of this kind. -/
inductive Forall (P : α → Prop) : RoseTree α → Prop where
  | node {a : α} {cs : List (RoseTree α)} : P a → (∀ c ∈ cs, Forall P c) → Forall P (.node a cs)

section

variable {P : α → Prop} {t : RoseTree α}

theorem Forall.value (h : Forall P t) : P t.value := by
  cases h with
  | node ha hcs => exact ha

theorem Forall.children (h : Forall P t) : ∀ c ∈ t.children, Forall P c := by
  cases h with
  | node ha hcs => exact hcs

theorem Forall.get? {p : NodePtr} {n : RoseTree α} (h : Forall P t) (hn : t.get? p = some n) : Forall P n := by
  induction p generalizing t with
  | nil => cases hn; exact h
  | cons i p ih =>
      rw [get?_cons] at hn
      obtain ⟨c, hc, hget⟩ := Option.bind_eq_some_iff.mp hn
      exact ih (h.children c (List.mem_of_getElem? hc)) hget

theorem Forall.modifyAt {f : RoseTree α → RoseTree α} (hf : ∀ n, Forall P n → Forall P (f n)) (h : Forall P t)
    (p : NodePtr) : Forall P (t.modifyAt f p) := by
  induction p generalizing t with
  | nil => exact hf t h
  | cons i p ih =>
      cases h with
      | node ha hcs =>
          refine .node ha fun c hc => ?_
          obtain ⟨j, hj, rfl⟩ := List.mem_iff_getElem.mp hc
          rw [List.length_modify] at hj
          rw [List.getElem_modify]
          split
          · exact ih (hcs _ (List.getElem_mem _))
          · exact hcs _ (List.getElem_mem _)

end

mutual
/-- Every node's children sorted. -/
def sortBy (le : α → α → Bool) : RoseTree α → RoseTree α
  | .node a cs => .node a ((sortByList le cs).mergeSort fun c d => le c.value d.value)

def sortByList (le : α → α → Bool) : List (RoseTree α) → List (RoseTree α)
  | [] => []
  | c :: cs => sortBy le c :: sortByList le cs
end

mutual
theorem reordered_sortBy (le : α → α → Bool) (t : RoseTree α) : Reordered t (sortBy le t) := by
  cases t with
  | node a cs =>
      rw [sortBy]
      exact .node (reordered_sortByList le cs) (List.mergeSort_perm _ _).symm

theorem reordered_sortByList (le : α → α → Bool) (cs : List (RoseTree α)) :
    List.Forall₂ Reordered cs (sortByList le cs) := by
  cases cs with
  | nil => exact .nil
  | cons c cs =>
      rw [sortByList]
      exact .cons (reordered_sortBy le c) (reordered_sortByList le cs)
end

/-- An order that `mergeSort` sorts by. -/
structure Sorts (le : α → α → Bool) : Prop where
  trans : ∀ a b c, le a b = true → le b c = true → le a c = true
  total : ∀ a b, (le a b || le b a) = true

variable {le : α → α → Bool}

mutual
theorem ordered_sortBy (h : Sorts le) (t : RoseTree α) : Ordered (fun a b => le a b = true) (sortBy le t) := by
  cases t with
  | node a cs =>
      rw [sortBy]
      refine .node ?_ fun c hc => ordered_sortByList h cs c (List.mem_mergeSort.mp hc)
      exact List.pairwise_mergeSort (fun c d e => h.trans c.value d.value e.value)
        (fun c d => h.total c.value d.value) _

theorem ordered_sortByList (h : Sorts le) (cs : List (RoseTree α)) :
    ∀ c ∈ sortByList le cs, Ordered (fun a b => le a b = true) c := by
  cases cs with
  | nil => exact fun c hc => absurd hc List.not_mem_nil
  | cons c cs =>
      rw [sortByList]
      exact List.forall_mem_cons.mpr ⟨ordered_sortBy h c, ordered_sortByList h cs⟩
end

mutual
theorem Forall.sortBy {P : α → Prop} {t : RoseTree α} (h : Forall P t) : Forall P (t.sortBy le) := by
  cases h with
  | node ha hcs =>
      rw [RoseTree.sortBy]
      exact .node ha fun c hc => forall_sortByList hcs c (List.mem_mergeSort.mp hc)

theorem forall_sortByList {P : α → Prop} {cs : List (RoseTree α)} (h : ∀ c ∈ cs, Forall P c) :
    ∀ c ∈ sortByList le cs, Forall P c := by
  cases cs with
  | nil => exact fun c hc => absurd hc List.not_mem_nil
  | cons c cs =>
      obtain ⟨hc, hcs⟩ := List.forall_mem_cons.mp h
      rw [sortByList]
      exact List.forall_mem_cons.mpr ⟨Forall.sortBy hc, forall_sortByList hcs⟩
end

/-! ## Lines -/

mutual
/-- The line of a node, and the lines of its descendants. -/
def outline (depth : Nat) : RoseTree α → List (Nat × α)
  | .node a cs => (depth, a) :: outlineList (depth + 1) cs

def outlineList (depth : Nat) : List (RoseTree α) → List (Nat × α)
  | [] => []
  | c :: cs => outline depth c ++ outlineList depth cs
end

mutual
theorem Forall.outline {P : α → Prop} {t : RoseTree α} (h : Forall P t) (depth : Nat) :
    ∀ line ∈ t.outline depth, P line.2 := by
  cases h with
  | node ha hcs => exact List.forall_mem_cons.mpr ⟨ha, forall_outlineList hcs (depth + 1)⟩

theorem forall_outlineList {P : α → Prop} {cs : List (RoseTree α)} (h : ∀ c ∈ cs, Forall P c) (depth : Nat) :
    ∀ line ∈ outlineList depth cs, P line.2 := by
  cases cs with
  | nil => exact fun line hline => absurd hline List.not_mem_nil
  | cons c cs =>
      obtain ⟨hc, hcs⟩ := List.forall_mem_cons.mp h
      exact List.forall_mem_append.mpr ⟨Forall.outline hc depth, forall_outlineList hcs depth⟩
end

/-- A line in front of the trees behind it: those that are deeper are its children. -/
def placeLine (line : Nat × α) (behind : List (Nat × RoseTree α)) : List (Nat × RoseTree α) :=
  (line.1, .node line.2 ((behind.takeWhile fun b => line.1 < b.1).map Prod.snd)) ::
    behind.dropWhile fun b => line.1 < b.1

/-- The forest that the lines stand for. -/
def ofOutline (lines : List (Nat × α)) : List (RoseTree α) := (lines.foldr placeLine []).map Prod.snd

/-- Trees at a depth in front of ones that are not deeper than `depth`. -/
theorem span_deeper {depth : Nat} (cs : List (RoseTree α)) {behind : List (Nat × RoseTree α)}
    (h : ∀ b ∈ behind.head?, b.1 ≤ depth) :
    (cs.map (depth + 1, ·) ++ behind).takeWhile (fun b => depth < b.1) = cs.map (depth + 1, ·) ∧
      (cs.map (depth + 1, ·) ++ behind).dropWhile (fun b => depth < b.1) = behind := by
  have hdeeper : ∀ b ∈ cs.map (depth + 1, ·), decide (depth < b.1) = true := by
    intro b hb
    obtain ⟨c, -, rfl⟩ := List.mem_map.mp hb
    exact decide_eq_true (Nat.lt_succ_self depth)
  rw [List.takeWhile_append_of_pos hdeeper, List.dropWhile_append_of_pos hdeeper]
  cases behind with
  | nil => simp
  | cons b behind =>
      have hle : ¬ depth < b.1 := Nat.not_lt.mpr (h b rfl)
      simp [hle]

mutual
theorem foldr_outline {depth : Nat} (t : RoseTree α) {behind : List (Nat × RoseTree α)}
    (h : ∀ b ∈ behind.head?, b.1 ≤ depth) : (outline depth t).foldr placeLine behind = (depth, t) :: behind := by
  cases t with
  | node a cs =>
      have hnext : ∀ b ∈ behind.head?, b.1 ≤ depth + 1 := fun b hb => Nat.le_succ_of_le (h b hb)
      obtain ⟨htake, hdrop⟩ := span_deeper cs h
      rw [outline, List.foldr_cons, foldr_outlineList cs hnext, placeLine, htake, hdrop, List.map_map]
      simp [Function.comp_def]

theorem foldr_outlineList {depth : Nat} (cs : List (RoseTree α)) {behind : List (Nat × RoseTree α)}
    (h : ∀ b ∈ behind.head?, b.1 ≤ depth) :
    (outlineList depth cs).foldr placeLine behind = cs.map (depth, ·) ++ behind := by
  cases cs with
  | nil => rfl
  | cons c cs =>
      have hrest := foldr_outlineList cs h
      have hhead : ∀ b ∈ (cs.map (depth, ·) ++ behind).head?, b.1 ≤ depth := by
        cases cs with
        | nil => exact h
        | cons d cs =>
            intro b hb
            obtain rfl := Option.some.inj hb
            exact Nat.le_refl depth
      rw [outlineList, List.foldr_append, hrest, foldr_outline c hhead]
      rfl
end

/-- The forest is read back from its outline. -/
theorem ofOutline_outlineList (depth : Nat) (cs : List (RoseTree α)) : ofOutline (outlineList depth cs) = cs := by
  have hnone : ∀ b ∈ ([] : List (Nat × RoseTree α)).head?, b.1 ≤ depth := fun b hb => by cases hb
  rw [ofOutline, foldr_outlineList cs hnone, List.append_nil, List.map_map]
  simp [Function.comp_def]

mutual
theorem map_outline (f : α → β) (depth : Nat) (t : RoseTree α) :
    (outline depth t).map (Prod.map id f) = outline depth (map f t) := by
  cases t with
  | node a cs => rw [outline, List.map_cons, map_outlineList f (depth + 1) cs, map, outline]; rfl

theorem map_outlineList (f : α → β) (depth : Nat) (cs : List (RoseTree α)) :
    (outlineList depth cs).map (Prod.map id f) = outlineList depth (mapList f cs) := by
  cases cs with
  | nil => rfl
  | cons c cs => rw [outlineList, List.map_append, map_outline f depth c, map_outlineList f depth cs, mapList, outlineList]
end

end ObservableBSD.Base.RoseTree
