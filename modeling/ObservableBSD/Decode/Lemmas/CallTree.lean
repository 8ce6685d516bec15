import Mathlib.Data.List.Induction
import ObservableBSD.Decode.CallTree

/-!
# The shadow stack of the call tree

The pointers on the shadow stack lead from the root to one node, each to a child of the one below it.
So a push always finds its parent, adds one pointer and counts one call of its symbol.
-/

namespace ObservableBSD.Decode

open Base

/-! ## Finding or adding a child -/

theorem ctFindOrAddChild_get? (n : CtNode) (name binary : StrPtr) :
    ∃ c, (ctFindOrAddChild n name binary).1.get? [(ctFindOrAddChild n name binary).2] = some c ∧
      c.value.name = name ∧ c.value.binary = binary := by
  unfold ctFindOrAddChild
  split
  · rename_i i hi
    obtain ⟨hlt, hp, _⟩ := List.findIdx?_eq_some_iff_getElem.mp hi
    obtain ⟨hname, hbinary⟩ : n.children[i].value.name = name ∧ n.children[i].value.binary = binary := by
      simpa using hp
    exact ⟨n.children[i], by simp [RoseTree.get?_cons, List.getElem?_eq_getElem hlt], hname, hbinary⟩
  · exact ⟨ctNodeInit name binary, by simp [RoseTree.get?_cons], rfl, rfl⟩

theorem ctFindOrAddChild_sumCount (key : StrPtr → StrPtr → Bool) (n : CtNode) (name binary : StrPtr) :
    CtNode.sumCount key (ctFindOrAddChild n name binary).1 = n.sumCount key := by
  unfold ctFindOrAddChild
  split
  · rfl
  · cases n with
    | node a cs =>
        have hnew : ctCalls key { name, binary } = 0 := by simp [ctCalls]
        simp only [CtNode.sumCount, RoseTree.sumBy, RoseTree.value_node, RoseTree.children_node,
          RoseTree.sumByList_append, RoseTree.sumByList, ctNodeInit, hnew]
        omega

theorem update_ctEnter_sumCount (key : StrPtr → StrPtr → Bool) (tsc : UInt64) (n : CtNode) :
    CtNode.sumCount key (n.update (ctEnter tsc)) =
      n.sumCount key + (key n.value.name n.value.binary).toNat := by
  cases n with
  | node a cs =>
      have hbump : ctCalls key (ctEnter tsc a) = ctCalls key a + (key a.name a.binary).toNat := by
        cases hk : key a.name a.binary <;> simp [ctCalls, ctEnter, hk]
      simp only [CtNode.sumCount, CtNode.update, RoseTree.sumBy, hbump, RoseTree.value_node]
      omega

theorem update_ctLeave_sumCount (key : StrPtr → StrPtr → Bool) (tsc : UInt64) (n : CtNode) :
    CtNode.sumCount key (n.update (ctLeave tsc)) = n.sumCount key := by
  cases n with
  | node a cs => rfl

theorem sumCount_modifyAt (key : StrPtr → StrPtr → Bool) {f : CtNode → CtNode} {t n : CtNode}
    {p : NodePtr} (h : t.get? p = some n) :
    CtNode.sumCount key (t.modifyAt f p) + n.sumCount key = t.sumCount key + (f n).sumCount key :=
  RoseTree.sumBy_modifyAt h

/-! ## Validity of the stack -/

/-- Each pointer of the stack points to a child of the node below it, and the lowest one to the root. -/
def IsPath : List NodePtr → Prop
  | [] => False
  | [p] => p = []
  | p :: q :: rest => (∃ i, p = q ++ [i]) ∧ IsPath (q :: rest)

/-- The stack is a path in the tree. -/
def Calltree.Valid (ct : Calltree) : Prop :=
  IsPath ct.stack ∧ ∃ n, ct.root.get? (ct.stack.headD []) = some n

theorem IsPath.ne_nil {ps : List NodePtr} (h : IsPath ps) : ps ≠ [] := by
  intro he; subst ps; exact h

theorem IsPath.tail {ps : List NodePtr} (h : IsPath ps) (hlen : 1 < ps.length) :
    IsPath ps.tail ∧ ∃ i, ps.headD [] = ps.tail.headD [] ++ [i] := by
  match ps, h, hlen with
  | p :: q :: rest, h, _ => exact ⟨h.2, h.1⟩

theorem IsPath.cons {ps : List NodePtr} (h : IsPath ps) (i : Nat) :
    IsPath ((ps.headD [] ++ [i]) :: ps) := by
  cases ps with
  | nil => exact h.elim
  | cons p ps => exact ⟨⟨i, rfl⟩, h⟩

theorem IsPath.eq_dropLast_append {ps : List NodePtr} (h : IsPath ps) : ps = ps.dropLast ++ [[]] := by
  induction ps with
  | nil => exact h.elim
  | cons p ps ih =>
      cases ps with
      | nil => cases h; rfl
      | cons q rest => rw [List.dropLast_cons_of_ne_nil (by simp), List.cons_append, ← ih h.2]

theorem calltreeInit_valid : calltreeInit.Valid := ⟨rfl, _, rfl⟩

/-! ## Push and pop -/

theorem calltreePush_stack {ct : Calltree} (h : ct.Valid) (s : SymEntry) (tsc : UInt64) :
    ∃ i, (calltreePush ct (some s) tsc).stack = (ct.stack.headD [] ++ [i]) :: ct.stack := by
  obtain ⟨_, n, hn⟩ := h
  simp only [calltreePush, hn]
  exact ⟨_, rfl⟩

theorem calltreePush_valid {ct : Calltree} (h : ct.Valid) (sym : Option SymEntry) (tsc : UInt64) :
    (calltreePush ct sym tsc).Valid := by
  cases sym with
  | none => exact h
  | some s =>
      obtain ⟨hp, n, hn⟩ := h
      obtain ⟨c, hc, _⟩ := ctFindOrAddChild_get? n s.name s.binary
      simp only [calltreePush, hn]
      refine ⟨hp.cons _, ?_⟩
      have hparent := RoseTree.get?_modifyAt_self (f := fun _ =>
        (ctFindOrAddChild n s.name s.binary).1) hn
      exact ⟨_, RoseTree.get?_modifyAt_self ((RoseTree.get?_append_of hparent _).trans hc)⟩

theorem calltreePush_sumCount {ct : Calltree} (h : ct.Valid) (s : SymEntry) (tsc : UInt64)
    (key : StrPtr → StrPtr → Bool) :
    (calltreePush ct (some s) tsc).root.sumCount key =
      ct.root.sumCount key + (key s.name s.binary).toNat := by
  obtain ⟨_, n, hn⟩ := h
  obtain ⟨c, hc, hname, hbinary⟩ := ctFindOrAddChild_get? n s.name s.binary
  have hparent := RoseTree.get?_modifyAt_self (f := fun _ => (ctFindOrAddChild n s.name s.binary).1) hn
  have hchild := (RoseTree.get?_append_of hparent [(ctFindOrAddChild n s.name s.binary).2]).trans hc
  have hadd : CtNode.sumCount key (ct.root.modifyAt (fun _ => (ctFindOrAddChild n s.name s.binary).1)
      (ct.stack.headD [])) = ct.root.sumCount key := by
    have hparentSum : CtNode.sumCount key (ct.root.modifyAt (fun _ =>
        (ctFindOrAddChild n s.name s.binary).1) (ct.stack.headD [])) + CtNode.sumCount key n =
        ct.root.sumCount key + CtNode.sumCount key (ctFindOrAddChild n s.name s.binary).1 :=
      sumCount_modifyAt key hn
    rw [ctFindOrAddChild_sumCount] at hparentSum
    omega
  have hbump := sumCount_modifyAt key (f := CtNode.update (ctEnter tsc)) hchild
  rw [update_ctEnter_sumCount, hname, hbinary] at hbump
  simp only [calltreePush, hn]
  omega

theorem calltreePop_stack (ct : Calltree) (tsc : UInt64) (hp : IsPath ct.stack) :
    (calltreePop ct tsc).stack.dropLast = ct.stack.dropLast.tail := by
  unfold calltreePop Calltree.depth
  split
  · simp only [List.tail_dropLast]
  · have hlen : ct.stack.length = 1 := by
      have := List.length_pos_iff.mpr hp.ne_nil; omega
    obtain ⟨p, hp⟩ := List.length_eq_one_iff.mp hlen
    simp [hp]

theorem calltreePop_valid {ct : Calltree} (h : ct.Valid) (tsc : UInt64) :
    (calltreePop ct tsc).Valid := by
  unfold calltreePop
  split
  · rename_i hd
    obtain ⟨hp, n, hn⟩ := h
    obtain ⟨htail, i, hi⟩ := hp.tail (by unfold Calltree.depth at hd; omega)
    refine ⟨htail, ?_⟩
    have hself := RoseTree.get?_modifyAt_self (f := CtNode.update (ctLeave tsc)) hn
    rw [hi] at hself
    simp only [hi]
    exact RoseTree.get?_of_append hself
  · exact h

theorem calltreePop_sumCount {ct : Calltree} (h : ct.Valid) (tsc : UInt64)
    (key : StrPtr → StrPtr → Bool) :
    (calltreePop ct tsc).root.sumCount key = ct.root.sumCount key := by
  unfold calltreePop
  split
  · obtain ⟨_, n, hn⟩ := h
    have hsum := sumCount_modifyAt key (f := CtNode.update (ctLeave tsc)) hn
    rw [update_ctLeave_sumCount] at hsum
    show CtNode.sumCount key (ct.root.modifyAt _ _) = _
    omega
  · rfl

/-! ## One instruction -/

theorem calltreeEnter_valid {ct : Calltree} (h : ct.Valid) (x : DecodedInsn) :
    (calltreeEnter ct x).Valid := by
  unfold calltreeEnter
  split
  · exact calltreePush_valid h _ _
  · exact h

theorem calltreeRecord_valid {ct : Calltree} (h : ct.Valid) (x : DecodedInsn) :
    (calltreeRecord ct x).Valid := by
  have he := calltreeEnter_valid h x
  unfold calltreeRecord
  by_cases hr : x.iclass.isReturn = true
  · have hpop := calltreePop_valid he x.tsc
    simpa [hr, Calltree.Valid] using hpop
  · simpa [hr, Calltree.Valid] using he

theorem calltreeRun_concat (w : List DecodedInsn) (x : DecodedInsn) :
    calltreeRun (w ++ [x]) = calltreeRecord (calltreeRun w) x := by
  simp [calltreeRun]

/-- The shadow stack stays a path in the tree over every stream. -/
theorem calltreeRun_valid (w : List DecodedInsn) : (calltreeRun w).Valid := by
  induction w using List.reverseRecOn with
  | nil => exact calltreeInit_valid
  | append_singleton w x ih => rw [calltreeRun_concat]; exact calltreeRecord_valid ih x

end ObservableBSD.Decode
