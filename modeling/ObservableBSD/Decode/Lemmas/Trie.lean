import Mathlib.Data.List.Infix
import Mathlib.Data.List.Nodup
import ObservableBSD.Decode.Lemmas.Shadow

/-!
# The call tree is the trie of its pushes

The children of a node differ in name or binary, and a node counts the pushes behind which the shadow
stack was the path to it. A push changes what is read at one pointer only.
-/

namespace ObservableBSD.Decode

open Base

/-! ## What is read at a pointer -/

def CtData.key (d : CtData) : StrPtr × StrPtr := (d.name, d.binary)

def CtNode.keyAt? (t : CtNode) (p : NodePtr) : Option (StrPtr × StrPtr) := (t.valueAt? p).map CtData.key

/-- The calls counted at a pointer; 0 at a dangling one. -/
def CtNode.countAt (t : CtNode) (p : NodePtr) : Nat := ((t.valueAt? p).map CtData.count).getD 0

theorem update_valueAt? (f : CtData → CtData) (n : CtNode) (q : NodePtr) :
    (n.update f).valueAt? q = if q = [] then some (f n.value) else n.valueAt? q := by
  cases n with
  | node a cs =>
      cases q with
      | nil => rfl
      | cons i q => rw [if_neg (by simp), CtNode.update, RoseTree.valueAt?_cons, RoseTree.valueAt?_cons]; rfl

/-- Finding or adding a child changes what is read at the child only, and a child that is found is kept. -/
theorem ctFindOrAddChild_valueAt? (n : CtNode) (name binary : StrPtr) :
    ∃ d, d.key = (name, binary) ∧
      d = (n.valueAt? [(ctFindOrAddChild n name binary).2]).getD { name, binary } ∧
      ∀ q, (ctFindOrAddChild n name binary).1.valueAt? q =
        if q = [(ctFindOrAddChild n name binary).2] then some d else n.valueAt? q := by
  unfold ctFindOrAddChild
  split
  · rename_i i hi
    obtain ⟨hlt, hp, _⟩ := List.findIdx?_eq_some_iff_getElem.mp hi
    obtain ⟨hname, hbinary⟩ : n.children[i].value.name = name ∧ n.children[i].value.binary = binary := by
      simpa using hp
    have hread : n.valueAt? [i] = some n.children[i].value := by
      rw [RoseTree.valueAt?_singleton, List.getElem?_eq_getElem hlt, Option.map_some]
    refine ⟨n.children[i].value, Prod.ext hname hbinary, by simp [hread], fun q => ?_⟩
    by_cases hq : q = [i]
    · rw [if_pos hq, hq, hread]
    · rw [if_neg hq]
  · have hnone : n.valueAt? [n.children.length] = none := by
      rw [RoseTree.valueAt?_singleton, List.getElem?_eq_none (Nat.le_refl _), Option.map_none]
    refine ⟨{ name, binary }, rfl, by simp [hnone], fun q => ?_⟩
    cases q with
    | nil => cases n; rfl
    | cons i q =>
        rw [RoseTree.valueAt?_cons, RoseTree.valueAt?_cons, RoseTree.children_node]
        rcases Nat.lt_trichotomy i n.children.length with hlt | rfl | hgt
        · have hne : i :: q ≠ [n.children.length] := by
            intro he; cases he; exact Nat.lt_irrefl _ hlt
          rw [List.getElem?_append_left hlt, if_neg hne]
        · cases q <;> simp [ctNodeInit, RoseTree.valueAt?, RoseTree.get?_cons]
        · have hne : i :: q ≠ [n.children.length] := by
            intro he; cases he; exact Nat.lt_irrefl _ hgt
          rw [List.getElem?_eq_none (by rw [List.length_append]; exact hgt),
            List.getElem?_eq_none (Nat.le_of_lt hgt), if_neg hne]

/-- A child with the name and the binary is found. -/
theorem ctFindOrAddChild_found {n : CtNode} {name binary : StrPtr} {j : Nat}
    (h : n.keyAt? [j] = some (name, binary)) :
    n.keyAt? [(ctFindOrAddChild n name binary).2] = some (name, binary) := by
  obtain ⟨d, hd, hkey⟩ := Option.map_eq_some_iff.mp h
  rw [RoseTree.valueAt?_singleton] at hd
  obtain ⟨c, hchild, hvalue⟩ := Option.map_eq_some_iff.mp hd
  unfold ctFindOrAddChild
  split
  · rename_i i hi
    obtain ⟨hlt, hp, _⟩ := List.findIdx?_eq_some_iff_getElem.mp hi
    rw [CtNode.keyAt?, RoseTree.valueAt?_singleton, List.getElem?_eq_getElem hlt]
    simpa [CtData.key] using hp
  · rename_i hi
    have hno := List.findIdx?_eq_none_iff.mp hi c (List.mem_of_getElem? hchild)
    obtain ⟨hname, hbinary⟩ := Prod.mk.inj hkey
    simp [hvalue, hname, hbinary] at hno

/-! ## Push and pop -/

/-- What a push does: it puts a child of the top on the stack, an old one or a fresh one, and enters it. -/
theorem calltreePush_read {ct : Calltree} (h : ct.Valid) (s : SymEntry) (tsc : UInt64) :
    ∃ i d, (calltreePush ct (some s) tsc).stack = (ct.stack.headD [] ++ [i]) :: ct.stack ∧
      d.key = (s.name, s.binary) ∧
      d = (ct.root.valueAt? (ct.stack.headD [] ++ [i])).getD { name := s.name, binary := s.binary } ∧
      (∀ p, (calltreePush ct (some s) tsc).root.valueAt? p =
        if p = ct.stack.headD [] ++ [i] then some (ctEnter tsc d) else ct.root.valueAt? p) ∧
      ∀ j, ct.root.keyAt? (ct.stack.headD [] ++ [j]) = some (s.name, s.binary) →
        ct.root.keyAt? (ct.stack.headD [] ++ [i]) = some (s.name, s.binary) := by
  obtain ⟨_, n, hn⟩ := h
  obtain ⟨d, hkey, hold, hadd⟩ := ctFindOrAddChild_valueAt? n s.name s.binary
  refine ⟨(ctFindOrAddChild n s.name s.binary).2, d, ?_⟩
  generalize hi : (ctFindOrAddChild n s.name s.binary).2 = i at *
  have hbelow : ∀ j, ct.root.valueAt? (ct.stack.headD [] ++ [j]) = n.valueAt? [j] :=
    fun j => RoseTree.valueAt?_append_of hn [j]
  have hadded := RoseTree.valueAt?_modifyAt_of (f := fun _ => (ctFindOrAddChild n s.name s.binary).1) hn hadd
  obtain ⟨c, hc, hcd⟩ := RoseTree.valueAt?_eq_some.mp ((hadded (ct.stack.headD [] ++ [i])).trans (if_pos rfl))
  have hentered := RoseTree.valueAt?_modifyAt_of (r := []) hc (update_valueAt? (ctEnter tsc) c)
  refine ⟨by simp only [calltreePush, hn, hi], hkey, by rw [hbelow]; exact hold, fun p => ?_, fun j hj => ?_⟩
  · have hroot : (calltreePush ct (some s) tsc).root = (ct.root.modifyAt
        (fun _ => (ctFindOrAddChild n s.name s.binary).1) (ct.stack.headD [])).modifyAt
        (CtNode.update (ctEnter tsc)) (ct.stack.headD [] ++ [i]) := by
      simp only [calltreePush, hn, hi]
    rw [hroot, hentered, List.append_nil, hcd]
    by_cases hp : p = ct.stack.headD [] ++ [i]
    · rw [if_pos hp, if_pos hp]
    · rw [if_neg hp, if_neg hp, hadded, if_neg hp]
  · rw [CtNode.keyAt?, hbelow] at hj ⊢
    exact hi ▸ ctFindOrAddChild_found hj

/-- What a pop does: it leaves the top, if that is not the root, and takes it from the stack. -/
theorem calltreePop_valueAt? {ct : Calltree} (h : ct.Valid) (tsc : UInt64) (p : NodePtr) :
    (calltreePop ct tsc).root.valueAt? p =
      if 0 < ct.depth ∧ p = ct.stack.headD [] then (ct.root.valueAt? p).map (ctLeave tsc)
      else ct.root.valueAt? p := by
  obtain ⟨_, n, hn⟩ := h
  have hleft := RoseTree.valueAt?_modifyAt_of (r := []) hn (update_valueAt? (ctLeave tsc) n)
  unfold calltreePop
  by_cases hd : 0 < ct.depth
  · rw [if_pos hd]
    refine (hleft p).trans ?_
    rw [List.append_nil]
    by_cases hp : p = ct.stack.headD []
    · have hold : ct.root.valueAt? p = some n.value := hp ▸ RoseTree.valueAt?_eq_some.mpr ⟨n, hn, rfl⟩
      rw [if_pos hp, if_pos ⟨hd, hp⟩, hold, Option.map_some]
    · rw [if_neg hp, if_neg fun h => hp h.2]
  · rw [if_neg hd, if_neg fun h => hd h.1]

/-- A push counts one call at the child. -/
structure Pushed (ct ct' : Calltree) (name binary : StrPtr) (i : Nat) : Prop where
  stack : ct'.stack = (ct.stack.headD [] ++ [i]) :: ct.stack
  key : ∀ p, ct'.root.keyAt? p =
    if p = ct.stack.headD [] ++ [i] then some (name, binary) else ct.root.keyAt? p
  count : ∀ p, ct'.root.countAt p =
    ct.root.countAt p + if p = ct.stack.headD [] ++ [i] then 1 else 0
  found : ∀ j, ct.root.keyAt? (ct.stack.headD [] ++ [j]) = some (name, binary) →
    ct.root.keyAt? (ct.stack.headD [] ++ [i]) = some (name, binary)

theorem calltreePush_pushed {ct : Calltree} (h : ct.Valid) (s : SymEntry) (tsc : UInt64) :
    ∃ i, Pushed ct (calltreePush ct (some s) tsc) s.name s.binary i := by
  obtain ⟨i, d, hstack, hkey, hold, hread, hfound⟩ := calltreePush_read h s tsc
  refine ⟨i, hstack, fun p => ?_, fun p => ?_, hfound⟩
  · rw [CtNode.keyAt?, hread]
    split
    · exact congrArg some hkey
    · rfl
  · rw [CtNode.countAt, hread]
    split
    · rename_i hp
      rw [Option.map_some, Option.getD_some, hp, CtNode.countAt, hold]
      cases ct.root.valueAt? (ct.stack.headD [] ++ [i]) <;> rfl
    · rfl

theorem calltreePop_read {ct : Calltree} (h : ct.Valid) (tsc : UInt64) (p : NodePtr) :
    (calltreePop ct tsc).root.keyAt? p = ct.root.keyAt? p ∧
      (calltreePop ct tsc).root.countAt p = ct.root.countAt p := by
  rw [CtNode.keyAt?, CtNode.keyAt?, CtNode.countAt, CtNode.countAt, calltreePop_valueAt? h]
  split
  · cases ct.root.valueAt? p <;> exact ⟨rfl, rfl⟩
  · exact ⟨rfl, rfl⟩

/-! ## Histories -/

/-- The pointers on the way from a node down to the root, as the shadow stack holds them. -/
def pathTo (p : NodePtr) : List NodePtr := p.inits.reverse

theorem pathTo_concat (p : NodePtr) (i : Nat) : pathTo (p ++ [i]) = (p ++ [i]) :: pathTo p := by
  simp [pathTo, List.inits_append]

theorem IsPath.eq_pathTo {ps : List NodePtr} (h : IsPath ps) : ps = pathTo (ps.headD []) := by
  induction ps with
  | nil => exact h.elim
  | cons p ps ih =>
      cases ps with
      | nil => cases h; rfl
      | cons q rest =>
          obtain ⟨⟨i, hi⟩, hrest⟩ := h
          have htail : q :: rest = pathTo q := ih hrest
          rw [List.headD_cons, hi, pathTo_concat, ← htail]

theorem pathTo_injective {p q : NodePtr} (h : pathTo p = pathTo q) : p = q := by
  have hhead : ∀ r : NodePtr, (pathTo r).headD [] = r := by
    intro r
    cases r using List.reverseRecOn with
    | nil => rfl
    | append_singleton r i _ => rw [pathTo_concat, List.headD_cons]
  rw [← hhead p, ← hhead q, h]

/-- An instruction with which `calltree_record` pushes. -/
def Calltree.pushes (ct : Calltree) (x : DecodedInsn) : Bool := x.atEntry && ct.prevClass.isCall

def calltreePushesStep (st : Calltree × List (List NodePtr)) (x : DecodedInsn) :
    Calltree × List (List NodePtr) :=
  (calltreeRecord st.1 x,
    if st.1.pushes x then st.2 ++ [(calltreeEnter st.1 x).stack] else st.2)

/-- The shadow stack behind each push of a stream. -/
def calltreePushes (w : List DecodedInsn) : List (List NodePtr) :=
  (w.foldl calltreePushesStep (calltreeInit, [])).2

theorem calltreePushes_run (w : List DecodedInsn) :
    (w.foldl calltreePushesStep (calltreeInit, [])).1 = calltreeRun w := by
  induction w using List.reverseRecOn with
  | nil => rfl
  | append_singleton w x ih => rw [List.foldl_concat, calltreeRun_concat, ← ih]; rfl

theorem calltreePushes_concat (w : List DecodedInsn) (x : DecodedInsn) :
    calltreePushes (w ++ [x]) =
      if (calltreeRun w).pushes x then calltreePushes w ++ [(calltreeEnter (calltreeRun w) x).stack]
      else calltreePushes w := by
  rw [calltreePushes, List.foldl_concat, calltreePushesStep, calltreePushes_run]
  rfl

/-- Siblings differ in name or binary, and the count at a pointer is the number of pushes behind which
the shadow stack was the path to it. -/
structure HoldsPushes (root : CtNode) (pushes : List (List NodePtr)) : Prop where
  distinct : ∀ p i j k, root.keyAt? (p ++ [i]) = some k → root.keyAt? (p ++ [j]) = some k → i = j
  count : ∀ p, root.countAt p = pushes.count (pathTo p)

theorem holdsPushes_init : HoldsPushes calltreeInit.root [] where
  distinct p i j k hi := by
    have hnone : calltreeInit.root.keyAt? (p ++ [i]) = none := by cases p <;> rfl
    rw [hnone] at hi; cases hi
  count p := by cases p <;> rfl

theorem HoldsPushes.push {ct ct' : Calltree} {pushes : List (List NodePtr)} {name binary : StrPtr} {i : Nat}
    (h : HoldsPushes ct.root pushes) (hp : IsPath ct.stack) (hpush : Pushed ct ct' name binary i) :
    HoldsPushes ct'.root (pushes ++ [ct'.stack]) where
  distinct p j k key hj hk := by
    have hsame : ∀ q l, ct'.root.keyAt? (q ++ [l]) = some key →
        q ++ [l] = ct.stack.headD [] ++ [i] ∧ key = (name, binary) ∨ ct.root.keyAt? (q ++ [l]) = some key := by
      intro q l hl
      rw [hpush.key] at hl
      split at hl
      · exact Or.inl ⟨‹_›, (Option.some.inj hl).symm⟩
      · exact Or.inr hl
    -- A sibling of the child pushed that has its key was the child found.
    have hself : ∀ q l m, q ++ [l] = ct.stack.headD [] ++ [i] → key = (name, binary) →
        ct.root.keyAt? (q ++ [m]) = some key → l = m := by
      intro q l m hl hkey hm
      obtain ⟨rfl, hli⟩ := List.append_inj' hl rfl
      obtain rfl := List.singleton_inj.mp hli
      subst hkey
      exact h.distinct _ _ _ _ (hpush.found m hm) hm
    rcases hsame p j hj with ⟨hj', hkey⟩ | hj'
    · rcases hsame p k hk with ⟨hk', _⟩ | hk'
      · exact List.singleton_inj.mp (List.append_cancel_left (hj'.trans hk'.symm))
      · exact hself p j k hj' hkey hk'
    · rcases hsame p k hk with ⟨hk', hkey⟩ | hk'
      · exact (hself p k j hk' hkey hj').symm
      · exact h.distinct p j k key hj' hk'
  count p := by
    have hstack : ct'.stack = pathTo (ct.stack.headD [] ++ [i]) := by
      rw [hpush.stack, pathTo_concat, ← hp.eq_pathTo]
    rw [hpush.count, h.count, List.count_append, List.count_singleton, hstack]
    congr 1
    by_cases hpi : p = ct.stack.headD [] ++ [i]
    · simp [hpi]
    · have hne : ¬ pathTo (ct.stack.headD [] ++ [i]) = pathTo p := fun he => hpi (pathTo_injective he).symm
      rw [if_neg hpi, if_neg (by simpa only [beq_iff_eq] using hne)]

theorem HoldsPushes.congr {root root' : CtNode} {pushes : List (List NodePtr)} (h : HoldsPushes root pushes)
    (hread : ∀ p, root'.keyAt? p = root.keyAt? p ∧ root'.countAt p = root.countAt p) :
    HoldsPushes root' pushes where
  distinct p i j k hi hj := by
    rw [(hread _).1] at hi hj
    exact h.distinct p i j k hi hj
  count p := by rw [(hread p).2, h.count]

theorem calltreeRun_holdsPushes (w : List DecodedInsn) :
    HoldsPushes (calltreeRun w).root (calltreePushes w) := by
  induction w using List.reverseRecOn with
  | nil => exact holdsPushes_init
  | append_singleton w x ih =>
      have hv := calltreeRun_valid w
      have hve := calltreeEnter_valid hv x
      have henter : HoldsPushes (calltreeEnter (calltreeRun w) x).root (calltreePushes (w ++ [x])) := by
        rw [calltreePushes_concat]
        unfold calltreeEnter Calltree.pushes
        by_cases hx : x.atEntry = true ∧ (calltreeRun w).prevClass.isCall = true
        · obtain ⟨s, hs, _⟩ := atEntry_iff.mp hx.1
          obtain ⟨i, hpush⟩ := calltreePush_pushed hv s x.tsc
          rw [if_pos hx, if_pos (by rw [hx.1, hx.2]; rfl), hs]
          exact ih.push hv.1 hpush
        · rw [if_neg hx, if_neg (by simpa using hx)]
          exact ih
      rw [calltreeRun_concat, calltreeRecord]
      by_cases hr : x.iclass.isReturn = true
      · rw [if_pos hr]
        exact henter.congr (calltreePop_read hve x.tsc)
      · rw [if_neg hr]
        exact henter

/-- `stack[i]`. -/
def Calltree.stackAt? (ct : Calltree) (i : Nat) : Option NodePtr := ct.stack.reverse[i]?

/-- The stack leads from the root to a node, each time to a child, siblings differ in name or binary, and
every node counts the pushes behind which the shadow stack was the path to it. -/
structure Calltree.IsTrieOf (ct : Calltree) (pushes : List (List NodePtr)) : Prop where
  root : ct.stackAt? 0 = some []
  child : ∀ i, i < ct.depth → ∃ p j n, ct.stackAt? i = some p ∧ ct.stackAt? (i + 1) = some (p ++ [j]) ∧
    ct.root.get? (p ++ [j]) = some n
  distinct : ∀ p n, ct.root.get? p = some n → (n.children.map fun c => c.value.key).Nodup
  count : ∀ p n, ct.root.get? p = some n → n.value.count = pushes.count (pathTo p)

theorem Calltree.Valid.depth {ct : Calltree} (h : ct.Valid) : ct.depth = (ct.stack.headD []).length := by
  have hlen := congrArg List.length h.1.eq_pathTo
  rw [pathTo, List.length_reverse, List.length_inits] at hlen
  rw [Calltree.depth, hlen, Nat.add_sub_cancel]

theorem Calltree.Valid.stackAt? {ct : Calltree} (h : ct.Valid) {i : Nat} (hi : i ≤ ct.depth) :
    ct.stackAt? i = some ((ct.stack.headD []).take i) := by
  have hinits : ct.stack.reverse = (ct.stack.headD []).inits :=
    (congrArg List.reverse h.1.eq_pathTo).trans (List.reverse_reverse _)
  have hlt : i < (ct.stack.headD []).inits.length := by
    rw [List.length_inits, ← h.depth]
    exact Nat.lt_succ_of_le hi
  rw [Calltree.stackAt?, hinits, List.getElem?_eq_getElem hlt, List.getElem_inits]

theorem HoldsPushes.isTrieOf {ct : Calltree} {pushes : List (List NodePtr)} (h : HoldsPushes ct.root pushes)
    (hv : ct.Valid) : ct.IsTrieOf pushes where
  root := hv.stackAt? (Nat.zero_le _)
  child i hi := by
    have hlt : i < (ct.stack.headD []).length := hv.depth ▸ hi
    have hnext : (ct.stack.headD []).take (i + 1) = (ct.stack.headD []).take i ++ [(ct.stack.headD [])[i]] :=
      (List.take_append_getElem hlt).symm
    obtain ⟨n, hn⟩ := hv.2
    rw [← List.take_append_drop (i + 1) (ct.stack.headD []), hnext] at hn
    obtain ⟨m, hm⟩ := RoseTree.get?_of_append hn
    exact ⟨_, _, m, hv.stackAt? (Nat.le_of_lt hi), (hv.stackAt? hi).trans (congrArg some hnext), hm⟩
  distinct p n hn := by
    rw [List.nodup_iff_getElem?_ne_getElem?]
    intro i j hij hj he
    have hread : ∀ l, ct.root.keyAt? (p ++ [l]) = (n.children.map fun c => c.value.key)[l]? := by
      intro l
      rw [CtNode.keyAt?, RoseTree.valueAt?_append_of hn, RoseTree.valueAt?_singleton, List.getElem?_map,
        Option.map_map]
      rfl
    have hkey : (n.children.map fun c => c.value.key)[j]? = some _ := List.getElem?_eq_getElem hj
    exact Nat.ne_of_lt hij (h.distinct p i j _ ((hread i).trans (he.trans hkey)) ((hread j).trans hkey))
  count p n hn := by
    rw [← h.count, CtNode.countAt, RoseTree.valueAt?_eq_some.mpr ⟨n, hn, rfl⟩]
    rfl

end ObservableBSD.Decode
