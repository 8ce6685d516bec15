import Mathlib.Algebra.BigOperators.Group.Finset.Piecewise
import ObservableBSD.Base.TreeWeight
import ObservableBSD.Base.Word
import ObservableBSD.Decode.CallClock
import ObservableBSD.Decode.Lemmas.Flow
import ObservableBSD.Decode.Lemmas.Trie

/-!
# Time in the call tree

The time that a node has, together with the time for which it is open, is never changed by a push or a pop. It covers
that of its children: only one of them is open at a time, and only while the node is.
-/

namespace ObservableBSD.Decode

open Base

/-! ## The stack -/

theorem concat_prefix_iff {p q : NodePtr} {i : Nat} : p ++ [i] <+: q ↔ p <+: q ∧ q[p.length]? = some i := by
  constructor
  · rintro ⟨r, rfl⟩
    exact ⟨⟨[i] ++ r, by simp⟩, by simp⟩
  · rintro ⟨⟨r, rfl⟩, hi⟩
    cases r with
    | nil => simp at hi
    | cons j r =>
        obtain rfl : j = i := by simpa using hi
        exact ⟨r, by simp⟩

theorem mem_pathTo {p q : NodePtr} : p ∈ pathTo q ↔ p <+: q := by
  rw [pathTo, List.mem_reverse, List.mem_inits]

theorem Calltree.Valid.mem_stack {ct : Calltree} (h : ct.Valid) {p : NodePtr} :
    p ∈ ct.stack ↔ p <+: ct.stack.headD [] := by
  rw [← mem_pathTo, ← h.1.eq_pathTo]

theorem Calltree.Valid.valueAt? {ct : Calltree} (h : ct.Valid) {p : NodePtr} (hp : p ∈ ct.stack) :
    ∃ d, ct.root.valueAt? p = some d := by
  obtain ⟨r, hr⟩ := h.mem_stack.1 hp
  obtain ⟨n, hn⟩ := h.2
  rw [← hr] at hn
  obtain ⟨m, hm⟩ := RoseTree.get?_of_append hn
  exact ⟨m.value, RoseTree.valueAt?_eq_some.2 ⟨m, hm, rfl⟩⟩

/-! ## Spans -/

/-- The TSC at which a node on the stack was entered. The root is entered with the first instruction. -/
def openSince (first : Nat) (p : NodePtr) (d : CtData) : Nat := if p = [] then first else d.entryTsc.toNat

/-- The time of the node at `p`, with the time for which it is open. -/
def Calltree.span (first now : Nat) (ct : Calltree) (p : NodePtr) : Nat :=
  match ct.root.valueAt? p with
  | none => 0
  | some d => d.totalTsc.toNat + if p ∈ ct.stack then now - openSince first p d else 0

theorem Calltree.span_of_value {ct : Calltree} {p : NodePtr} {d : CtData} (hd : ct.root.valueAt? p = some d)
    (first now : Nat) :
    ct.span first now p = d.totalTsc.toNat + if p ∈ ct.stack then now - openSince first p d else 0 := by
  unfold Calltree.span
  rw [hd]

/-- Spans nest: the span of a node covers those of its children. -/
structure SpansNest (first now : Nat) (ct : Calltree) : Prop where
  valid : ct.Valid
  root : ∃ d, ct.root.valueAt? [] = some d ∧ d.totalTsc = 0
  since : ∀ p ∈ ct.stack, ∀ d, ct.root.valueAt? p = some d →
    openSince first p d ≤ now ∧ (p ≠ [] → 0 < d.entryTsc)
  children : ∀ p (S : Finset Nat), ∑ i ∈ S, ct.span first now (p ++ [i]) ≤ ct.span first now p

theorem SpansNest.weighs {first now : Nat} {ct : Calltree} (h : SpansNest first now ct) :
    RoseTree.Weighs (fun d => d.totalTsc.toNat) ct.root (ct.span first now) where
  value p a ha := by
    rw [Calltree.span_of_value ha]
    exact Nat.le_add_right _ _
  children := h.children

theorem SpansNest.span_root {first now : Nat} {ct : Calltree} (h : SpansNest first now ct) :
    ct.span first now [] = now - first := by
  obtain ⟨d, hd, htotal⟩ := h.root
  have hmem : [] ∈ ct.stack := h.valid.mem_stack.2 List.nil_prefix
  rw [Calltree.span_of_value hd, if_pos hmem, htotal, openSince, if_pos rfl]
  exact Nat.zero_add _

/-- Another tree and stack with the same spans. -/
theorem SpansNest.of_span_eq {first now : Nat} {ct ct' : Calltree} (h : SpansNest first now ct) (hvalid : ct'.Valid)
    (hroot : ct'.root.valueAt? [] = ct.root.valueAt? [])
    (hsince : ∀ p ∈ ct'.stack, ∀ d, ct'.root.valueAt? p = some d →
      openSince first p d ≤ now ∧ (p ≠ [] → 0 < d.entryTsc))
    (hspan : ∀ p, ct'.span first now p = ct.span first now p) : SpansNest first now ct' where
  valid := hvalid
  root := by rw [hroot]; exact h.root
  since := hsince
  children p S := by
    simp only [hspan]
    exact h.children p S

/-! ## Time passes -/

theorem SpansNest.span_later {first now now' : Nat} {ct : Calltree} (h : SpansNest first now ct) (hle : now ≤ now')
    (p : NodePtr) : ct.span first now' p = ct.span first now p + if p ∈ ct.stack then now' - now else 0 := by
  cases hd : ct.root.valueAt? p with
  | none =>
      have hmem : p ∉ ct.stack := fun hmem => by
        obtain ⟨d, hd'⟩ := h.valid.valueAt? hmem
        rw [hd] at hd'
        cases hd'
      simp [Calltree.span, hd, hmem]
  | some d =>
      rw [Calltree.span_of_value hd, Calltree.span_of_value hd]
      by_cases hmem : p ∈ ct.stack
      · have hsince := (h.since p hmem d hd).1
        rw [if_pos hmem, if_pos hmem, if_pos hmem]
        omega
      · rw [if_neg hmem, if_neg hmem, if_neg hmem, Nat.add_zero]

/-- At most one child of a node is open, and only while the node is. -/
theorem Calltree.Valid.sum_open_le {ct : Calltree} (h : ct.Valid) (p : NodePtr) (S : Finset Nat) (c : Nat) :
    ∑ i ∈ S, (if p ++ [i] ∈ ct.stack then c else 0) ≤ if p ∈ ct.stack then c else 0 := by
  by_cases hp : p ∈ ct.stack
  · have hchild : ∀ i, p ++ [i] ∈ ct.stack ↔ (ct.stack.headD [])[p.length]? = some i := by
      intro i
      rw [h.mem_stack, concat_prefix_iff, ← h.mem_stack]
      exact and_iff_right hp
    simp only [hchild, if_pos hp]
    cases (ct.stack.headD [])[p.length]? with
    | none => simp
    | some j =>
        simp only [Option.some.injEq, Finset.sum_ite_eq]
        split
        · exact Nat.le_refl c
        · exact Nat.zero_le c
  · have hchild : ∀ i, p ++ [i] ∉ ct.stack := by
      intro i hi
      exact hp (h.mem_stack.2 (concat_prefix_iff.1 (h.mem_stack.1 hi)).1)
    simp [hchild, hp]

theorem SpansNest.later {first now now' : Nat} {ct : Calltree} (h : SpansNest first now ct) (hle : now ≤ now') :
    SpansNest first now' ct where
  valid := h.valid
  root := h.root
  since p hp d hd := ⟨Nat.le_trans (h.since p hp d hd).1 hle, (h.since p hp d hd).2⟩
  children p S := by
    simp only [h.span_later hle, Finset.sum_add_distrib]
    exact Nat.add_le_add (h.children p S) (h.valid.sum_open_le p S _)

/-! ## Pushes and pops -/

theorem ctLeave_total {tsc : UInt64} {d : CtData} (hpos : 0 < d.entryTsc) (hle : d.entryTsc ≤ tsc)
    (hfits : d.totalTsc.toNat + (tsc.toNat - d.entryTsc.toNat) < UInt64.size) :
    (ctLeave tsc d).totalTsc.toNat = d.totalTsc.toNat + (tsc.toNat - d.entryTsc.toNat) := by
  have htsc : 0 < tsc := UInt64.lt_of_lt_of_le hpos hle
  by_cases hlt : d.entryTsc < tsc
  · have htotal : (ctLeave tsc d).totalTsc = d.totalTsc + (tsc - d.entryTsc) := if_pos ⟨htsc, hpos, hlt⟩
    have hsub : (tsc - d.entryTsc).toNat = tsc.toNat - d.entryTsc.toNat := UInt64.toNat_sub_of_le _ _ hle
    rw [htotal, toNat_add_of_lt (by rw [hsub]; exact hfits), hsub]
  · have htotal : (ctLeave tsc d).totalTsc = d.totalTsc := if_neg fun h => hlt h.2.2
    have heq : d.entryTsc = tsc := UInt64.le_antisymm hle (UInt64.not_lt.1 hlt)
    rw [htotal, heq, Nat.sub_self, Nat.add_zero]

theorem SpansNest.push {first : Nat} {tsc : UInt64} {ct : Calltree} (h : SpansNest first tsc.toNat ct)
    (hpos : 0 < tsc) (s : SymEntry) : SpansNest first tsc.toNat (calltreePush ct (some s) tsc) := by
  obtain ⟨i, d, hstack, _, hold, hread, _⟩ := calltreePush_read h.valid s tsc
  have hvalid := calltreePush_valid h.valid (some s) tsc
  have hne : ct.stack.headD [] ++ [i] ≠ [] := by simp
  have hnew : ct.stack.headD [] ++ [i] ∉ ct.stack := fun hmem => by
    have hlen := (h.valid.mem_stack.1 hmem).length_le
    simp at hlen
  refine h.of_span_eq hvalid (by rw [hread, if_neg hne.symm]) (fun p hp e he => ?_) fun p => ?_
  · rw [hread] at he
    split at he
    · rename_i hpi
      cases he
      rw [hpi, openSince, if_neg hne]
      exact ⟨Nat.le_refl _, fun _ => hpos⟩
    · rename_i hpi
      rw [hstack, List.mem_cons] at hp
      exact h.since p (hp.resolve_left hpi) e he
  · by_cases hpi : p = ct.stack.headD [] ++ [i]
    · have hafter : (calltreePush ct (some s) tsc).root.valueAt? p = some (ctEnter tsc d) := by rw [hread, if_pos hpi]
      have hbefore : ct.span first tsc.toNat p = d.totalTsc.toNat := by
        unfold Calltree.span
        rw [hpi, hold]
        cases ct.root.valueAt? (ct.stack.headD [] ++ [i]) with
        | none => rfl
        | some e => simp only [if_neg hnew, Nat.add_zero, Option.getD_some]
      rw [hbefore, Calltree.span_of_value hafter, hpi, openSince, if_neg hne]
      simp [ctEnter]
    · have hmem : p ∈ (calltreePush ct (some s) tsc).stack ↔ p ∈ ct.stack := by
        rw [hstack, List.mem_cons]
        exact or_iff_right hpi
      simp only [Calltree.span, hread, if_neg hpi, hmem]

theorem SpansNest.pop {first : Nat} {tsc : UInt64} {ct : Calltree} (h : SpansNest first tsc.toNat ct) :
    SpansNest first tsc.toNat (calltreePop ct tsc) := by
  by_cases hd : 0 < ct.depth
  · have hread := calltreePop_valueAt? h.valid tsc
    simp only [hd, true_and] at hread
    have hstack : (calltreePop ct tsc).stack = ct.stack.tail := by
      unfold calltreePop
      rw [if_pos hd]
    have hne : ct.stack.headD [] ≠ [] := by
      intro hnil
      rw [h.valid.depth, hnil] at hd
      exact Nat.lt_irrefl 0 hd
    have hpath : ct.stack = pathTo (ct.stack.headD []) := h.valid.1.eq_pathTo
    have hcons : ct.stack = ct.stack.headD [] :: ct.stack.tail := by
      cases hs : ct.stack with
      | nil => exact absurd hs h.valid.1.ne_nil
      | cons p ps => rfl
    have htop : ct.stack.headD [] ∉ ct.stack.tail := by
      obtain ⟨r, j, hr⟩ := (List.eq_nil_or_concat' (ct.stack.headD [])).resolve_left hne
      have htail : ct.stack.tail = pathTo r := by rw [hpath, hr, pathTo_concat, List.tail_cons]
      rw [htail, mem_pathTo, hr]
      intro hpre
      have hlen := hpre.length_le
      simp at hlen
    have hmem : ∀ p, p ≠ ct.stack.headD [] → (p ∈ ct.stack.tail ↔ p ∈ ct.stack) := by
      intro p hp
      rw [hcons, List.mem_cons, List.tail_cons]
      exact (or_iff_right hp).symm
    refine h.of_span_eq (calltreePop_valid h.valid tsc) (by rw [hread, if_neg hne.symm])
      (fun p hp e he => ?_) fun p => ?_
    · rw [hstack] at hp
      have hp' : p ≠ ct.stack.headD [] := fun heq => htop (heq ▸ hp)
      rw [hread, if_neg hp'] at he
      exact h.since p ((hmem p hp').1 hp) e he
    · by_cases hp : p = ct.stack.headD []
      · subst hp
        have hin : ct.stack.headD [] ∈ ct.stack := h.valid.mem_stack.2 (List.prefix_refl _)
        obtain ⟨d, hdv⟩ := h.valid.valueAt? hin
        have hspan := Calltree.span_of_value hdv first tsc.toNat
        obtain ⟨hle, hpos⟩ := h.since _ hin d hdv
        have hroot := Nat.le_trans (h.weighs.le_root (ct.stack.headD [])) (Nat.le_of_eq h.span_root)
        have hbound := UInt64.toNat_lt_size tsc
        rw [openSince, if_neg hne] at hle
        rw [if_pos hin, openSince, if_neg hne] at hspan
        have hafter : (calltreePop ct tsc).root.valueAt? (ct.stack.headD []) = some (ctLeave tsc d) := by
          rw [hread, if_pos rfl, hdv, Option.map_some]
        rw [Calltree.span_of_value hafter, hstack, if_neg htop, Nat.add_zero,
          ctLeave_total (hpos hne) (UInt64.le_iff_toNat_le.2 hle) (by omega), hspan]
      · simp only [Calltree.span, hread, if_neg hp, hstack, hmem p hp]
  · have hid : calltreePop ct tsc = ct := by
      unfold calltreePop
      exact if_neg hd
    rw [hid]
    exact h

/-! ## Runs -/

theorem SpansNest.of_same {first now : Nat} {ct ct' : Calltree} (h : SpansNest first now ct)
    (hroot : ct'.root = ct.root) (hstack : ct'.stack = ct.stack) : SpansNest first now ct' := by
  cases ct
  cases ct'
  cases hroot
  cases hstack
  exact ⟨h.valid, h.root, h.since, h.children⟩

theorem SpansNest.record {first now : Nat} {ct : Calltree} (h : SpansNest first now ct) {x : DecodedInsn}
    (hpos : 0 < x.tsc) (hle : now ≤ x.tsc.toNat) : SpansNest first x.tsc.toNat (calltreeRecord ct x) := by
  have henter : SpansNest first x.tsc.toNat (calltreeEnter ct x) := by
    unfold calltreeEnter
    split
    · rename_i hx
      obtain ⟨s, hs, _⟩ := atEntry_iff.1 hx.1
      rw [hs]
      exact (h.later hle).push hpos s
    · exact h.later hle
  unfold calltreeRecord
  split
  · exact henter.pop.of_same rfl rfl
  · exact henter.of_same rfl rfl

theorem spansNest_init (now : Nat) : SpansNest now now calltreeInit where
  valid := calltreeInit_valid
  root := ⟨_, rfl, rfl⟩
  since p hp d hd := by
    obtain rfl : p = [] := List.mem_singleton.1 hp
    exact ⟨Nat.le_refl now, fun h => absurd rfl h⟩
  children p S := by
    have hnone : ∀ i, calltreeInit.span now now (p ++ [i]) = 0 := by
      intro i
      have hvalue : calltreeInit.root.valueAt? (p ++ [i]) = none := by cases p <;> rfl
      unfold Calltree.span
      rw [hvalue]
    simp [hnone]

theorem spansNest_run {w : List DecodedInsn} (h : TscNondecreasing w) :
    SpansNest (firstTsc w).toNat (lastTsc w).toNat (calltreeRun w) := by
  induction w using List.reverseRecOn with
  | nil => exact spansNest_init 0
  | append_singleton w x ih =>
      have hpos : 0 < x.tsc := h.1 x (by simp)
      have hlast : lastTsc (w ++ [x]) = x.tsc := by
        rw [lastTsc, List.getLast?_concat, Option.map_some, Option.getD_some]
      rw [calltreeRun_concat, hlast]
      cases w with
      | nil => exact (spansNest_init x.tsc.toNat).record hpos (Nat.le_refl _)
      | cons y w =>
          have hle : lastTsc (y :: w) ≤ x.tsc := by
            rw [lastTsc, List.getLast?_eq_some_getLast (List.cons_ne_nil y w), Option.map_some, Option.getD_some]
            exact (List.pairwise_append.1 h.2).2.2 _ (List.getLast_mem _) x (List.mem_singleton_self x)
          exact (ih h.of_append).record hpos (UInt64.le_iff_toNat_le.1 hle)

/-! ## The callers view -/

def viewTime (k : CString × CString) (funcs : List FuncSummary) : UInt64 :=
  ((lookupKey FuncSummary.key k funcs).map FuncSummary.totalTsc).getD 0

/-- The time of a node, if it is one of the function `k`. -/
def nodeTime (k : CString × CString) (d : CtData) : Nat := if d.textKey = k then d.totalTsc.toNat else 0

theorem viewTime_callersFindOrAdd {update : FuncSummary → FuncSummary} (c : UInt64) (d : CtData)
    (hkey : ∀ f, (update f).key = f.key) (htime : ∀ f, (update f).totalTsc = f.totalTsc + c)
    (k : CString × CString) (funcs : List FuncSummary) :
    viewTime k (callersFindOrAdd funcs d.name d.binary update) =
      if d.textKey = k then viewTime k funcs + c else viewTime k funcs := by
  unfold viewTime
  rw [lookupKey_callersFindOrAdd d hkey]
  by_cases hk : k = d.textKey
  · rw [if_pos hk, if_pos hk.symm, Option.map_some, Option.getD_some, htime, hk]
    cases lookupKey FuncSummary.key d.textKey funcs <;> rfl
  · rw [if_neg hk, if_neg (Ne.symm hk)]

theorem viewTime_ctCollectNode (k : CString × CString) (parent : Option CtData) (d : CtData)
    (funcs : List FuncSummary) :
    (viewTime k (ctCollectNode parent d funcs)).toNat ≤ (viewTime k funcs).toNat + nodeTime k d := by
  rw [ctCollectNode, viewTime_callersFindOrAdd d.totalTsc d (by intro; rfl) (by intro; rfl), nodeTime]
  split
  · rw [UInt64.toNat_add]
    exact Nat.mod_le _ _
  · exact Nat.le_refl _

theorem viewTime_ctCollectCallee (k : CString × CString) (d child : CtData) (funcs : List FuncSummary) :
    viewTime k (ctCollectCallee d child funcs) = viewTime k funcs := by
  rw [ctCollectCallee, viewTime_callersFindOrAdd 0 d (by intro; rfl)
    (by intro f; exact (UInt64.add_zero f.totalTsc).symm),
    UInt64.add_zero, ite_self]

mutual
theorem viewTime_ctCollectEdges (k : CString × CString) (parent : Option CtData) : (n : CtNode) →
    (funcs : List FuncSummary) →
    (viewTime k (ctCollectEdges parent n funcs)).toNat ≤ (viewTime k funcs).toNat + n.sumBy (nodeTime k)
  | .node d cs, funcs => by
      have hnode := viewTime_ctCollectNode k parent d funcs
      have hchildren := viewTime_ctCollectChildren k d cs (ctCollectNode parent d funcs)
      rw [ctCollectEdges, RoseTree.sumBy]
      omega

theorem viewTime_ctCollectChildren (k : CString × CString) (d : CtData) : (cs : List CtNode) →
    (funcs : List FuncSummary) →
    (viewTime k (ctCollectChildren d cs funcs)).toNat ≤ (viewTime k funcs).toNat + RoseTree.sumByList (nodeTime k) cs
  | [], funcs => Nat.le_refl _
  | c :: cs, funcs => by
      have hchild := viewTime_ctCollectEdges k (some d) c (ctCollectCallee d c.value funcs)
      have hrest := viewTime_ctCollectChildren k d cs (ctCollectEdges (some d) c (ctCollectCallee d c.value funcs))
      rw [viewTime_ctCollectCallee] at hchild
      rw [ctCollectChildren, RoseTree.sumByList]
      omega
end

/-- The time that the view reports is that of the nodes of the function at most. -/
theorem totalTsc_callersView_le (ct : Calltree) {f : FuncSummary} (hf : f ∈ callersView ct) :
    f.totalTsc.toNat ≤ ct.root.sumBy (nodeTime f.key) := by
  have hview := viewTime_ctCollectEdges f.key none ct.root []
  have hfound : viewTime f.key (callersView ct) = f.totalTsc := by
    unfold viewTime
    rw [lookupKey_of_mem (keysDistinct_callersView ct).1 hf]
    rfl
  rw [← callersView, hfound] at hview
  refine Nat.le_trans hview (Nat.le_of_eq ?_)
  exact Nat.zero_add _

end ObservableBSD.Decode
