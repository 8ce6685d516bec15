import ObservableBSD.Decode.Callers

/-!
# Calls in the callers view

The calls that the view reports for a name and a binary are the calls counted at the tree nodes with
these strings.
-/

namespace ObservableBSD.Decode

open Base

def sameText (name binary : CString) (n b : StrPtr) : Bool := n.text = name && b.text = binary

theorem totalCallsOf_callersFindOrAdd {name binary : CString} (funcs : List FuncSummary)
    (n b : StrPtr) {update : FuncSummary → FuncSummary} (k : Nat)
    (hname : ∀ f, (update f).name = f.name) (hbinary : ∀ f, (update f).binary = f.binary)
    (hcalls : ∀ f, (update f).totalCalls = f.totalCalls + k) :
    totalCallsOf (callersFindOrAdd funcs n b update) name binary =
      totalCallsOf funcs name binary + if sameText name binary n b then k else 0 := by
  have hkey : ∀ f, (update f).key = f.key := by
    intro f; simp [FuncSummary.key, hname, hbinary]
  unfold totalCallsOf callersFindOrAdd
  rw [lookupKey_upsert (by rfl) hkey]
  by_cases h : (name, binary) = (n.text, b.text)
  · obtain ⟨rfl, rfl⟩ := Prod.mk.inj h
    cases hl : lookupKey FuncSummary.key (n.text, b.text) funcs <;> simp [sameText, hcalls]
  · have hs : sameText name binary n b = false := by
      rw [Prod.mk.injEq] at h
      simp only [sameText, Bool.and_eq_false_iff, decide_eq_false_iff_not]
      by_cases hn : n.text = name
      · exact Or.inr fun hb => h ⟨hn.symm, hb.symm⟩
      · exact Or.inl hn
    simp [h, hs]

theorem totalCallsOf_ctCollectNode (name binary : CString) (parent : Option CtData) (d : CtData)
    (funcs : List FuncSummary) :
    totalCallsOf (ctCollectNode parent d funcs) name binary =
      totalCallsOf funcs name binary + ctCalls (sameText name binary) d :=
  totalCallsOf_callersFindOrAdd funcs d.name d.binary d.count (fun _ => rfl) (fun _ => rfl)
    (fun _ => rfl)

theorem totalCallsOf_ctCollectCallee (name binary : CString) (d child : CtData)
    (funcs : List FuncSummary) :
    totalCallsOf (ctCollectCallee d child funcs) name binary = totalCallsOf funcs name binary := by
  have h : totalCallsOf (ctCollectCallee d child funcs) name binary =
      totalCallsOf funcs name binary + if sameText name binary d.name d.binary then 0 else 0 :=
    totalCallsOf_callersFindOrAdd funcs d.name d.binary 0 (fun _ => rfl) (fun _ => rfl) (fun _ => rfl)
  simpa using h

mutual
theorem totalCallsOf_ctCollectEdges (name binary : CString) (parent : Option CtData) :
    (n : CtNode) → (funcs : List FuncSummary) →
    totalCallsOf (ctCollectEdges parent n funcs) name binary =
      totalCallsOf funcs name binary + n.sumCount (sameText name binary)
  | .node d cs, funcs => by
      rw [ctCollectEdges, totalCallsOf_ctCollectChildren name binary d cs,
        totalCallsOf_ctCollectNode, CtNode.sumCount, RoseTree.sumBy, Nat.add_assoc]

theorem totalCallsOf_ctCollectChildren (name binary : CString) (d : CtData) :
    (cs : List CtNode) → (funcs : List FuncSummary) →
    totalCallsOf (ctCollectChildren d cs funcs) name binary =
      totalCallsOf funcs name binary + RoseTree.sumByList (ctCalls (sameText name binary)) cs
  | [], funcs => by simp [ctCollectChildren, RoseTree.sumByList]
  | c :: cs, funcs => by
      rw [ctCollectChildren, totalCallsOf_ctCollectChildren name binary d cs,
        totalCallsOf_ctCollectEdges name binary (some d) c, totalCallsOf_ctCollectCallee,
        CtNode.sumCount, RoseTree.sumByList, Nat.add_assoc]
end

/-- The callers view reports the calls counted at the nodes of that name and binary. -/
theorem totalCallsOf_callersView (ct : Calltree) (name binary : CString) :
    totalCallsOf (callersView ct) name binary = ct.root.sumCount (sameText name binary) := by
  rw [callersView, totalCallsOf_ctCollectEdges]
  simp [totalCallsOf, lookupKey]

end ObservableBSD.Decode
