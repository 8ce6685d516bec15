import ObservableBSD.Decode.Lemmas.Callers

/-!
# Flow in the callers view

Every edge of the tree is entered twice, in the callee list of its caller and in the caller list of its callee.
Both lists see the edges in the same order.
-/

namespace ObservableBSD.Decode

open Base

/-! ## One list of edges -/

def CtData.textKey (d : CtData) : CString × CString := (d.name.text, d.binary.text)

/-- Calls and time. -/
abbrev Flow := Nat × UInt64

/-- The flow of the edge to or from `k`, if there is one. -/
def flowOf (k : CString × CString) (edges : List CallerEdge) : Option Flow :=
  (lookupKey CallerEdge.key k edges).map fun e => (e.count, e.tsc)

def CallerEdge.add (d : CtData) (e : CallerEdge) : CallerEdge :=
  { e with count := e.count + d.count, tsc := e.tsc + d.totalTsc }

/-- The flow with that of the node `d` added to it. -/
def addFlow (d : CtData) (total : Option Flow) : Option Flow :=
  some ((total.getD (0, 0)).1 + d.count, (total.getD (0, 0)).2 + d.totalTsc)

theorem flowOf_callersAddEdge (k : CString × CString) (edges : List CallerEdge) (other d : CtData) :
    flowOf k (callersAddEdge edges other.name other.binary d.count d.totalTsc) =
      if k = other.textKey then addFlow d (flowOf k edges) else flowOf k edges := by
  have hlookup : lookupKey CallerEdge.key k (callersAddEdge edges other.name other.binary d.count d.totalTsc) =
      if k = other.textKey then
        some (((lookupKey CallerEdge.key other.textKey edges).getD ⟨other.name, other.binary, 0, 0⟩).add d)
      else lookupKey CallerEdge.key k edges := lookupKey_upsert (by rfl) (by intro; rfl) edges k
  unfold flowOf
  rw [hlookup]
  split
  · rename_i h
    rw [h]
    cases lookupKey CallerEdge.key other.textKey edges <;> rfl
  · rfl

/-! ## The lists of a function -/

/-- The callers or the callees that the view lists for `k`. -/
def edgesOf (lists : FuncSummary → List CallerEdge) (k : CString × CString) (funcs : List FuncSummary) :
    List CallerEdge :=
  ((lookupKey FuncSummary.key k funcs).map lists).getD []

/-- The function of a node is updated, and is added in front of that when the view does not have it. -/
theorem lookupKey_callersFindOrAdd {update : FuncSummary → FuncSummary} (d : CtData)
    (hkey : ∀ f, (update f).key = f.key) (k : CString × CString) (funcs : List FuncSummary) :
    lookupKey FuncSummary.key k (callersFindOrAdd funcs d.name d.binary update) =
      if k = d.textKey then
        some (update ((lookupKey FuncSummary.key d.textKey funcs).getD { name := d.name, binary := d.binary }))
      else lookupKey FuncSummary.key k funcs := lookupKey_upsert (by rfl) hkey funcs k

theorem edgesOf_callersFindOrAdd {lists : FuncSummary → List CallerEdge} {update : FuncSummary → FuncSummary}
    (add : List CallerEdge → List CallerEdge) (d : CtData) (hnew : lists { name := d.name, binary := d.binary } = [])
    (hkey : ∀ f, (update f).key = f.key) (hlists : ∀ f, lists (update f) = add (lists f)) (k : CString × CString)
    (funcs : List FuncSummary) :
    edgesOf lists k (callersFindOrAdd funcs d.name d.binary update) =
      if k = d.textKey then add (edgesOf lists k funcs) else edgesOf lists k funcs := by
  unfold edgesOf
  rw [lookupKey_callersFindOrAdd d hkey]
  split
  · rename_i h
    rw [h, Option.map_some, Option.getD_some, hlists]
    cases lookupKey FuncSummary.key d.textKey funcs with
    | none => rw [Option.getD_none, hnew]; rfl
    | some f => rfl
  · rfl

/-- What the callee list of `a` says of `b`. -/
def calleeFlow (a b : CString × CString) (funcs : List FuncSummary) : Option Flow :=
  flowOf b (edgesOf FuncSummary.callees a funcs)

/-- What the caller list of `b` says of `a`. -/
def callerFlow (a b : CString × CString) (funcs : List FuncSummary) : Option Flow :=
  flowOf a (edgesOf FuncSummary.callers b funcs)

/-- An edge from `a` to `b` adds its flow. -/
def countEdge (a b : CString × CString) (total : Option Flow) (edge : CtData × CtData) : Option Flow :=
  if edge.1.textKey = a ∧ edge.2.textKey = b then addFlow edge.2 total else total

section

variable (a b : CString × CString) (funcs : List FuncSummary) (d : CtData)

theorem calleeFlow_ctCollectNode (parent : Option CtData) :
    calleeFlow a b (ctCollectNode parent d funcs) = calleeFlow a b funcs := by
  rw [calleeFlow, ctCollectNode, edgesOf_callersFindOrAdd id d rfl (by intro; rfl) (by intro; rfl)]
  simp [calleeFlow]

theorem callerFlow_ctCollectNode (parent : Option CtData) :
    callerFlow a b (ctCollectNode parent d funcs) =
      (parent.toList.map fun p => (p, d)).foldl (countEdge a b) (callerFlow a b funcs) := by
  cases parent with
  | none =>
      rw [callerFlow, ctCollectNode, edgesOf_callersFindOrAdd id d rfl (by intro; rfl) (by intro; rfl)]
      simp [callerFlow]
  | some p =>
      rw [callerFlow, ctCollectNode, edgesOf_callersFindOrAdd
        (fun edges => callersAddEdge edges p.name p.binary d.count d.totalTsc) d rfl (by intro; rfl) (by intro; rfl)]
      simp only [Option.toList_some, List.map_singleton, List.foldl_cons, List.foldl_nil, countEdge, callerFlow]
      by_cases hb : b = d.textKey
      · rw [if_pos hb, flowOf_callersAddEdge]
        simp [hb, eq_comm]
      · rw [if_neg hb, if_neg fun h => hb h.2.symm]

theorem calleeFlow_ctCollectCallee (child : CtData) :
    calleeFlow a b (ctCollectCallee d child funcs) = countEdge a b (calleeFlow a b funcs) (d, child) := by
  rw [calleeFlow, ctCollectCallee, edgesOf_callersFindOrAdd
    (fun edges => callersAddEdge edges child.name child.binary child.count child.totalTsc) d rfl (by intro; rfl)
    (by intro; rfl), countEdge, calleeFlow]
  by_cases ha : a = d.textKey
  · rw [if_pos ha, flowOf_callersAddEdge]
    simp [ha, eq_comm]
  · rw [if_neg ha, if_neg fun h => ha h.1.symm]

theorem callerFlow_ctCollectCallee (child : CtData) :
    callerFlow a b (ctCollectCallee d child funcs) = callerFlow a b funcs := by
  rw [callerFlow, ctCollectCallee, edgesOf_callersFindOrAdd id d rfl (by intro; rfl) (by intro; rfl)]
  simp [callerFlow]

end

mutual
theorem calleeFlow_ctCollectEdges (a b : CString × CString) (parent : Option CtData) :
    (n : CtNode) → (funcs : List FuncSummary) →
    calleeFlow a b (ctCollectEdges parent n funcs) = n.edges.foldl (countEdge a b) (calleeFlow a b funcs)
  | .node d cs, funcs => by
      rw [ctCollectEdges, calleeFlow_ctCollectChildren a b d cs, calleeFlow_ctCollectNode, RoseTree.edges]

theorem calleeFlow_ctCollectChildren (a b : CString × CString) (d : CtData) :
    (cs : List CtNode) → (funcs : List FuncSummary) →
    calleeFlow a b (ctCollectChildren d cs funcs) =
      (RoseTree.edgesBelow d cs).foldl (countEdge a b) (calleeFlow a b funcs)
  | [], funcs => by rw [ctCollectChildren, RoseTree.edgesBelow, List.foldl_nil]
  | c :: cs, funcs => by
      rw [ctCollectChildren, calleeFlow_ctCollectChildren a b d cs, calleeFlow_ctCollectEdges a b (some d) c,
        calleeFlow_ctCollectCallee, RoseTree.edgesBelow, List.foldl_cons, List.foldl_append]
end

mutual
theorem callerFlow_ctCollectEdges (a b : CString × CString) (parent : Option CtData) :
    (n : CtNode) → (funcs : List FuncSummary) →
    callerFlow a b (ctCollectEdges parent n funcs) =
      ((parent.toList.map fun p => (p, n.value)) ++ n.edges).foldl (countEdge a b) (callerFlow a b funcs)
  | .node d cs, funcs => by
      rw [ctCollectEdges, callerFlow_ctCollectChildren a b d cs, callerFlow_ctCollectNode, RoseTree.edges,
        List.foldl_append, RoseTree.value_node]

theorem callerFlow_ctCollectChildren (a b : CString × CString) (d : CtData) :
    (cs : List CtNode) → (funcs : List FuncSummary) →
    callerFlow a b (ctCollectChildren d cs funcs) =
      (RoseTree.edgesBelow d cs).foldl (countEdge a b) (callerFlow a b funcs)
  | [], funcs => by rw [ctCollectChildren, RoseTree.edgesBelow, List.foldl_nil]
  | c :: cs, funcs => by
      rw [ctCollectChildren, callerFlow_ctCollectChildren a b d cs, callerFlow_ctCollectEdges a b (some d) c,
        callerFlow_ctCollectCallee, RoseTree.edgesBelow, List.foldl_cons, List.foldl_append, List.foldl_append]
      rfl
end

/-- Both ends of an edge agree on its flow. -/
theorem calleeFlow_callersView (ct : Calltree) (a b : CString × CString) :
    calleeFlow a b (callersView ct) = callerFlow a b (callersView ct) := by
  rw [callersView, calleeFlow_ctCollectEdges, callerFlow_ctCollectEdges]
  rfl

/-! ## Sums -/

def edgeCounts (edges : List CallerEdge) : Nat := edges.foldr (fun e n => e.count + n) 0

def edgeTscs (edges : List CallerEdge) : UInt64 := edges.foldr (fun e t => e.tsc + t) 0

theorem edgeCounts_callersAddEdge (edges : List CallerEdge) (name binary : StrPtr) (count : Nat) (tsc : UInt64) :
    edgeCounts (callersAddEdge edges name binary count tsc) = edgeCounts edges + count := by
  unfold edgeCounts callersAddEdge
  refine foldr_upsert (c := (· + count)) (fun b => ?_) (fun e b => ?_) (fun e b => ?_) edges 0
  · exact Nat.zero_add b
  · exact Nat.add_right_comm e.count count b
  · exact (Nat.add_assoc e.count b count).symm

theorem edgeTscs_callersAddEdge (edges : List CallerEdge) (name binary : StrPtr) (count : Nat) (tsc : UInt64) :
    edgeTscs (callersAddEdge edges name binary count tsc) = edgeTscs edges + tsc := by
  unfold edgeTscs callersAddEdge
  refine foldr_upsert (c := (· + tsc)) (fun b => ?_) (fun e b => ?_) (fun e b => ?_) edges 0
  · exact UInt64.zero_add b
  · rw [UInt64.add_assoc, UInt64.add_comm tsc b, UInt64.add_assoc]
  · exact (UInt64.add_assoc e.tsc b tsc).symm

def viewCalls (funcs : List FuncSummary) : Nat := funcs.foldr (fun f n => f.totalCalls + n) 0

theorem viewCalls_ctCollectNode (parent : Option CtData) (d : CtData) (funcs : List FuncSummary) :
    viewCalls (ctCollectNode parent d funcs) = viewCalls funcs + d.count := by
  unfold viewCalls ctCollectNode callersFindOrAdd
  refine foldr_upsert (c := (· + d.count)) (fun b => ?_) (fun f b => ?_) (fun f b => ?_) funcs 0
  · exact Nat.zero_add b
  · exact Nat.add_right_comm f.totalCalls d.count b
  · exact (Nat.add_assoc f.totalCalls b d.count).symm

theorem viewCalls_ctCollectCallee (d child : CtData) (funcs : List FuncSummary) :
    viewCalls (ctCollectCallee d child funcs) = viewCalls funcs := by
  unfold viewCalls ctCollectCallee callersFindOrAdd
  refine foldr_upsert (c := fun n => n) (fun b => ?_) (fun f b => ?_) (fun f b => ?_) funcs 0
  · exact Nat.zero_add b
  · rfl
  · rfl

mutual
theorem viewCalls_ctCollectEdges (parent : Option CtData) : (n : CtNode) → (funcs : List FuncSummary) →
    viewCalls (ctCollectEdges parent n funcs) = viewCalls funcs + n.sumBy CtData.count
  | .node d cs, funcs => by
      rw [ctCollectEdges, viewCalls_ctCollectChildren d cs, viewCalls_ctCollectNode, RoseTree.sumBy, Nat.add_assoc]

theorem viewCalls_ctCollectChildren (d : CtData) : (cs : List CtNode) → (funcs : List FuncSummary) →
    viewCalls (ctCollectChildren d cs funcs) = viewCalls funcs + RoseTree.sumByList CtData.count cs
  | [], funcs => by rw [ctCollectChildren, RoseTree.sumByList, Nat.add_zero]
  | c :: cs, funcs => by
      rw [ctCollectChildren, viewCalls_ctCollectChildren d cs, viewCalls_ctCollectEdges (some d) c,
        viewCalls_ctCollectCallee, RoseTree.sumByList, Nat.add_assoc]
end

/-! ## Every step -/

/-- What every step below the root keeps. -/
structure StepsKeep (P : List FuncSummary → Prop) : Prop where
  node : ∀ p d funcs, P funcs → P (ctCollectNode (some p) d funcs)
  callee : ∀ d child funcs, P funcs → P (ctCollectCallee d child funcs)

mutual
theorem StepsKeep.edges {P : List FuncSummary → Prop} (hP : StepsKeep P) (p : CtData) :
    (n : CtNode) → (funcs : List FuncSummary) → P funcs → P (ctCollectEdges (some p) n funcs)
  | .node d cs, funcs, h => by
      rw [ctCollectEdges]
      exact hP.children d cs _ (hP.node p d funcs h)

theorem StepsKeep.children {P : List FuncSummary → Prop} (hP : StepsKeep P) (d : CtData) :
    (cs : List CtNode) → (funcs : List FuncSummary) → P funcs → P (ctCollectChildren d cs funcs)
  | [], funcs, h => by
      rw [ctCollectChildren]
      exact h
  | c :: cs, funcs, h => by
      rw [ctCollectChildren]
      exact hP.children d cs _ (hP.edges d c _ (hP.callee d c.value funcs h))
end

theorem StepsKeep.view {P : List FuncSummary → Prop} (hP : StepsKeep P) {ct : Calltree}
    (hroot : P (ctCollectNode none ct.root.value [])) : P (callersView ct) := by
  cases ct with
  | mk root stack prevSym prevClass =>
      cases root with
      | node d cs =>
          rw [callersView, ctCollectEdges]
          exact hP.children d cs _ hroot

/-- No function is listed twice, and none is listed twice as a caller or as a callee of one. -/
def KeysDistinct (funcs : List FuncSummary) : Prop :=
  (funcs.map FuncSummary.key).Nodup ∧
    ∀ f ∈ funcs, (f.callers.map CallerEdge.key).Nodup ∧ (f.callees.map CallerEdge.key).Nodup

theorem nodup_callersAddEdge {edges : List CallerEdge} (h : (edges.map CallerEdge.key).Nodup) (name binary : StrPtr)
    (count : Nat) (tsc : UInt64) : ((callersAddEdge edges name binary count tsc).map CallerEdge.key).Nodup :=
  nodup_upsert (by rfl) (by intro; rfl) h

theorem keysDistinct_ctCollectNode (parent : Option CtData) (d : CtData) {funcs : List FuncSummary}
    (h : KeysDistinct funcs) : KeysDistinct (ctCollectNode parent d funcs) := by
  refine ⟨nodup_upsert (by rfl) (by intro; rfl) h.1, forall_upsert ⟨List.nodup_nil, List.nodup_nil⟩
    (fun f hf => ?_) h.2⟩
  cases parent with
  | none => exact hf
  | some p => exact ⟨nodup_callersAddEdge hf.1 _ _ _ _, hf.2⟩

theorem stepsKeep_keysDistinct : StepsKeep KeysDistinct where
  node p d _ h := keysDistinct_ctCollectNode (some p) d h
  callee _ _ _ h := ⟨nodup_upsert (by rfl) (by intro; rfl) h.1,
    forall_upsert ⟨List.nodup_nil, List.nodup_nil⟩ (fun _ hf => ⟨hf.1, nodup_callersAddEdge hf.2 _ _ _ _⟩) h.2⟩

/-- Every function but the root is called as often, and for as long, as its caller list says. -/
def Accounted (root : CString × CString) (funcs : List FuncSummary) : Prop :=
  ∀ f ∈ funcs, f.key ≠ root → edgeCounts f.callers = f.totalCalls ∧ edgeTscs f.callers = f.totalTsc

theorem stepsKeep_accounted (root : CString × CString) : StepsKeep (Accounted root) where
  node p d funcs h := by
    refine forall_upsert (fun _ => ⟨rfl, rfl⟩) (fun f hf hne => ?_) h
    obtain ⟨hcalls, htsc⟩ := hf hne
    exact ⟨by rw [edgeCounts_callersAddEdge, hcalls], by rw [edgeTscs_callersAddEdge, htsc]⟩
  callee d child funcs h := forall_upsert (fun _ => ⟨rfl, rfl⟩) (fun _ hf hne => hf hne) h

theorem keysDistinct_callersView (ct : Calltree) : KeysDistinct (callersView ct) :=
  stepsKeep_keysDistinct.view (keysDistinct_ctCollectNode none ct.root.value ⟨List.nodup_nil, nofun⟩)

theorem accounted_callersView (ct : Calltree) : Accounted ct.root.value.textKey (callersView ct) := by
  have hroot : ∀ f ∈ ctCollectNode none ct.root.value [], f.key = ct.root.value.textKey :=
    forall_upsert rfl (fun _ hf => hf) nofun
  exact (stepsKeep_accounted _).view fun f hf hne => absurd (hroot f hf) hne

theorem edgesOf_key {funcs : List FuncSummary} (h : KeysDistinct funcs) {f : FuncSummary} (hf : f ∈ funcs)
    (lists : FuncSummary → List CallerEdge) : edgesOf lists f.key funcs = lists f := by
  rw [edgesOf, lookupKey_of_mem h.1 hf]
  rfl

end ObservableBSD.Decode
