import ObservableBSD.Base.Nested
import ObservableBSD.Decode.Collapsed
import ObservableBSD.Decode.Lemmas.CallTree

/-!
# The shadow stacks of the call tree and of the folded stacks

Both stacks push at the first instruction behind a CALL when it is the entry of a symbol, and pop at
every RETURN.
-/

namespace ObservableBSD.Decode

open Base

/-- CALLs open, RETURNs close. -/
def insnKind (x : DecodedInsn) : Bracket :=
  if x.iclass.isCall then .opening else if x.iclass.isReturn then .closing else .other

theorem insnKind_opening {x : DecodedInsn} : insnKind x = .opening ↔ x.iclass.isCall = true := by
  unfold insnKind
  by_cases h : x.iclass.isCall = true <;> simp [h]; split <;> simp

theorem insnKind_closing {x : DecodedInsn} : insnKind x = .closing ↔ x.iclass.isReturn = true := by
  unfold insnKind
  cases x.iclass <;> simp [PtInsnClass.isCall, PtInsnClass.isReturn]

theorem insnKind_other {x : DecodedInsn} :
    insnKind x = .other ↔ x.iclass.isCall = false ∧ x.iclass.isReturn = false := by
  unfold insnKind
  cases x.iclass <;> simp [PtInsnClass.isCall, PtInsnClass.isReturn]

theorem isReturn_of_isCall {k : PtInsnClass} (h : k.isCall = true) : k.isReturn = false := by
  cases k <;> simp_all [PtInsnClass.isCall, PtInsnClass.isReturn]

theorem isCall_of_isReturn {k : PtInsnClass} (h : k.isReturn = true) : k.isCall = false := by
  cases k <;> simp_all [PtInsnClass.isCall, PtInsnClass.isReturn]

theorem atEntry_iff {x : DecodedInsn} : x.atEntry = true ↔ ∃ s, x.sym = some s ∧ x.ip = s.addr := by
  unfold DecodedInsn.atEntry
  cases x.sym <;> simp

/-! ## Call tree -/

theorem calltreeRun_prevClass (w : List DecodedInsn) :
    (calltreeRun w).prevClass.isCall = true ↔ AfterOpening insnKind w := by
  induction w using List.reverseRecOn with
  | nil => simp [calltreeRun, calltreeInit, PtInsnClass.isCall, not_afterOpening_nil]
  | append_singleton w x _ =>
      rw [calltreeRun_concat, afterOpening_concat, insnKind_opening]
      rfl

theorem calltreeEnter_push {ct : Calltree} {x : DecodedInsn} (h : ct.Valid) (hx : x.atEntry = true)
    (hc : ct.prevClass.isCall = true) :
    ∃ i, (calltreeEnter ct x).stack = (ct.stack.headD [] ++ [i]) :: ct.stack := by
  obtain ⟨s, hs, _⟩ := atEntry_iff.mp hx
  rw [calltreeEnter, if_pos ⟨hx, hc⟩, hs]
  exact calltreePush_stack h s x.tsc

theorem calltree_isShadow (w : List DecodedInsn) :
    IsShadow insnKind DecodedInsn.atEntry (fun pre => (calltreeRun pre).stack.dropLast)
      (fun pre x => (calltreeEnter (calltreeRun pre) x).stack.dropLast) w where
  start := rfl
  push {pre x} _ ha hx := by
    have hv := calltreeRun_valid pre
    obtain ⟨i, hi⟩ := calltreeEnter_push hv hx ((calltreeRun_prevClass pre).mpr ha)
    exact ⟨_, by rw [hi, List.dropLast_cons_of_ne_nil hv.1.ne_nil]⟩
  skip {pre x} _ h := by
    have hn : ¬ (x.atEntry = true ∧ (calltreeRun pre).prevClass.isCall = true) :=
      fun h' => h ⟨(calltreeRun_prevClass pre).mp h'.2, h'.1⟩
    rw [calltreeEnter, if_neg hn]
  pop {pre x} _ hx := by
    have hv := calltreeEnter_valid (calltreeRun_valid pre) x
    rw [calltreeRun_concat, calltreeRecord, if_pos (insnKind_closing.mp hx)]
    exact calltreePop_stack _ _ hv.1
  keep {pre x} _ hx := by
    rw [calltreeRun_concat, calltreeRecord, if_neg (mt insnKind_closing.mpr hx)]

/-- After each RETURN the shadow stack of the call tree is what it was before the callee of the matching
CALL was entered. -/
def CalltreeBalanced (w : List DecodedInsn) : Prop :=
  ∀ pre c body r, pre ++ c :: (body ++ [r]) <+: w → insnKind c = .opening → Nested insnKind body →
    insnKind r = .closing →
    (calltreeRun (pre ++ c :: (body ++ [r]))).stack = (calltreeRun (pre ++ [c])).stack

theorem calltreeBalanced_iff {w : List DecodedInsn} :
    CalltreeBalanced w ↔ Balanced insnKind (fun pre => (calltreeRun pre).stack.dropLast) w := by
  constructor
  · intro h pre c body r hp hc hb hr
    exact congrArg List.dropLast (h pre c body r hp hc hb hr)
  · intro h pre c body r hp hc hb hr
    have hd : (calltreeRun (pre ++ c :: (body ++ [r]))).stack.dropLast =
        (calltreeRun (pre ++ [c])).stack.dropLast := h pre c body r hp hc hb hr
    rw [(calltreeRun_valid _).1.eq_dropLast_append, hd]
    exact (calltreeRun_valid _).1.eq_dropLast_append.symm

/-! ## Collapsed stacks -/

theorem collapsedRun_concat (w : List DecodedInsn) (x : DecodedInsn) :
    collapsedRun (w ++ [x]) = collapsedRecord (collapsedRun w) x := by
  simp [collapsedRun]

theorem collapsedRun_prevClass (w : List DecodedInsn) :
    (collapsedRun w).prevClass.isCall = true ↔ AfterOpening insnKind w := by
  induction w using List.reverseRecOn with
  | nil => simp [collapsedRun, collapsedInit, PtInsnClass.isCall, not_afterOpening_nil]
  | append_singleton w x _ =>
      rw [collapsedRun_concat, afterOpening_concat, insnKind_opening]
      rfl

theorem collapsedCountStack_names (col : Collapsed) : (collapsedCountStack col).names = col.names := by
  unfold collapsedCountStack
  split
  · rfl
  · dsimp only; split <;> rfl

theorem collapsedEnter_push {col : Collapsed} {x : DecodedInsn} (hx : x.atEntry = true)
    (hc : col.prevClass.isCall = true) (hd : col.depth < maxStackDepth) :
    ∃ s, (collapsedEnter col x).names = s :: col.names := by
  obtain ⟨s, hs, hip⟩ := atEntry_iff.mp hx
  exact ⟨s.name, by simp [collapsedEnter, hs, hip, hc, hd]⟩

theorem collapsedEnter_skip {col : Collapsed} {x : DecodedInsn}
    (h : ¬ (x.atEntry = true ∧ col.prevClass.isCall = true)) : collapsedEnter col x = col := by
  unfold collapsedEnter
  split
  · rfl
  · rename_i s hs
    exact if_neg fun h' => h ⟨atEntry_iff.mpr ⟨s, hs, h'.1⟩, h'.2⟩

/-- The names of the collapsed stack, as long as its depth stays below the limit. -/
theorem collapsed_isShadow {w : List DecodedInsn}
    (hd : ∀ pre, pre <+: w → (collapsedRun pre).depth < maxStackDepth) :
    IsShadow insnKind DecodedInsn.atEntry (fun pre => (collapsedRun pre).names)
      (fun pre x => (collapsedEnter (collapsedRun pre) x).names) w where
  start := rfl
  push {pre x} hp ha hx :=
    collapsedEnter_push hx ((collapsedRun_prevClass pre).mpr ha)
      (hd pre ((List.prefix_append _ _).trans hp))
  skip {pre x} _ h := by
    rw [collapsedEnter_skip fun h' => h ⟨(collapsedRun_prevClass pre).mp h'.2, h'.1⟩]
  pop {pre x} _ hx := by
    rw [collapsedRun_concat, collapsedRecord, if_pos (insnKind_closing.mp hx)]
    exact congrArg List.tail (collapsedCountStack_names _)
  keep {pre x} _ hx := by
    rw [collapsedRun_concat, collapsedRecord, if_neg (mt insnKind_closing.mpr hx)]

/-- The same law for the names of the collapsed stack, for the calls during which the depth stays below
the limit. -/
def CollapsedBalanced (w : List DecodedInsn) : Prop :=
  ∀ pre c body r, pre ++ c :: (body ++ [r]) <+: w → insnKind c = .opening → Nested insnKind body →
    insnKind r = .closing →
    (∀ q, q <+: pre ++ c :: (body ++ [r]) → (collapsedRun q).depth < maxStackDepth) →
    (collapsedRun (pre ++ c :: (body ++ [r]))).names = (collapsedRun (pre ++ [c])).names

end ObservableBSD.Decode
