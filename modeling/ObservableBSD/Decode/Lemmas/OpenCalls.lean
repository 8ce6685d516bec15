import Mathlib.Data.List.TakeDrop
import ObservableBSD.Decode.Lemmas.Trie

/-!
# The open calls of a stream

The functions that have been entered behind a CALL and not left by a RETURN are a function of the stream.
The stack of the call tree holds them all, the collapsed stack the first 256 as long as no RETURN comes
above the limit.
-/

namespace ObservableBSD.Decode

open Base

/-- The open calls, the last one first, with the function that the instruction enters. -/
def enterCall (behindCall : Bool) (x : DecodedInsn) (calls : List StrPtr) : List StrPtr :=
  match x.sym with
  | none => calls
  | some s => if x.ip = s.addr ∧ behindCall then s.name :: calls else calls

def openCallsStep (st : Bool × List StrPtr) (x : DecodedInsn) : Bool × List StrPtr :=
  (x.iclass.isCall,
    if x.iclass.isReturn then (enterCall st.1 x st.2).tail else enterCall st.1 x st.2)

/-- Whether the last instruction is a CALL, and the open calls. -/
def openCallsRun (w : List DecodedInsn) : Bool × List StrPtr := w.foldl openCallsStep (false, [])

def openCalls (w : List DecodedInsn) : List StrPtr := (openCallsRun w).2

/-- The open calls in the middle of an instruction, behind the entry and in front of the return. -/
def openCallsIn (w : List DecodedInsn) (x : DecodedInsn) : List StrPtr :=
  enterCall (openCallsRun w).1 x (openCalls w)

theorem openCalls_concat (w : List DecodedInsn) (x : DecodedInsn) :
    openCalls (w ++ [x]) = if x.iclass.isReturn then (openCallsIn w x).tail else openCallsIn w x := by
  rw [openCalls, openCallsRun, List.foldl_concat]
  rfl

theorem openCallsRun_fst (w : List DecodedInsn) : (openCallsRun w).1 = true ↔ AfterOpening insnKind w := by
  cases w using List.reverseRecOn with
  | nil => simp [openCallsRun, not_afterOpening_nil]
  | append_singleton w x => rw [openCallsRun, List.foldl_concat, afterOpening_concat, insnKind_opening]; rfl

theorem calltreeRun_isCall (w : List DecodedInsn) : (calltreeRun w).prevClass.isCall = (openCallsRun w).1 :=
  Bool.eq_iff_iff.mpr ((calltreeRun_prevClass w).trans (openCallsRun_fst w).symm)

theorem collapsedRun_isCall (w : List DecodedInsn) : (collapsedRun w).prevClass.isCall = (openCallsRun w).1 :=
  Bool.eq_iff_iff.mpr ((collapsedRun_prevClass w).trans (openCallsRun_fst w).symm)

/-! ## The call tree -/

/-- The names of the nodes on the shadow stack, without the root; `none` at a dangling pointer. -/
def Calltree.topNames (ct : Calltree) : List (Option StrPtr) :=
  ct.stack.dropLast.map fun p => (ct.root.keyAt? p).map Prod.fst

theorem Pushed.topNames {ct ct' : Calltree} {name binary : StrPtr} {i : Nat} (h : Pushed ct ct' name binary i)
    (hp : IsPath ct.stack) : ct'.topNames = some name :: ct.topNames := by
  have hold : ∀ p ∈ ct.stack.dropLast, ct'.root.keyAt? p = ct.root.keyAt? p := by
    intro p hmem
    have hpre : p <+: ct.stack.headD [] := by
      have hmem' := List.mem_of_mem_dropLast hmem
      rw [hp.eq_pathTo, pathTo, List.mem_reverse, List.mem_inits] at hmem'
      exact hmem'
    have hne : p ≠ ct.stack.headD [] ++ [i] := by
      intro he
      have hlen := hpre.length_le
      rw [he, List.length_append, List.length_singleton] at hlen
      exact Nat.not_succ_le_self _ hlen
    rw [h.key, if_neg hne]
  rw [Calltree.topNames, h.stack, List.dropLast_cons_of_ne_nil hp.ne_nil, List.map_cons, h.key, if_pos rfl]
  exact congrArg _ (List.map_congr_left fun p hmem => congrArg _ (hold p hmem))

theorem calltreePop_topNames {ct : Calltree} (h : ct.Valid) (tsc : UInt64) :
    (calltreePop ct tsc).topNames = ct.topNames.tail := by
  rw [Calltree.topNames, calltreePop_stack ct tsc h.1, Calltree.topNames, List.map_tail]
  exact congrArg List.tail (List.map_congr_left fun p _ => congrArg _ (calltreePop_read h tsc p).1)

theorem calltreeEnter_topNames {w : List DecodedInsn}
    (h : (calltreeRun w).topNames = (openCalls w).map some) (x : DecodedInsn) :
    (calltreeEnter (calltreeRun w) x).topNames = (openCallsIn w x).map some := by
  have hv := calltreeRun_valid w
  unfold calltreeEnter openCallsIn enterCall DecodedInsn.atEntry
  rw [calltreeRun_isCall]
  cases hs : x.sym with
  | none => rw [if_neg (by simp)]; exact h
  | some s =>
      by_cases hx : x.ip = s.addr ∧ (openCallsRun w).1 = true
      · obtain ⟨i, hpush⟩ := calltreePush_pushed hv s x.tsc
        simp only [hx, decide_true, and_self, if_true, List.map_cons]
        rw [hpush.topNames hv.1, h]
      · rw [if_neg (by simpa using hx)]
        simp only [hx, if_false]
        exact h

/-- The stack of the call tree holds the open calls. -/
theorem calltreeRun_topNames (w : List DecodedInsn) :
    (calltreeRun w).topNames = (openCalls w).map some := by
  induction w using List.reverseRecOn with
  | nil => rfl
  | append_singleton w x ih =>
      have henter := calltreeEnter_topNames ih x
      rw [calltreeRun_concat, calltreeRecord, openCalls_concat]
      by_cases hr : x.iclass.isReturn = true
      · rw [if_pos hr, if_pos hr, List.map_tail, ← henter]
        exact calltreePop_topNames (calltreeEnter_valid (calltreeRun_valid w) x) x.tsc
      · rw [if_neg hr, if_neg hr, ← henter]
        rfl

/-! ## The collapsed stack -/

/-- `names[0..depth-1]` are the names on the path of the shadow stack of the call tree, without the root,
cut off behind the first 256. -/
def StacksAgree (w : List DecodedInsn) : Prop :=
  (collapsedRun w).names.reverse.map some = (calltreeRun w).topNames.reverse.take maxStackDepth

theorem stacksAgree_iff {w : List DecodedInsn} :
    StacksAgree w ↔ (collapsedRun w).names.reverse = (openCalls w).reverse.take maxStackDepth := by
  rw [StacksAgree, calltreeRun_topNames, ← List.map_reverse, ← List.map_take]
  exact ⟨fun h => List.map_injective_iff.mpr (fun _ _ => Option.some.inj) h, fun h => congrArg _ h⟩

theorem collapsedEnter_names {w : List DecodedInsn} (h : StacksAgree w) (x : DecodedInsn) :
    (collapsedEnter (collapsedRun w) x).names.reverse = (openCallsIn w x).reverse.take maxStackDepth := by
  rw [stacksAgree_iff] at h
  unfold collapsedEnter openCallsIn enterCall
  rw [collapsedRun_isCall]
  cases x.sym with
  | none => exact h
  | some s =>
      by_cases hx : x.ip = s.addr ∧ (openCallsRun w).1 = true
      · have hdepth : (collapsedRun w).depth = min maxStackDepth (openCalls w).length := by
          have hlen := congrArg List.length h
          rwa [List.length_reverse, List.length_take, List.length_reverse] at hlen
        simp only [hx, and_self, if_true, List.reverse_cons]
        by_cases hroom : (collapsedRun w).depth < maxStackDepth
        · rw [if_pos hroom]
          have hroom : (openCalls w).reverse.length + 1 ≤ maxStackDepth := by
            rw [List.length_reverse]; omega
          rw [List.reverse_cons, h, List.take_of_length_le (Nat.le_of_succ_le hroom),
            List.take_of_length_le (by rw [List.length_append]; exact hroom)]
        · rw [if_neg hroom]
          have hfull : maxStackDepth ≤ (openCalls w).reverse.length := by
            rw [List.length_reverse]; omega
          rw [List.take_append_of_le_length hfull, h]
      · simp only [hx, if_false]
        exact h

/-- One instruction keeps the stacks together unless it is a RETURN above the limit. -/
theorem stacksAgree_concat {w : List DecodedInsn} {x : DecodedInsn} (h : StacksAgree w) :
    StacksAgree (w ++ [x]) ↔ (x.iclass.isReturn = true → (openCallsIn w x).length ≤ maxStackDepth) := by
  have henter := collapsedEnter_names h x
  rw [stacksAgree_iff, collapsedRun_concat, collapsedRecord, openCalls_concat]
  by_cases hr : x.iclass.isReturn = true
  · simp only [hr, if_true, true_imp_iff, collapsedCountStack_names]
    rw [← List.dropLast_reverse, henter, ← List.dropLast_reverse, ← List.length_reverse]
    generalize (openCallsIn w x).reverse = calls
    constructor
    · intro heq
      have hlen := congrArg List.length heq
      rw [List.length_dropLast, List.length_take, List.length_take, List.length_dropLast] at hlen
      have hpos : 0 < maxStackDepth := by decide
      omega
    · intro hle
      rw [List.take_of_length_le hle, List.take_of_length_le (by rw [List.length_dropLast]; omega)]
  · rw [if_neg hr, if_neg hr]
    exact iff_of_true henter fun h => absurd h hr

end ObservableBSD.Decode
