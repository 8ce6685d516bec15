import ObservableBSD.Decode.Lemmas.Flow
import ObservableBSD.Decode.Lemmas.ProfileTime
import ObservableBSD.Decode.Lemmas.TreeTime

/-!
# Results about the callers view and the times
-/

namespace ObservableBSD.Decode

open Base

/-! ## Flow -/

/-- What flows along an edge is the same at both ends, and nothing is lost at a function. -/
structure ConservesFlow (root : CtNode) (funcs : List FuncSummary) : Prop where
  distinct : KeysDistinct funcs
  edges : ∀ fa ∈ funcs, ∀ fb ∈ funcs, flowOf fb.key fa.callees = flowOf fa.key fb.callers
  calls : ∀ f ∈ funcs, f.key ≠ root.value.textKey → edgeCounts f.callers = f.totalCalls
  tsc : ∀ f ∈ funcs, f.key ≠ root.value.textKey → edgeTscs f.callers = f.totalTsc
  total : viewCalls funcs = root.sumBy CtData.count

theorem callersView_conservesFlow (ct : Calltree) : ConservesFlow ct.root (callersView ct) where
  distinct := keysDistinct_callersView ct
  edges fa ha fb hb := by
    have hflow := calleeFlow_callersView ct fa.key fb.key
    rwa [calleeFlow, callerFlow, edgesOf_key (keysDistinct_callersView ct) ha,
      edgesOf_key (keysDistinct_callersView ct) hb] at hflow
  calls f hf hne := (accounted_callersView ct f hf hne).1
  tsc f hf hne := (accounted_callersView ct f hf hne).2
  total := by
    rw [callersView, viewCalls_ctCollectEdges]
    exact Nat.zero_add _

/-! ## Time in the profile -/

/-- Up to every instruction, the time of every function is that of its completed activations. -/
def TimesAgree (dwarf : DwarfLookup) (sections : Option (List Trace.PtImageInfo)) (w : List DecodedInsn) : Prop :=
  ∀ pre g, pre <+: w → Runs true pre g →
    ∀ k, ((profileRun dwarf sections pre).cumulativeTsc k).toNat = timeOf k g

theorem timesAgree_iff (dwarf : DwarfLookup) (sections : Option (List Trace.PtImageInfo)) (cut : Bool)
    (w : List DecodedInsn) (f : List Activation) (h : Runs cut w f) (htsc : TscIncreasing w) :
    TimesAgree dwarf sections w ↔ ReturnsEndCalls w := by
  have hlegal : CallClock.LegalRun {} w := (Spends.of_runs h rfl).legal
  have htime : ∀ pre g, Runs true pre g → ∀ k, (CallClock.run pre {}).spent k = timeOf k g := by
    intro pre g hg k
    rw [(Spends.of_runs hg rfl).spent k]
    exact Nat.zero_add _
  rw [← spent_run_iff dwarf sections htsc hlegal]
  constructor
  · intro hagree pre hpre k
    obtain ⟨g, hg⟩ := h.exists_of_initial hpre
    rw [htime pre g hg, hagree pre g hpre hg]
  · intro hagree pre g hpre hg k
    rw [hagree pre hpre, htime pre g hg]

private def timedSym (n : Nat) (addr : UInt64) (name : String) : SymEntry :=
  ⟨addr, 16, 0, ⟨n, cstr name⟩, ⟨0, cstr "a.out"⟩⟩

private def callerSym : SymEntry := timedSym 1 0x1000 "main"

private def calleeSym : SymEntry := timedSym 2 0x2000 "fact"

private def timedEntry (s : SymEntry) (tsc : UInt64) : DecodedInsn := ⟨some s, s.addr, .other, tsc⟩

private def timedCall (s : SymEntry) (tsc : UInt64) : DecodedInsn := ⟨some s, s.addr + 4, .call, tsc⟩

private def timedRet (s : SymEntry) (tsc : UInt64) : DecodedInsn := ⟨some s, s.addr + 8, .ret, tsc⟩

private def timedActivation (s : SymEntry) (entry exit : UInt64) : ActData where
  fn := s
  entry := timedEntry s entry
  exit := some (timedRet s exit)
  enters := ⟨rfl, rfl⟩
  returns := by rintro r ⟨⟩; rfl

private def oneCall : List DecodedInsn := [timedCall callerSym 1, timedEntry calleeSym 2, timedRet calleeSym 5]

theorem oneCall_timesAgree : TimesAgree (fun _ _ _ => none) none oneCall := by
  have hruns : Runs false oneCall [.node (timedActivation calleeSym 2 5) []] :=
    .call (u := [_]) rfl (.other rfl .nil) rfl rfl .nil
  have hbefore : ReturnsEndCalls [timedCall callerSym 1, timedEntry calleeSym 2] :=
    (returnsEndCalls_concat (w := [_])).2
      ⟨(returnsEndCalls_concat (w := [])).2 ⟨returnsEndCalls_nil, fun h => (by cases h)⟩, fun h => (by cases h)⟩
  have hends : (CallClock.run [timedCall callerSym 1, timedEntry calleeSym 2] {}).EndsCall (timedRet calleeSym 5) :=
    ⟨⟨calleeSym.funcKey, 2, true, false⟩, rfl, calleeSym, rfl, rfl, .inl ⟨rfl, rfl⟩⟩
  exact (timesAgree_iff _ _ false oneCall _ hruns (by decide)).2 (returnsEndCalls_concat.2 ⟨hbefore, fun _ => hends⟩)

/-- `main` calls `fact`, which calls itself: the outer call is lost. -/
private def recursiveCall : List DecodedInsn :=
  [timedCall callerSym 1, timedEntry calleeSym 2, timedCall calleeSym 3, timedEntry calleeSym 4, timedRet calleeSym 5,
    timedRet calleeSym 6]

theorem recursiveCall_loses_time : ¬ ∀ (w : List DecodedInsn) (f : List Activation), Runs false w f → TscIncreasing w →
    ∀ dwarf sections k, ((profileRun dwarf sections w).cumulativeTsc k).toNat = timeOf k f := by
  intro h
  have hruns : Runs false recursiveCall
      [.node (timedActivation calleeSym 2 6) [.node (timedActivation calleeSym 4 5) []]] :=
    .call (u := [_, _, _, _]) rfl (.other rfl (.call (u := [_]) rfl (.other rfl .nil) rfl rfl .nil)) rfl rfl .nil
  exact absurd (h _ _ hruns (by decide) (fun _ _ _ => none) none calleeSym.funcKey) (by decide)

/-! ## Time in the call tree -/

theorem calltreeRun_timesNest (w : List DecodedInsn) (h : TscNondecreasing w) (p : NodePtr) (n : CtNode)
    (hn : (calltreeRun w).root.get? p = some n) :
    (p ∉ (calltreeRun w).stack → (n.children.map fun c => c.value.totalTsc.toNat).sum ≤ n.value.totalTsc.toNat) ∧
      n.value.totalTsc.toNat ≤ elapsed w := by
  have hnest := spansNest_run h
  have hvalue : (calltreeRun w).root.valueAt? p = some n.value := RoseTree.valueAt?_eq_some.2 ⟨n, hn, rfl⟩
  constructor
  · intro hp
    have hchildren := hnest.weighs.sum_children_le hn
    rwa [Calltree.span_of_value hvalue, if_neg hp, Nat.add_zero] at hchildren
  · calc n.value.totalTsc.toNat
        ≤ (calltreeRun w).span (firstTsc w).toNat (lastTsc w).toNat p := hnest.weighs.value p n.value hvalue
      _ ≤ (calltreeRun w).span (firstTsc w).toNat (lastTsc w).toNat [] := hnest.weighs.le_root p
      _ = elapsed w := hnest.span_root

theorem oneCall_timesNest : ∃ n, (calltreeRun oneCall).root.get? [0] = some n ∧
    (n.children.map fun c => c.value.totalTsc.toNat).sum ≤ n.value.totalTsc.toNat ∧
    n.value.totalTsc.toNat ≤ elapsed oneCall :=
  ⟨_, rfl, (calltreeRun_timesNest oneCall (by decide) [0] _ rfl).1 (by decide),
    (calltreeRun_timesNest oneCall (by decide) [0] _ rfl).2⟩

/-- With recursion, the time of a function counts as often as its nodes stand below each other. -/
theorem callersView_time_le (w : List DecodedInsn) (h : TscNondecreasing w) (f : FuncSummary)
    (hf : f ∈ callersView (calltreeRun w)) :
    f.totalTsc.toNat ≤ RoseTree.nesting (fun d => d.textKey = f.key) (calltreeRun w).root * elapsed w := by
  have hnest := spansNest_run h
  have hsum := hnest.weighs.sumBy_le (fun d => d.textKey = f.key)
  rw [hnest.span_root] at hsum
  simp only [decide_eq_true_eq] at hsum
  exact Nat.le_trans (totalTsc_callersView_le _ hf) hsum

theorem oneCall_time_le : ∃ f ∈ callersView (calltreeRun oneCall),
    f.totalTsc.toNat ≤ RoseTree.nesting (fun d => d.textKey = f.key) (calltreeRun oneCall).root * elapsed oneCall :=
  ⟨(callersView (calltreeRun oneCall)).get ⟨1, by decide⟩, List.get_mem _ _,
    callersView_time_le oneCall (by decide) _ (List.get_mem _ _)⟩

/-- The inner call of `fact` takes most of the time of the outer one. -/
private def longRecursion : List DecodedInsn :=
  [timedCall callerSym 1, timedEntry calleeSym 2, timedCall calleeSym 3, timedEntry calleeSym 4,
    timedRet calleeSym 10, timedRet calleeSym 11]

theorem longRecursion_exceeds_elapsed : ¬ ∀ w, TscNondecreasing w → ∀ f ∈ callersView (calltreeRun w),
    f.totalTsc.toNat ≤ elapsed w := by
  intro h
  have hle := h longRecursion (by decide) ((callersView (calltreeRun longRecursion)).get ⟨1, by decide⟩)
    (List.get_mem _ _)
  exact absurd hle (by decide)

end ObservableBSD.Decode
