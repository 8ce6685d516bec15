import ObservableBSD.Decode.Insn
import ObservableBSD.Decode.Lemmas.PtDecoder

/-!
# Errors and instructions counted over a trace
-/

namespace ObservableBSD.Decode

/-! ## `decode_pt_insn` -/

theorem decodeOnEvent_counters (env : DecodeEnv) (st : DecodeState) (ev : PtEvent) :
    (decodeOnEvent env st ev).nomaps = st.nomaps ∧ (decodeOnEvent env st ev).errors = st.errors ∧
      (decodeOnEvent env st ev).total = st.total := by
  unfold decodeOnEvent
  split
  · exact ⟨rfl, rfl, rfl⟩
  · split <;> exact ⟨rfl, rfl, rfl⟩
  · exact ⟨rfl, rfl, rfl⟩

theorem decodeCount_counters (insn : PtInsn) (time : PtTime) (st : DecodeState) :
    (decodeCount insn time st).nomaps = st.nomaps ∧ (decodeCount insn time st).errors = st.errors ∧
      (decodeCount insn time st).total = st.total + 1 := by
  unfold decodeCount
  cases insn.iclass <;> exact ⟨rfl, rfl, rfl⟩

theorem decodeOnInsn_counters (env : DecodeEnv) (st : DecodeState) (insn : PtInsn) (time : PtTime) :
    (decodeOnInsn env st insn time).nomaps = st.nomaps ∧
      (decodeOnInsn env st insn time).errors = st.errors ∧
      (decodeOnInsn env st insn time).total = st.total + 1 := by
  have hcount := decodeCount_counters insn time st
  unfold decodeOnInsn
  cases env.fmt with
  | text | json => cases insnClassStr insn.iclass <;> exact hcount
  | _ => exact hcount

theorem decodeAfterCall_counters (env : DecodeEnv) (st : DecodeState) {c : PtCall}
    (hc : ∀ e, c = .event (.error e) → e = .eos) :
    ((decodePtInsnBody env).afterCall st c).nomaps = st.nomaps + c.error?.toList.count .nomap ∧
      ((decodePtInsnBody env).afterCall st c).errors =
        st.errors + c.error?.toList.countP (· ≠ .nomap) ∧
      ((decodePtInsnBody env).afterCall st c).total = st.total + c.insn?.toList.length := by
  cases c with
  | sync r => exact ⟨rfl, rfl, rfl⟩
  | event r =>
      cases r with
      | ok ev => exact decodeOnEvent_counters env st ev
      | error e => obtain rfl := hc e rfl; exact ⟨rfl, rfl, rfl⟩
  | next r =>
      cases r with
      | ok i => exact decodeOnInsn_counters env st i.1 i.2
      | error e => cases e <;> exact ⟨rfl, rfl, rfl⟩

theorem filterMap_cons_toList {α β : Type*} (f : α → Option β) (a : α) (l : List α) :
    (a :: l).filterMap f = (f a).toList ++ l.filterMap f := by
  cases h : f a <;> simp [h]

/-- Over calls that drain the events cleanly, every error and every instruction is counted once. -/
theorem decodeCalls_counters (env : DecodeEnv) (calls : List PtCall) : ∀ st : DecodeState,
    (∀ e, PtCall.event (.error e) ∈ calls → e = .eos) →
    (calls.foldl (decodePtInsnBody env).afterCall st).nomaps =
        st.nomaps + (calls.filterMap PtCall.error?).count .nomap ∧
      (calls.foldl (decodePtInsnBody env).afterCall st).errors =
        st.errors + (calls.filterMap PtCall.error?).countP (· ≠ .nomap) ∧
      (calls.foldl (decodePtInsnBody env).afterCall st).total =
        st.total + (calls.filterMap PtCall.insn?).length := by
  induction calls with
  | nil => intro st _; exact ⟨rfl, rfl, rfl⟩
  | cons c calls ih =>
      intro st hclean
      obtain ⟨hn, he, ht⟩ := decodeAfterCall_counters env st
        (fun e he => hclean e (he ▸ List.mem_cons_self))
      obtain ⟨ihn, ihe, iht⟩ := ih ((decodePtInsnBody env).afterCall st c)
        (fun e he => hclean e (List.mem_cons_of_mem _ he))
      rw [List.foldl_cons, ihn, ihe, iht, hn, he, ht, filterMap_cons_toList, filterMap_cons_toList,
        List.count_append, List.countP_append, List.length_append]
      exact ⟨Nat.add_assoc .., Nat.add_assoc .., Nat.add_assoc ..⟩

/-- `decode_pt_insn` counts every error once, resyncs after it, and decodes every deliverable
instruction. -/
structure DecodeCovers (env : DecodeEnv) (trace : List PtSegment) : Prop where
  nomaps : (decodePtInsnLoop env trace).2.nomaps =
    ((decodePtInsnLoop env trace).1.calls.filterMap PtCall.error?).count .nomap
  errors : (decodePtInsnLoop env trace).2.errors =
    ((decodePtInsnLoop env trace).1.calls.filterMap PtCall.error?).countP (· ≠ .nomap)
  covered : Covered (decodePtInsnLoop env trace).1.calls
  decoded : (decodePtInsnLoop env trace).1.calls.filterMap PtCall.insn? = deliverable trace
  total : (decodePtInsnLoop env trace).2.total = (deliverable trace).length

theorem decodeCovers_of_drainsCleanly (env : DecodeEnv) {trace : List PtSegment} (h : DrainsCleanly trace) :
    DecodeCovers env trace := by
  have hcalls : (decodePtInsnLoop env trace).1.calls = resyncedCalls trace :=
    (decodeTrace_calls ..).trans h.callsOf_eq
  have hacc : (decodePtInsnLoop env trace).2 =
      (resyncedCalls trace).foldl (decodePtInsnBody env).afterCall {} := by
    rw [← h.callsOf_eq]; exact decodeTrace_acc ..
  obtain ⟨hn, he, ht⟩ := decodeCalls_counters env (resyncedCalls trace) {} h
  constructor
  · rw [hcalls, hacc, hn, Nat.zero_add]
  · rw [hcalls, hacc, he, Nat.zero_add]
  · rw [hcalls]; exact resyncedCalls_covered trace
  · rw [hcalls, resyncedCalls_deliverable]
  · rw [hacc, ht, resyncedCalls_deliverable, Nat.zero_add]

/-! ## `decode_pt_probe` -/

/-- `decode_pt_probe` resyncs after every error and decodes every deliverable instruction. -/
structure ProbeCovers (env : ProbeEnv) (trace : List PtSegment) : Prop where
  covered : Covered (decodePtProbeLoop env trace).1.calls
  decoded : (decodePtProbeLoop env trace).1.calls.filterMap PtCall.insn? = deliverable trace
  total : (decodePtProbeLoop env trace).2.total = (deliverable trace).length

theorem probeCalls_total (env : ProbeEnv) (calls : List PtCall) : ∀ probe : DecodeProbeResult,
    (calls.foldl (decodePtProbeBody env).afterCall probe).total =
      probe.total + (calls.filterMap PtCall.insn?).length := by
  induction calls with
  | nil => intro probe; rfl
  | cons c calls ih =>
      intro probe
      have hstep : ((decodePtProbeBody env).afterCall probe c).total =
          probe.total + c.insn?.toList.length := by
        cases c with
        | sync r => rfl
        | event r => cases r <;> rfl
        | next r =>
            cases r with
            | ok i => rfl
            | error e => cases e <;> rfl
      rw [List.foldl_cons, ih, hstep, filterMap_cons_toList, List.length_append, Nat.add_assoc]

theorem probeCalls_execHits (env : ProbeEnv) (calls : List PtCall) : ∀ probe : DecodeProbeResult,
    (calls.foldl (decodePtProbeBody env).afterCall probe).execHits =
      probe.execHits + (calls.filterMap PtCall.insn?).countP fun i => probeHit env i.1 := by
  induction calls with
  | nil => intro probe; rfl
  | cons c calls ih =>
      intro probe
      have hstep : ((decodePtProbeBody env).afterCall probe c).execHits =
          probe.execHits + c.insn?.toList.countP fun i => probeHit env i.1 := by
        cases c with
        | sync r => rfl
        | event r => cases r <;> rfl
        | next r =>
            cases r with
            | ok i => simp [LoopBody.afterCall, decodePtProbeBody, PtCall.insn?, List.countP_cons, apply_ite]
            | error e => cases e <;> rfl
      rw [List.foldl_cons, ih, hstep, filterMap_cons_toList, List.countP_append, Nat.add_assoc]

/-- The probe counts what the loop decodes, and the hits among it. -/
theorem decodePtProbeLoop_counts (env : ProbeEnv) (trace : List PtSegment) :
    let decoded := (decodePtProbeLoop env trace).1.calls.filterMap PtCall.insn?
    (decodePtProbeLoop env trace).2.total = decoded.length ∧
      (decodePtProbeLoop env trace).2.execHits = decoded.countP fun i => probeHit env i.1 := by
  have hcalls := decodeTrace_calls (decodePtProbeBody env) trace {}
  have hacc := decodeTrace_acc (decodePtProbeBody env) trace {}
  rw [← hcalls] at hacc
  rw [decodePtProbeLoop, hacc]
  exact ⟨(probeCalls_total ..).trans (Nat.zero_add _), (probeCalls_execHits ..).trans (Nat.zero_add _)⟩

theorem probeCovers_of_drainsCleanly (env : ProbeEnv) {trace : List PtSegment} (h : DrainsCleanly trace) :
    ProbeCovers env trace := by
  have hcalls : (decodePtProbeLoop env trace).1.calls = resyncedCalls trace :=
    (decodeTrace_calls ..).trans h.callsOf_eq
  have hacc : (decodePtProbeLoop env trace).2 =
      (resyncedCalls trace).foldl (decodePtProbeBody env).afterCall {} := by
    rw [← h.callsOf_eq]; exact decodeTrace_acc ..
  constructor
  · rw [hcalls]; exact resyncedCalls_covered trace
  · rw [hcalls, resyncedCalls_deliverable]
  · rw [hacc, probeCalls_total, resyncedCalls_deliverable, Nat.zero_add]

end ObservableBSD.Decode
