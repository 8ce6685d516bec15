import ObservableBSD.Decode.Lemmas.Calls
import ObservableBSD.Decode.Lemmas.Insn
import ObservableBSD.Decode.Lemmas.OpenCalls

/-!
# Entries counted across gaps

Each accumulator remembers the class of the last instruction it has seen. Errors and resyncs do not reach
it, so the CALL it remembers may lie in front of a gap of the trace.
-/

namespace ObservableBSD.Decode

open Base Trace

/-! ## The accumulators during a run -/

/-- What the loop passes on for a decoded instruction. -/
def DecodeEnv.decoded (env : DecodeEnv) (r : PtInsn × PtTime) : DecodedInsn :=
  ⟨symTableLookup env.symbols r.1.ip, r.1.ip, r.1.iclass, r.2.tsc⟩

def DecodeEnv.stream (env : DecodeEnv) (calls : List PtCall) : List DecodedInsn :=
  (calls.filterMap PtCall.insn?).map env.decoded

/-- The state of the loop once it has made these calls. -/
def decodeAfter (env : DecodeEnv) (calls : List PtCall) : DecodeState :=
  calls.foldl (decodePtInsnBody env).afterCall {}

/-- The accumulator of the format has been fed the stream. -/
def Accumulates (env : DecodeEnv) (w : List DecodedInsn) (st : DecodeState) : Prop :=
  match env.fmt with
  | .profile => st.prof = profileRun env.dwarf (some env.sections) w
  | .tree | .callers => st.ct = calltreeRun w
  | .collapsed | .speedscope => st.col = collapsedRun w
  | .text | .json => True

theorem decodeCount_accumulators (insn : PtInsn) (time : PtTime) (st : DecodeState) :
    (decodeCount insn time st).prof = st.prof ∧ (decodeCount insn time st).ct = st.ct ∧
      (decodeCount insn time st).col = st.col := by
  unfold decodeCount
  cases insn.iclass <;> exact ⟨rfl, rfl, rfl⟩

theorem Accumulates.onInsn {env : DecodeEnv} {w : List DecodedInsn} {st : DecodeState}
    (h : Accumulates env w st) (r : PtInsn × PtTime) :
    Accumulates env (w ++ [env.decoded r]) (decodeOnInsn env st r.1 r.2) := by
  obtain ⟨hprof, hct, hcol⟩ := decodeCount_accumulators r.1 r.2 st
  unfold Accumulates at h ⊢
  unfold decodeOnInsn
  cases hf : env.fmt with
  | profile =>
      simp only [hf] at h ⊢
      rw [profileRun_concat, hprof, h]
      rfl
  | tree | callers =>
      simp only [hf] at h ⊢
      rw [calltreeRun_concat, hct, h]
      rfl
  | collapsed | speedscope =>
      simp only [hf] at h ⊢
      rw [collapsedRun_concat, hcol, h]
      rfl
  | text | json => trivial

theorem Accumulates.onOther {env : DecodeEnv} {w : List DecodedInsn} {st : DecodeState}
    (h : Accumulates env w st) {c : PtCall} (hc : c.insn? = none) :
    Accumulates env w ((decodePtInsnBody env).afterCall st c) := by
  have hsame : ((decodePtInsnBody env).afterCall st c).prof = st.prof ∧
      ((decodePtInsnBody env).afterCall st c).ct = st.ct ∧
      ((decodePtInsnBody env).afterCall st c).col = st.col := by
    cases c with
    | sync r => exact ⟨rfl, rfl, rfl⟩
    | event r =>
        cases r with
        | error e => exact ⟨rfl, rfl, rfl⟩
        | ok ev =>
            simp only [LoopBody.afterCall, decodePtInsnBody, decodeOnEvent]
            cases ev with
            | ptwrite payload ip => cases env.fmt <;> exact ⟨rfl, rfl, rfl⟩
            | _ => exact ⟨rfl, rfl, rfl⟩
    | next r =>
        cases r with
        | error e => cases e <;> exact ⟨rfl, rfl, rfl⟩
        | ok i => cases hc
  unfold Accumulates at h ⊢
  rw [hsame.1, hsame.2.1, hsame.2.2]
  exact h

theorem decodeAfter_accumulates (env : DecodeEnv) (calls : List PtCall) :
    Accumulates env (env.stream calls) (decodeAfter env calls) := by
  induction calls using List.reverseRecOn with
  | nil => unfold Accumulates; cases env.fmt <;> trivial
  | append_singleton calls c ih =>
      rw [DecodeEnv.stream, List.filterMap_append, List.map_append, decodeAfter, List.foldl_concat]
      cases hc : c.insn? with
      | none =>
          have hnone : [c].filterMap PtCall.insn? = [] := by simp [hc]
          rw [hnone, List.map_nil, List.append_nil]
          exact ih.onOther hc
      | some r =>
          have hsome : [c].filterMap PtCall.insn? = [r] := by simp [hc]
          obtain rfl : c = .next (.ok r) := by
            cases c with
            | next i => cases i with
              | ok i => cases hc; rfl
              | error e => cases hc
            | _ => cases hc
          rw [hsome]
          exact ih.onInsn r

/-! ## Entries -/

/-- The instruction makes the accumulator of the format count or push a function entry. -/
def CountsEntry (env : DecodeEnv) (st : DecodeState) (r : PtInsn × PtTime) : Prop :=
  match env.fmt with
  | .profile => ∃ name binary, (decodeOnInsn env st r.1 r.2).prof.calls name binary ≠ st.prof.calls name binary
  | .tree | .callers => (calltreeEnter st.ct (env.decoded r)).stack ≠ st.ct.stack
  | .collapsed | .speedscope => (collapsedEnter st.col (env.decoded r)).names ≠ st.col.names
  | .text | .json => False

/-- A delivered event; every other call that delivers no instruction is an error or a resync. -/
def PtCall.isEvent : PtCall → Bool
  | .event (.ok _) => true
  | _ => false

/-- The next instruction comes right behind a CALL: only events lie between. -/
def RightBehindCall (calls : List PtCall) : Prop :=
  ∃ r, (calls.filter (!·.isEvent)).getLast? = some (.next (.ok r)) ∧ r.1.iclass.isCall = true

/-- The instructions whose class the accumulator of the format keeps. -/
def DecodeEnv.remembered (env : DecodeEnv) (x : DecodedInsn) : Bool :=
  match env.fmt with
  | .profile => x.symbolized
  | _ => true

/-- The last instruction that the accumulator has kept is a CALL, wherever it lies. -/
def RemembersCall (env : DecodeEnv) (calls : List PtCall) : Prop :=
  AfterOpening insnKind ((env.stream calls).filter env.remembered)

/-- The CALL remembered is not the instruction right in front: an error, a resync or an instruction that
the accumulator has not kept lies between. -/
def StaleCall (env : DecodeEnv) (calls : List PtCall) : Prop :=
  RemembersCall env calls ∧ ¬ RightBehindCall calls

/-- The format counts entries, and its stack has room for one more. -/
def DecodeEnv.hasRoom (env : DecodeEnv) (st : DecodeState) : Bool :=
  match env.fmt with
  | .profile | .tree | .callers => true
  | .collapsed | .speedscope => st.col.depth < maxStackDepth
  | .text | .json => false

theorem calltreeEnter_stack_ne {ct : Calltree} (h : ct.Valid) (x : DecodedInsn) :
    (calltreeEnter ct x).stack ≠ ct.stack ↔ x.atEntry = true ∧ ct.prevClass.isCall = true := by
  constructor
  · intro hne
    by_contra hn
    exact hne (by rw [calltreeEnter, if_neg hn])
  · rintro ⟨hx, hc⟩ he
    obtain ⟨i, hi⟩ := calltreeEnter_push h hx hc
    exact List.cons_ne_self _ _ (hi.symm.trans he)

theorem collapsedEnter_names_ne (col : Collapsed) (x : DecodedInsn) :
    (collapsedEnter col x).names ≠ col.names ↔
      x.atEntry = true ∧ col.prevClass.isCall = true ∧ col.depth < maxStackDepth := by
  constructor
  · intro hne
    have henter : x.atEntry = true ∧ col.prevClass.isCall = true := by
      by_contra hn
      exact hne (by rw [collapsedEnter_skip hn])
    refine ⟨henter.1, henter.2, ?_⟩
    by_contra hd
    obtain ⟨s, hs, hip⟩ := atEntry_iff.mp henter.1
    exact hne (by simp [collapsedEnter, hs, hd])
  · rintro ⟨hx, hc, hd⟩ he
    obtain ⟨s, hs⟩ := collapsedEnter_push hx hc hd
    exact List.cons_ne_self _ _ (hs.symm.trans he)

theorem profileRecord_counts_iff {dwarf : DwarfLookup} {sections : Option (List PtImageInfo)} (p : Profile)
    (x : DecodedInsn) : (∃ name binary, (profileRecord dwarf sections p x).calls name binary ≠
      p.calls name binary) ↔ x.atEntry = true ∧ p.prevClass.isCall = true := by
  simp only [profileRecord_calls]
  constructor
  · rintro ⟨name, binary, hne⟩
    cases hc : p.prevClass.isCall with
    | false => simp [hc] at hne
    | true =>
        cases hx : x.atEntry with
        | false => simp [entersKey_of_not_atEntry hx] at hne
        | true => exact ⟨rfl, rfl⟩
  · rintro ⟨hx, hc⟩
    obtain ⟨s, hs, hip⟩ := atEntry_iff.mp hx
    exact ⟨s.name, s.binary, by simp [hc, entersKey_of_atEntry hs hip, samePtr]⟩

/-- An accumulator counts an instruction exactly when it is the entry of a symbol, the accumulator remembers
a CALL, and it has room. -/
theorem countsEntry_iff (env : DecodeEnv) (calls : List PtCall) (r : PtInsn × PtTime) :
    CountsEntry env (decodeAfter env calls) r ↔ (env.decoded r).atEntry = true ∧ RemembersCall env calls ∧
      env.hasRoom (decodeAfter env calls) = true := by
  have hacc := decodeAfter_accumulates env calls
  have hall : (env.stream calls).filter (fun _ => true) = env.stream calls := List.filter_true _
  unfold CountsEntry RemembersCall DecodeEnv.remembered DecodeEnv.hasRoom
  unfold Accumulates at hacc
  cases hf : env.fmt with
  | profile =>
      simp only [hf] at hacc ⊢
      have hprof : (decodeOnInsn env (decodeAfter env calls) r.1 r.2).prof =
          profileRecord env.dwarf (some env.sections) (decodeAfter env calls).prof (env.decoded r) := by
        obtain ⟨hprof, _⟩ := decodeCount_accumulators r.1 r.2 (decodeAfter env calls)
        simp only [decodeOnInsn, hf, hprof]
        rfl
      rw [hprof, hacc, profileRecord_counts_iff, profileRun_prevClass, and_true]
  | tree | callers =>
      simp only [hf] at hacc ⊢
      rw [hacc, calltreeEnter_stack_ne (calltreeRun_valid _), calltreeRun_prevClass, hall, and_true]
  | collapsed | speedscope =>
      simp only [hf] at hacc ⊢
      rw [hacc, collapsedEnter_names_ne, collapsedRun_prevClass, hall, decide_eq_true_eq]
  | text | json => simp

/-! ## Stale calls -/

theorem insn?_eq_some {c : PtCall} {r : PtInsn × PtTime} : c.insn? = some r ↔ c = .next (.ok r) := by
  cases c with
  | next i => cases i <;> simp [PtCall.insn?]
  | _ => simp [PtCall.insn?]

theorem stream_append_of_gap (env : DecodeEnv) (calls : List PtCall) {gap : List PtCall}
    (hgap : ∀ g ∈ gap, g.insn? = none) : env.stream (calls ++ gap) = env.stream calls := by
  have hnone : gap.filterMap PtCall.insn? = [] := List.filterMap_eq_nil_iff.mpr hgap
  rw [DecodeEnv.stream, List.filterMap_append, hnone, List.append_nil, DecodeEnv.stream]

theorem rightBehindCall_gap {calls gap : List PtCall} {r : PtInsn × PtTime} (hcall : r.1.iclass.isCall = true)
    (hgap : ∀ g ∈ gap, g.insn? = none) :
    RightBehindCall (calls ++ .next (.ok r) :: gap) ↔ ∀ g ∈ gap, g.isEvent = true := by
  have hsplit : (calls ++ .next (.ok r) :: gap).filter (!·.isEvent) =
      (calls.filter (!·.isEvent) ++ [.next (.ok r)]) ++ gap.filter (!·.isEvent) := by
    simp [List.filter_append, PtCall.isEvent]
  rw [RightBehindCall, hsplit]
  constructor
  · rintro ⟨r', hlast, _⟩
    have hempty : gap.filter (!·.isEvent) = [] := by
      by_contra hne
      rw [List.getLast?_append_of_ne_nil _ hne] at hlast
      have hmem := List.mem_of_getLast? hlast
      have hnone := hgap _ (List.mem_of_mem_filter hmem)
      cases hnone
    simpa using hempty
  · intro hevents
    have hempty : gap.filter (!·.isEvent) = [] := by simpa using hevents
    exact ⟨r, by rw [hempty, List.append_nil, List.getLast?_concat], hcall⟩

theorem exists_last_insn (env : DecodeEnv) {calls : List PtCall} (h : env.stream calls ≠ []) :
    ∃ pre r gap, calls = pre ++ .next (.ok r) :: gap ∧ ∀ g ∈ gap, g.insn? = none := by
  induction calls using List.reverseRecOn with
  | nil => exact absurd rfl h
  | append_singleton calls c ih =>
      cases hc : c.insn? with
      | some r => exact ⟨calls, r, [], by rw [insn?_eq_some.mp hc], fun g hg => by cases hg⟩
      | none =>
          have hgapc : ∀ g ∈ [c], g.insn? = none := by simpa using hc
          rw [stream_append_of_gap env calls hgapc] at h
          obtain ⟨pre, r, gap, rfl, hgap⟩ := ih h
          refine ⟨pre, r, gap ++ [c], by simp, ?_⟩
          intro g hg
          rcases List.mem_append.mp hg with hg | hg
          · exact hgap g hg
          · exact hgapc g hg

/-- For an accumulator that keeps every instruction, a call is stale when an error or a resync has come
behind it, and no instruction. -/
theorem staleCall_iff_gap {env : DecodeEnv} (henv : ∀ x, env.remembered x = true) (calls : List PtCall) :
    StaleCall env calls ↔ ∃ pre r gap, calls = pre ++ .next (.ok r) :: gap ∧ r.1.iclass.isCall = true ∧
      (∀ g ∈ gap, g.insn? = none) ∧ ∃ g ∈ gap, g.isEvent = false := by
  have hremembers : ∀ l, RemembersCall env l ↔ AfterOpening insnKind (env.stream l) := by
    intro l
    rw [RemembersCall, List.filter_eq_self.mpr fun x _ => henv x]
  have hlast : ∀ (pre gap : List PtCall) (r : PtInsn × PtTime), (∀ g ∈ gap, g.insn? = none) →
      (RemembersCall env (pre ++ .next (.ok r) :: gap) ↔ r.1.iclass.isCall = true) := by
    intro pre gap r hgap
    rw [hremembers, List.append_cons, stream_append_of_gap env _ hgap, DecodeEnv.stream, List.filterMap_append,
      List.map_append, show [PtCall.next (.ok r)].filterMap PtCall.insn? = [r] from rfl, List.map_singleton,
      afterOpening_concat, insnKind_opening]
    rfl
  constructor
  · rintro ⟨hcall, hnot⟩
    have hne : env.stream calls ≠ [] := by
      rintro hnil
      rw [hremembers, hnil] at hcall
      exact not_afterOpening_nil hcall
    obtain ⟨pre, r, gap, rfl, hgap⟩ := exists_last_insn env hne
    have hr := (hlast pre gap r hgap).mp hcall
    rw [rightBehindCall_gap hr hgap] at hnot
    simp only [not_forall] at hnot
    obtain ⟨g, hg, hevent⟩ := hnot
    exact ⟨pre, r, gap, rfl, hr, hgap, g, hg, eq_false_of_ne_true hevent⟩
  · rintro ⟨pre, r, gap, rfl, hr, hgap, g, hg, hevent⟩
    refine ⟨(hlast pre gap r hgap).mpr hr, fun hbehind => ?_⟩
    have := (rightBehindCall_gap hr hgap).mp hbehind g hg
    rw [hevent] at this; cases this

end ObservableBSD.Decode
