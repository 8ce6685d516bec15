import Mathlib.Data.List.Induction
import ObservableBSD.Trace.Drain

/-!
# Wakeups in the log of the drains

The polling loop and the final drain wake the target for every record that pauses it. The drain behind the
stop makes no wakeup.
-/

namespace ObservableBSD.Trace

open Base

/-- Every MMAP or EXECUTABLE record that a poll takes from the queue is followed by a wakeup. -/
def WakesTarget (calls : List HwtCall) : Prop :=
  ∀ pre records post, calls = pre ++ .recordGet records :: post → ∀ rec ∈ records, rec.pausesTarget = true →
    .wakeup ∈ post

theorem WakesTarget.append {calls more : List HwtCall} (h : WakesTarget calls) (hmore : WakesTarget more) :
    WakesTarget (calls ++ more) := by
  intro pre records post heq rec hrec hpauses
  rcases List.append_eq_append_iff.mp heq with ⟨rest, rfl, hrest⟩ | ⟨rest, rfl, hrest⟩
  · exact hmore rest records post hrest rec hrec hpauses
  · cases rest with
    | nil => exact hmore [] records post hrest.symm rec hrec hpauses
    | cons c rest =>
        obtain ⟨rfl, rfl⟩ := List.cons.inj hrest
        exact List.mem_append_left _ (h pre records rest rfl rec hrec hpauses)

theorem WakesTarget.of_append {calls more : List HwtCall} (h : WakesTarget (calls ++ more)) :
    WakesTarget more := by
  intro pre records post heq
  exact h (calls ++ pre) records post (by rw [heq, List.append_assoc])

/-- Calls that take no record from the queue. -/
def TakesNone (calls : List HwtCall) : Prop := ∀ records, .recordGet records ∉ calls

theorem TakesNone.wakesTarget {calls : List HwtCall} (h : TakesNone calls) : WakesTarget calls := by
  intro pre records post heq
  exact absurd (heq ▸ List.mem_append_right pre List.mem_cons_self) (h records)

/-- Calls that only wake the target, or open devices of its threads. -/
def TargetCalls (calls : List HwtCall) : Prop := ∀ c ∈ calls, c = .wakeup ∨ ∃ threadId, c = .openThread threadId

theorem TargetCalls.nil : TargetCalls [] := nofun

theorem TargetCalls.append {calls more : List HwtCall} (h : TargetCalls calls) (hmore : TargetCalls more) :
    TargetCalls (calls ++ more) := List.forall_mem_append.mpr ⟨h, hmore⟩

theorem TargetCalls.takesNone {calls : List HwtCall} (h : TargetCalls calls) : TakesNone calls := by
  intro records hmem
  rcases h _ hmem with heq | ⟨_, heq⟩ <;> cases heq

theorem TargetCalls.unstopped {calls : List HwtCall} (h : TargetCalls calls) : .stop ∉ calls := by
  intro hmem
  rcases h _ hmem with heq | ⟨_, heq⟩ <;> cases heq

/-! ## The polling loop and the final drain -/

/-- A step adds calls to the log, and these have the property. -/
def Adds (P : List HwtCall → Prop) (st st' : DrainState) : Prop :=
  ∃ added, st'.ctx.calls = st.ctx.calls ++ added ∧ P added

theorem hwtCtxOpenThread_calls (ctx : HwtCtx) (threadId : Int32) (opens : Bool) :
    ∃ added, (hwtCtxOpenThread ctx threadId opens).calls = ctx.calls ++ added ∧ TargetCalls added := by
  unfold hwtCtxOpenThread
  split
  · exact ⟨[], by simp, .nil⟩
  · split
    · exact ⟨[], by simp, .nil⟩
    · refine ⟨[.openThread threadId], ?_, List.forall_mem_singleton.mpr (.inr ⟨threadId, rfl⟩)⟩
      cases opens <;> rfl

/-- One record: no poll, and a wakeup when it pauses the target. -/
theorem emitAndProcess_adds (pauseOnMmap : Bool) (st : DrainState) (p : PolledRecord) :
    Adds (fun added => TargetCalls added ∧
      (pauseOnMmap = true → p.record.pausesTarget = true → HwtCall.wakeup ∈ added))
      st (emitAndProcess pauseOnMmap st p) := by
  unfold emitAndProcess
  -- The calls up to the wakeup, then those of the new thread.
  obtain ⟨woken, hwoken, htarget, hwakes⟩ : ∃ woken,
      (if pauseOnMmap && p.record.pausesTarget then hwtCtxWakeup st.ctx else st.ctx).calls =
        st.ctx.calls ++ woken ∧ TargetCalls woken ∧
        (pauseOnMmap = true → p.record.pausesTarget = true → HwtCall.wakeup ∈ woken) := by
    split
    · exact ⟨[.wakeup], rfl, List.forall_mem_singleton.mpr (.inl rfl), fun _ _ => List.mem_singleton.mpr rfl⟩
    · rename_i h
      exact ⟨[], by simp, .nil, fun hp hr => absurd (by rw [hp, hr]; rfl) h⟩
  generalize (if pauseOnMmap && p.record.pausesTarget then hwtCtxWakeup st.ctx else st.ctx) = ctx at hwoken
  obtain ⟨opened, hopened, hopens⟩ : ∃ opened,
      (if ctx.wantsThread p.record then hwtCtxOpenThread ctx p.record.threadId p.opens else ctx).calls =
        ctx.calls ++ opened ∧ TargetCalls opened := by
    split
    · exact hwtCtxOpenThread_calls ..
    · exact ⟨[], by simp, .nil⟩
  refine ⟨woken ++ opened, ?_, htarget.append hopens, fun hp hr => List.mem_append_left _ (hwakes hp hr)⟩
  rw [← List.append_assoc, ← hwoken]
  exact hopened

theorem emitRecords_adds (pauseOnMmap : Bool) (batch : Batch) : ∀ st : DrainState,
    Adds (fun added => TargetCalls added ∧ (pauseOnMmap = true →
      ∀ p ∈ batch, p.record.pausesTarget = true → HwtCall.wakeup ∈ added))
      st (batch.foldl (emitAndProcess pauseOnMmap) st) := by
  induction batch with
  | nil => intro st; exact ⟨[], by simp, .nil, by simp⟩
  | cons p batch ih =>
      intro st
      obtain ⟨first, hfirst, hftarget, hfwakes⟩ := emitAndProcess_adds pauseOnMmap st p
      obtain ⟨rest, hrest, hrtarget, hrwakes⟩ := ih (emitAndProcess pauseOnMmap st p)
      refine ⟨first ++ rest, ?_, hftarget.append hrtarget, ?_⟩
      · rw [List.foldl_cons, hrest, hfirst, List.append_assoc]
      · intro hp q hq hpauses
        rcases List.mem_cons.mp hq with rfl | hq
        · exact List.mem_append_left _ (hfwakes hp hpauses)
        · exact List.mem_append_right _ (hrwakes hp q hq hpauses)

theorem emitBatch_adds {pauseOnMmap : Bool} (hpause : pauseOnMmap = true) (st : DrainState) (batch : Batch) :
    Adds WakesTarget st (emitBatch pauseOnMmap st batch) := by
  obtain ⟨added, hadded, htarget, hwakes⟩ :=
    emitRecords_adds pauseOnMmap batch { st with ctx := hwtCtxPollRecords st.ctx batch }
  refine ⟨.recordGet (batch.map (·.record)) :: added, ?_, ?_⟩
  · rw [emitBatch, hadded, hwtCtxPollRecords, HwtCtx.call, List.append_assoc]; rfl
  · intro pre records post heq rec hrec hpauses
    cases pre with
    | nil =>
        obtain ⟨hget, rfl⟩ := List.cons.inj heq
        cases hget
        obtain ⟨p, hp, rfl⟩ := List.mem_map.mp hrec
        exact hwakes hpause p hp hpauses
    | cons c pre =>
        obtain ⟨_, rfl⟩ := List.cons.inj heq
        exact absurd (List.mem_append_right pre List.mem_cons_self) (htarget.takesNone records)

theorem Adds.trans {st st' st'' : DrainState} (h : Adds WakesTarget st st') (h' : Adds WakesTarget st' st'') :
    Adds WakesTarget st st'' := by
  obtain ⟨added, hadded, hwakes⟩ := h
  obtain ⟨more, hmore, hwakes'⟩ := h'
  exact ⟨added ++ more, by rw [hmore, hadded, List.append_assoc], hwakes.append hwakes'⟩

theorem Adds.refl (st : DrainState) : Adds WakesTarget st st :=
  ⟨[], (List.append_nil _).symm, TakesNone.wakesTarget nofun⟩

theorem pollingLoop_adds {pauseOnMmap : Bool} (hpause : pauseOnMmap = true) (polls : List Batch) :
    ∀ st : DrainState, Adds WakesTarget st (pollingLoop pauseOnMmap st polls) := by
  induction polls with
  | nil => exact Adds.refl
  | cons batch polls ih =>
      intro st
      exact (emitBatch_adds hpause st batch).trans (ih (emitBatch pauseOnMmap st batch))

theorem finalDrain_adds (st : DrainState) (poll : Option Batch) : Adds WakesTarget st (finalDrain st poll) := by
  cases poll with
  | none => exact Adds.refl st
  | some batch => exact emitBatch_adds rfl st batch

/-! ## The drain behind the stop -/

/-- The batches that the drain behind the stop takes from the queue. -/
def postStopBatches : Nat → List (Option Batch) → List Batch
  | _, [] => []
  | emptyPolls, poll :: polls =>
      if postStopEmptyPolls ≤ emptyPolls then []
      else match poll with
        | none => []
        | some batch => batch :: postStopBatches (if batch = [] then emptyPolls + 1 else 0) polls

theorem processRecords_ctx (batch : Batch) : ∀ st : DrainState,
    (batch.foldl (fun (st : DrainState) p => { st with ts := traceStateProcess st.ts p.record }) st).ctx =
      st.ctx := by
  induction batch with
  | nil => intro st; rfl
  | cons p batch ih => intro st; rw [List.foldl_cons, ih]

theorem traceStateDrainPostStop_calls (polls : List (Option Batch)) : ∀ (emptyPolls : Nat) (st : DrainState),
    (traceStateDrainPostStop st emptyPolls polls).ctx.calls = st.ctx.calls ++
      (postStopBatches emptyPolls polls).map fun batch => .recordGet (batch.map (·.record)) := by
  induction polls with
  | nil => intro emptyPolls st; simp [traceStateDrainPostStop, postStopBatches]
  | cons poll polls ih =>
      intro emptyPolls st
      unfold traceStateDrainPostStop postStopBatches
      by_cases hend : postStopEmptyPolls ≤ emptyPolls
      · rw [if_pos hend, if_pos hend, List.map_nil, List.append_nil]
      · rw [if_neg hend, if_neg hend]
        cases poll with
        | none => simp
        | some batch =>
            by_cases hempty : batch = []
            · simp only [hempty, if_true]
              rw [ih]
              simp [hwtCtxPollRecords, HwtCtx.call]
            · simp only [hempty, if_false]
              rw [ih, processRecords_ctx]
              simp [hwtCtxPollRecords, HwtCtx.call]

/-- Polls without a wakeup behind them wake the target when no record pauses it. -/
theorem wakesTarget_recordGets_iff (batches : List Batch) :
    WakesTarget (batches.map fun batch => .recordGet (batch.map (·.record))) ↔
      ∀ batch ∈ batches, ∀ p ∈ batch, p.record.pausesTarget = false := by
  constructor
  · intro h batch hbatch p hp
    obtain ⟨before, after, rfl⟩ := List.append_of_mem hbatch
    by_contra hpauses
    rw [Bool.not_eq_false] at hpauses
    have hwakeup := h _ _ _ (by rw [List.map_append, List.map_cons]) p.record (List.mem_map_of_mem hp) hpauses
    obtain ⟨b, _, hb⟩ := List.mem_map.mp hwakeup
    cases hb
  · intro h pre records post heq rec hrec hpauses
    have hmem : HwtCall.recordGet records ∈ batches.map fun batch => .recordGet (batch.map (·.record)) :=
      heq ▸ List.mem_append_right pre List.mem_cons_self
    obtain ⟨batch, hbatch, hget⟩ := List.mem_map.mp hmem
    cases hget
    obtain ⟨p, hp, rfl⟩ := List.mem_map.mp hrec
    rw [h batch hbatch p hp] at hpauses
    cases hpauses

/-! ## The calls of a session -/

/-- Polls behind calls that wake the target, and a stop, wake it when no record pauses it. -/
theorem wakesTarget_stopped_iff {before : List HwtCall} (h : WakesTarget before) (batches : List Batch) :
    WakesTarget (before ++ .stop :: batches.map fun batch => .recordGet (batch.map (·.record))) ↔
      ∀ batch ∈ batches, ∀ p ∈ batch, p.record.pausesTarget = false := by
  have hstop : WakesTarget [.stop] := TakesNone.wakesTarget (by intro records; simp)
  rw [List.append_cons, ← wakesTarget_recordGets_iff]
  exact ⟨WakesTarget.of_append, (h.append hstop).append⟩

theorem DrainSession.beforeStop_wakes {s : DrainSession} (hpause : s.pauseOnMmap = true) :
    WakesTarget s.beforeStop.ctx.calls := by
  obtain ⟨before, hbefore, hwakes⟩ :=
    (pollingLoop_adds hpause s.mainPolls s.start).trans (finalDrain_adds _ s.finalPoll)
  rwa [DrainSession.beforeStop, hbefore]

theorem DrainSession.run_calls (s : DrainSession) : s.run.ctx.calls = s.beforeStop.ctx.calls ++
    .stop :: (postStopBatches 0 s.postStopPolls).map fun batch => .recordGet (batch.map (·.record)) := by
  rw [DrainSession.run, traceStateDrainPostStop_calls, List.append_cons]
  rfl

/-- The records that a call takes from the queue. -/
def HwtCall.taken : HwtCall → List BsdtraceRecord
  | .recordGet records => records
  | _ => []

theorem TakesNone.taken {calls : List HwtCall} (h : TakesNone calls) : calls.flatMap HwtCall.taken = [] := by
  refine List.flatMap_eq_nil_iff.mpr fun c hc => ?_
  cases c with
  | recordGet records => exact absurd hc (h records)
  | _ => rfl

/-- A step takes these records from the queue, and makes no stop. -/
def Takes (recs : List BsdtraceRecord) (added : List HwtCall) : Prop :=
  added.flatMap HwtCall.taken = recs ∧ .stop ∉ added

theorem Adds.takes {st st' st'' : DrainState} {recs more : List BsdtraceRecord} (h : Adds (Takes recs) st st')
    (h' : Adds (Takes more) st' st'') : Adds (Takes (recs ++ more)) st st'' := by
  obtain ⟨added, hadded, hrecs, hstop⟩ := h
  obtain ⟨added', hadded', hmore, hstop'⟩ := h'
  refine ⟨added ++ added', by rw [hadded', hadded, List.append_assoc], ?_, ?_⟩
  · rw [List.flatMap_append, hrecs, hmore]
  · exact fun hmem => (List.mem_append.mp hmem).elim hstop hstop'

theorem Adds.takes_nil (st : DrainState) : Adds (Takes []) st st :=
  ⟨[], (List.append_nil _).symm, rfl, List.not_mem_nil⟩

theorem emitBatch_takes (pauseOnMmap : Bool) (st : DrainState) (batch : Batch) :
    Adds (Takes (batch.map (·.record))) st (emitBatch pauseOnMmap st batch) := by
  obtain ⟨added, hadded, htarget, -⟩ :=
    emitRecords_adds pauseOnMmap batch { st with ctx := hwtCtxPollRecords st.ctx batch }
  refine ⟨.recordGet (batch.map (·.record)) :: added, ?_, ?_, ?_⟩
  · rw [emitBatch, hadded, hwtCtxPollRecords, HwtCtx.call, List.append_assoc]
    rfl
  · rw [List.flatMap_cons, htarget.takesNone.taken, List.append_nil]
    rfl
  · exact fun hmem => (List.mem_cons.mp hmem).elim nofun htarget.unstopped

theorem pollingLoop_takes (pauseOnMmap : Bool) (polls : List Batch) : ∀ st : DrainState,
    Adds (Takes (polls.flatten.map (·.record))) st (pollingLoop pauseOnMmap st polls) := by
  induction polls with
  | nil => exact Adds.takes_nil
  | cons batch polls ih =>
      intro st
      rw [List.flatten_cons, List.map_append]
      exact (emitBatch_takes pauseOnMmap st batch).takes (ih (emitBatch pauseOnMmap st batch))

/-- What a session takes from the queue in front of the stop. -/
theorem DrainSession.beforeStop_takes (s : DrainSession) :
    Takes ((s.mainPolls ++ s.finalPoll.toList).flatten.map (·.record)) s.beforeStop.ctx.calls := by
  have hfinal : ∀ st : DrainState, Adds (Takes (s.finalPoll.toList.flatten.map (·.record))) st
      (finalDrain st s.finalPoll) := by
    intro st
    cases s.finalPoll with
    | none => exact Adds.takes_nil st
    | some batch => rw [Option.toList_some, List.flatten_singleton]; exact emitBatch_takes ..
  obtain ⟨added, hadded, htakes⟩ := (pollingLoop_takes s.pauseOnMmap s.mainPolls s.start).takes (hfinal _)
  rw [List.flatten_append, List.map_append]
  rwa [DrainSession.beforeStop, hadded]

/-! ## The records of a session -/

/-- The records that the drains of a session process, in their order. -/
def DrainSession.records (s : DrainSession) : List BsdtraceRecord :=
  (s.mainPolls ++ s.finalPoll.toList ++ postStopBatches 0 s.postStopPolls).flatten.map (·.record)

theorem DrainSession.run_taken (s : DrainSession) : s.run.ctx.calls.flatMap HwtCall.taken = s.records := by
  have hpost : ∀ batches : List Batch, (batches.map fun batch => HwtCall.recordGet (batch.map (·.record))).flatMap
      HwtCall.taken = batches.flatten.map (·.record) := fun batches => by
    rw [List.flatMap_map, List.map_flatten]
    rfl
  rw [s.run_calls, List.flatMap_append, s.beforeStop_takes.1, List.flatMap_cons, hpost, DrainSession.records]
  generalize s.mainPolls ++ s.finalPoll.toList = polls
  rw [List.flatten_append, List.map_append]
  rfl

theorem emitRecords_ts (pauseOnMmap : Bool) (batch : Batch) : ∀ st : DrainState,
    (batch.foldl (emitAndProcess pauseOnMmap) st).ts = (batch.map (·.record)).foldl traceStateProcess st.ts := by
  induction batch with
  | nil => intro st; rfl
  | cons p batch ih => intro st; rw [List.foldl_cons, ih, List.map_cons, List.foldl_cons]; rfl

theorem emitBatch_ts (pauseOnMmap : Bool) (st : DrainState) (batch : Batch) :
    (emitBatch pauseOnMmap st batch).ts = (batch.map (·.record)).foldl traceStateProcess st.ts :=
  emitRecords_ts pauseOnMmap batch _

theorem pollingLoop_ts (pauseOnMmap : Bool) (polls : List Batch) : ∀ st : DrainState,
    (pollingLoop pauseOnMmap st polls).ts = (polls.flatten.map (·.record)).foldl traceStateProcess st.ts := by
  induction polls with
  | nil => intro st; rfl
  | cons batch polls ih =>
      intro st
      rw [List.flatten_cons, List.map_append, List.foldl_append, ← emitBatch_ts pauseOnMmap]
      exact ih (emitBatch pauseOnMmap st batch)

theorem processRecords_ts (batch : Batch) : ∀ st : DrainState,
    (batch.foldl (fun (st : DrainState) p => { st with ts := traceStateProcess st.ts p.record }) st).ts =
      (batch.map (·.record)).foldl traceStateProcess st.ts := by
  induction batch with
  | nil => intro st; rfl
  | cons p batch ih => intro st; rw [List.foldl_cons, ih, List.map_cons, List.foldl_cons]

theorem traceStateDrainPostStop_ts (polls : List (Option Batch)) : ∀ (emptyPolls : Nat) (st : DrainState),
    (traceStateDrainPostStop st emptyPolls polls).ts =
      ((postStopBatches emptyPolls polls).flatten.map (·.record)).foldl traceStateProcess st.ts := by
  induction polls with
  | nil => intro emptyPolls st; rfl
  | cons poll polls ih =>
      intro emptyPolls st
      unfold traceStateDrainPostStop postStopBatches
      by_cases hend : postStopEmptyPolls ≤ emptyPolls
      · rw [if_pos hend, if_pos hend]; rfl
      · rw [if_neg hend, if_neg hend]
        cases poll with
        | none => rfl
        | some batch =>
            by_cases hempty : batch = []
            · simp only [hempty, if_true, List.flatten_cons, List.nil_append]
              rw [ih]
            · simp only [hempty, if_false, List.flatten_cons, List.map_append, List.foldl_append]
              rw [ih, processRecords_ts]

/-- The drains feed every record they take to `trace_state_process`, in order. -/
theorem DrainSession.run_ts (s : DrainSession) : s.run.ts = s.records.foldl traceStateProcess s.ts := by
  have hmain : (pollingLoop s.pauseOnMmap s.start s.mainPolls).ts =
      (s.mainPolls.flatten.map (·.record)).foldl traceStateProcess s.ts := pollingLoop_ts ..
  have hfinal : s.beforeStop.ts = (s.finalPoll.toList.flatten.map (·.record)).foldl traceStateProcess
      ((s.mainPolls.flatten.map (·.record)).foldl traceStateProcess s.ts) := by
    rw [← hmain, DrainSession.beforeStop]
    cases s.finalPoll with
    | none => rfl
    | some batch => rw [Option.toList_some, List.flatten_singleton]; exact emitBatch_ts ..
  rw [DrainSession.run, traceStateDrainPostStop_ts, hfinal, DrainSession.records]
  simp only [List.flatten_append, List.map_append, List.foldl_append]

end ObservableBSD.Trace
