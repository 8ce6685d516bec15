import Mathlib.Data.List.Induction
import ObservableBSD.Trace.Drain

/-!
# The threads whose devices are open

Whatever the order of the records, the open threads are the first ones that were asked for, reported and opened.
-/

namespace ObservableBSD.Trace

open Base

/-! ## First occurrences -/

section

variable {α : Type*} [DecidableEq α]

theorem eraseDups_concat (l : List α) (a : α) :
    (l ++ [a]).eraseDups = l.eraseDups ++ if a ∈ l then [] else [a] := by
  rw [List.eraseDups_append]
  congr 1
  by_cases h : a ∈ l
  · simp [List.removeAll, h]
  · simp [List.removeAll, h, List.eraseDups_cons]

theorem nodup_eraseDups (l : List α) : l.eraseDups.Nodup := by
  induction l using List.reverseRecOn with
  | nil => exact List.nodup_nil
  | append_singleton l a ih =>
      rw [eraseDups_concat]
      split
      · rwa [List.append_nil]
      · rename_i h
        refine List.nodup_append.mpr ⟨ih, List.nodup_singleton a, fun b hb c hc => ?_⟩
        rw [List.mem_singleton.mp hc]
        exact fun hbc => h (hbc ▸ List.mem_eraseDups.mp hb)

end

/-! ## The table of open threads -/

/-- The threads that are open behind a sequence of records. -/
def DrainState.threadsAfter (st : DrainState) (pauseOnMmap : Bool) (recs : List PolledRecord) : List Int32 :=
  (recs.foldl (emitAndProcess pauseOnMmap) st).ctx.threads

/-- A report of a thread that the context asks for, whose device can be opened. -/
def HwtCtx.opensThread (ctx : HwtCtx) (p : PolledRecord) : Bool := ctx.wantsThread p.record && p.opens

/-- The threads of such reports, in the order of the first report of each. -/
def HwtCtx.firstOpens (ctx : HwtCtx) (recs : List PolledRecord) : List Int32 :=
  ((recs.filter ctx.opensThread).map fun p => p.record.threadId).eraseDups

theorem HwtCtx.mem_firstOpens {ctx : HwtCtx} {recs : List PolledRecord} {t : Int32} :
    t ∈ ctx.firstOpens recs ↔ ∃ p ∈ recs, ctx.opensThread p = true ∧ p.record.threadId = t := by
  simp [firstOpens, List.mem_eraseDups, and_assoc]

theorem HwtCtx.firstOpens_concat (ctx : HwtCtx) (recs : List PolledRecord) (p : PolledRecord) :
    ctx.firstOpens (recs ++ [p]) = ctx.firstOpens recs ++
      if ctx.opensThread p = true ∧ p.record.threadId ∉ ctx.firstOpens recs then [p.record.threadId] else [] := by
  unfold firstOpens
  rw [List.filter_append, List.map_append]
  by_cases h : ctx.opensThread p = true
  · rw [List.filter_cons_of_pos h, List.filter_nil, List.map_singleton, eraseDups_concat]
    congr 1
    by_cases hmem : p.record.threadId ∈ (recs.filter ctx.opensThread).map fun p => p.record.threadId
    · simp [h, List.mem_eraseDups, hmem]
    · simp [h, List.mem_eraseDups, hmem]
  · rw [List.filter_cons_of_neg h]
    simp [h]

theorem HwtCtx.firstOpens_prefix (ctx : HwtCtx) (recs more : List PolledRecord) :
    ctx.firstOpens recs <+: ctx.firstOpens (recs ++ more) := by
  unfold firstOpens
  rw [List.filter_append, List.map_append, List.eraseDups_append]
  exact List.prefix_append _ _

/-- The settings that say which threads are wanted. -/
def SameWants (ctx ctx' : HwtCtx) : Prop :=
  ctx'.tid = ctx.tid ∧ ctx'.allThreads = ctx.allThreads ∧ ctx'.requestedTids = ctx.requestedTids

theorem SameWants.wantsThread {ctx ctx' : HwtCtx} (h : SameWants ctx ctx') : ctx'.wantsThread = ctx.wantsThread := by
  obtain ⟨htid, hall, hrequested⟩ := h
  funext rec
  rw [HwtCtx.wantsThread, htid, hall, hrequested, HwtCtx.wantsThread]

theorem hwtCtxOpenThread_spec (ctx : HwtCtx) (threadId : Int32) (opens : Bool) :
    SameWants ctx (hwtCtxOpenThread ctx threadId opens) ∧ (hwtCtxOpenThread ctx threadId opens).threads =
      ctx.threads ++
        if opens = true ∧ ctx.threads.length < maxThreads ∧ threadId ∉ ctx.threads then [threadId] else [] := by
  unfold hwtCtxOpenThread
  split
  · rename_i hfull
    exact ⟨⟨rfl, rfl, rfl⟩, by simp [Nat.not_lt.mpr hfull]⟩
  · rename_i hroom
    split
    · rename_i hmem
      exact ⟨⟨rfl, rfl, rfl⟩, by simp [hmem]⟩
    · rename_i hmem
      cases opens with
      | false => exact ⟨⟨rfl, rfl, rfl⟩, by simp [HwtCtx.call]⟩
      | true => exact ⟨⟨rfl, rfl, rfl⟩, by simp [HwtCtx.call, hmem, Nat.lt_of_not_le hroom]⟩

theorem emitAndProcess_spec (pauseOnMmap : Bool) (st : DrainState) (p : PolledRecord) :
    SameWants st.ctx (emitAndProcess pauseOnMmap st p).ctx ∧ (emitAndProcess pauseOnMmap st p).ctx.threads =
      st.ctx.threads ++ if st.ctx.opensThread p = true ∧ st.ctx.threads.length < maxThreads ∧
        p.record.threadId ∉ st.ctx.threads then [p.record.threadId] else [] := by
  -- a wakeup leaves the table and the settings alone
  obtain ⟨ctx, hctx, hsame, hthreads⟩ : ∃ ctx,
      (if pauseOnMmap && p.record.pausesTarget then hwtCtxWakeup st.ctx else st.ctx) = ctx ∧
        SameWants st.ctx ctx ∧ ctx.threads = st.ctx.threads := by
    split
    · exact ⟨_, rfl, ⟨rfl, rfl, rfl⟩, rfl⟩
    · exact ⟨_, rfl, ⟨rfl, rfl, rfl⟩, rfl⟩
  simp only [emitAndProcess, hctx, HwtCtx.opensThread, ← hsame.wantsThread, ← hthreads]
  by_cases hwants : ctx.wantsThread p.record = true
  · obtain ⟨hsame', hthreads'⟩ := hwtCtxOpenThread_spec ctx p.record.threadId p.opens
    rw [if_pos hwants]
    refine ⟨⟨hsame'.1.trans hsame.1, hsame'.2.1.trans hsame.2.1, hsame'.2.2.trans hsame.2.2⟩, ?_⟩
    rw [hthreads', hwants, Bool.true_and]
  · rw [if_neg hwants]
    exact ⟨hsame, by simp [hwants]⟩

/-- Behind any records, the first threads for which there is room are open. -/
theorem foldl_emitAndProcess_spec {st : DrainState} (hstart : st.ctx.threads = []) (pauseOnMmap : Bool)
    (recs : List PolledRecord) : SameWants st.ctx (recs.foldl (emitAndProcess pauseOnMmap) st).ctx ∧
      st.threadsAfter pauseOnMmap recs = (st.ctx.firstOpens recs).take maxThreads := by
  unfold DrainState.threadsAfter
  induction recs using List.reverseRecOn with
  | nil => exact ⟨⟨rfl, rfl, rfl⟩, hstart⟩
  | append_singleton recs p ih =>
      obtain ⟨hsame, hthreads⟩ := ih
      obtain ⟨hsame', hthreads'⟩ := emitAndProcess_spec pauseOnMmap (recs.foldl (emitAndProcess pauseOnMmap) st) p
      rw [List.foldl_append, List.foldl_cons, List.foldl_nil]
      refine ⟨⟨hsame'.1.trans hsame.1, hsame'.2.1.trans hsame.2.1, hsame'.2.2.trans hsame.2.2⟩, ?_⟩
      rw [hthreads', hthreads, HwtCtx.opensThread, hsame.wantsThread, ← HwtCtx.opensThread, HwtCtx.firstOpens_concat]
      generalize st.ctx.firstOpens recs = opened
      by_cases hroom : opened.length < maxThreads
      · have hall : opened.take maxThreads = opened := List.take_of_length_le (Nat.le_of_lt hroom)
        rw [hall]
        split
        · rename_i h
          rw [if_pos ⟨h.1, h.2.2⟩, List.take_of_length_le (by simpa using hroom)]
        · rename_i h
          rw [if_neg fun hnew => h ⟨hnew.1, hroom, hnew.2⟩, List.append_nil, hall]
      · have hfull : ¬ (opened.take maxThreads).length < maxThreads := by
          rw [List.length_take]
          omega
        rw [if_neg fun h => hfull h.2.1, List.append_nil,
          List.take_append_of_le_length (Nat.le_of_not_lt hroom)]

/-- A report for which there was room is in the table from then on. -/
theorem mem_threadsAfter {st : DrainState} (hstart : st.ctx.threads = []) {pauseOnMmap : Bool}
    {front : List PolledRecord}
    {p : PolledRecord} (hopens : st.ctx.opensThread p = true)
    (hroom : (st.threadsAfter pauseOnMmap front).length < maxThreads) (back : List PolledRecord) :
    p.record.threadId ∈ st.threadsAfter pauseOnMmap (front ++ p :: back) := by
  rw [(foldl_emitAndProcess_spec hstart pauseOnMmap _).2, List.length_take] at hroom
  rw [(foldl_emitAndProcess_spec hstart pauseOnMmap _).2]
  have hmem : p.record.threadId ∈ st.ctx.firstOpens (front ++ [p]) :=
    HwtCtx.mem_firstOpens.mpr ⟨p, by simp, hopens, rfl⟩
  have hfits : (st.ctx.firstOpens (front ++ [p])).length ≤ maxThreads := by
    rw [HwtCtx.firstOpens_concat, List.length_append]
    split <;> simp only [List.length_singleton, List.length_nil] <;> omega
  have hfront := (st.ctx.firstOpens_prefix (front ++ [p]) back).take maxThreads
  rw [List.take_of_length_le hfits, List.append_assoc, List.singleton_append] at hfront
  exact hfront.subset hmem

end ObservableBSD.Trace
