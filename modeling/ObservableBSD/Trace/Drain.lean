import ObservableBSD.Trace.State

/-!
# Drains of the record queue

Records leave the kernel's queue in the polling loop, in the final drain of `trace_finalize`, and in the
drain behind the stop. Each poll gives whatever the kernel holds at that time. The calls made on the
context are kept in a log.
-/

namespace ObservableBSD.Trace

open Base

/-- A call on the context: a poll with the records that it takes from the queue, an `open` of a thread's
device, or an ioctl. -/
inductive HwtCall where
  | recordGet (records : List BsdtraceRecord)
  | openThread (threadId : Int32)
  | wakeup
  | stop
deriving DecidableEq

/-- `struct hwt_ctx`, as far as the drains use it. `threads` are the threads whose devices are open. -/
structure HwtCtx where
  tid : Int32
  allThreads : Bool
  requestedTids : List Int32
  threads : List Int32 := []
  calls : List HwtCall := []

def maxThreads : Nat := 64

def HwtCtx.call (ctx : HwtCtx) (c : HwtCall) : HwtCtx := { ctx with calls := ctx.calls ++ [c] }

/-- A record, and whether the device that it makes the program open can be opened. -/
structure PolledRecord where
  record : BsdtraceRecord
  opens : Bool := true
deriving DecidableEq

abbrev Batch := List PolledRecord

structure DrainState where
  ctx : HwtCtx
  ts : TraceState := {}

def hwtCtxWakeup (ctx : HwtCtx) : HwtCtx := ctx.call .wakeup

def hwtCtxStop (ctx : HwtCtx) : HwtCtx := ctx.call .stop

def hwtCtxOpenThread (ctx : HwtCtx) (threadId : Int32) (opens : Bool) : HwtCtx :=
  if maxThreads ≤ ctx.threads.length then ctx
  else if threadId ∈ ctx.threads then ctx
  else
    let ctx := ctx.call (.openThread threadId)
    if opens then { ctx with threads := ctx.threads ++ [threadId] } else ctx

/-- The target waits for a wakeup behind such a record when pause-on-mmap is on. -/
def BsdtraceRecord.pausesTarget (rec : BsdtraceRecord) : Bool := rec.type = .mmap || rec.type = .executable

/-- A new thread that is traced too: any in all-threads mode, else those asked for. -/
def HwtCtx.wantsThread (ctx : HwtCtx) (rec : BsdtraceRecord) : Bool :=
  rec.type = .threadCreate && rec.threadId ≠ ctx.tid && (ctx.allThreads || ctx.requestedTids.contains rec.threadId)

/-- `emit_and_process`, without the line that it prints. -/
def emitAndProcess (pauseOnMmap : Bool) (st : DrainState) (p : PolledRecord) : DrainState :=
  let ctx := if pauseOnMmap && p.record.pausesTarget then hwtCtxWakeup st.ctx else st.ctx
  let ctx := if ctx.wantsThread p.record then hwtCtxOpenThread ctx p.record.threadId p.opens else ctx
  { ctx, ts := traceStateProcess st.ts p.record }

/-- `hwt_ctx_poll_records`, when it gives a batch. -/
def hwtCtxPollRecords (ctx : HwtCtx) (batch : Batch) : HwtCtx := ctx.call (.recordGet (batch.map (·.record)))

/-- A poll whose records go to `emit_and_process`. -/
def emitBatch (pauseOnMmap : Bool) (st : DrainState) (batch : Batch) : DrainState :=
  batch.foldl (emitAndProcess pauseOnMmap) { st with ctx := hwtCtxPollRecords st.ctx batch }

/-- The polls of the loop of `cmd_exec` or of `cmd_trace`. -/
def pollingLoop (pauseOnMmap : Bool) (st : DrainState) (polls : List Batch) : DrainState :=
  polls.foldl (emitBatch pauseOnMmap) st

/-- The drain in front of the stop, which always wakes the target; `none` is a failed poll. -/
def finalDrain (st : DrainState) : Option Batch → DrainState
  | none => st
  | some batch => emitBatch true st batch

def postStopEmptyPolls : Nat := 40

/-- `trace_state_drain_post_stop`, over the polls it meets; `none` is a failed poll. -/
def traceStateDrainPostStop (st : DrainState) : Nat → List (Option Batch) → DrainState
  | _, [] => st
  | emptyPolls, poll :: polls =>
      if postStopEmptyPolls ≤ emptyPolls then st
      else match poll with
        | none => st
        | some batch =>
            let st := { st with ctx := hwtCtxPollRecords st.ctx batch }
            if batch = [] then traceStateDrainPostStop st (emptyPolls + 1) polls
            else
              traceStateDrainPostStop
                (batch.foldl (fun st p => { st with ts := traceStateProcess st.ts p.record }) st) 0 polls

/-- A session of `exec` or `trace`: the threads it traces, its trace state when tracing starts, and the polls
of its loop, of the final drain, and of the drain behind the stop. -/
structure DrainSession where
  tid : Int32
  allThreads : Bool
  requestedTids : List Int32
  ts : TraceState := {}
  pauseOnMmap : Bool
  mainPolls : List Batch
  finalPoll : Option Batch
  postStopPolls : List (Option Batch)

def DrainSession.start (s : DrainSession) : DrainState where
  ctx := { tid := s.tid, allThreads := s.allThreads, requestedTids := s.requestedTids }
  ts := s.ts

/-- The state in front of the stop. -/
def DrainSession.beforeStop (s : DrainSession) : DrainState :=
  finalDrain (pollingLoop s.pauseOnMmap s.start s.mainPolls) s.finalPoll

def DrainSession.run (s : DrainSession) : DrainState :=
  let st := s.beforeStop
  traceStateDrainPostStop { st with ctx := hwtCtxStop st.ctx } 0 s.postStopPolls

end ObservableBSD.Trace
