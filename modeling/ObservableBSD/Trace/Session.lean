import ObservableBSD.Trace.Finalize

/-!
# The sessions of `exec` and `trace`

The two commands behind their option parsing. Times are nanoseconds, and 0 stands for no bound.
-/

namespace ObservableBSD.Trace.Session

open Base Elf Decode

structure SessionOpts where
  fmt : BsdtraceFmt := .text
  backendName : Option CString := none
  bufsizeStr : CString := cstr "64m"
  duration : Nat := 0
  maxrecords : Nat := 0
  ptOutput : Option CString := none
  rangeSpecs : List RangeSpec := []
  tid : Int32 := 0
  allThreads : Bool := false
  requestedTids : List Int32 := []
  psbFreq : UInt32 := 0
  mtcFreqCli : UInt32 := 0
  cycThreshCli : UInt32 := 0
  timing : Bool := false
  ptwrite : Bool := false
  osTrace : Bool := false
  dryrun : Bool := false
  filterFuncs : List CString := []
  pauseOnMmap : Bool := false

/-! ## Both commands -/

/-- The options of the session in its context; `none` when timing is asked for and the CPU has none. -/
def applyOpts (opts : SessionOpts) (filter : List IpRange) (ctx : HwtCtx) : Prog sys (Option HwtCtx) := do
  let ctx : HwtCtx := { ctx with
    filter
    psbFreq := opts.psbFreq
    ptwrite := opts.ptwrite
    osTrace := opts.osTrace
    allThreads := opts.allThreads
    requestedTids := opts.requestedTids
    mtcFreq := opts.mtcFreqCli
    cycThresh := opts.cycThreshCli }
  if opts.timing && ctx.mtcFreq == 0 && ctx.cycThresh == 0 then
    let (mtcFreq, cycThresh) : UInt32 × UInt32 ← invoke .cpuidTiming
    if mtcFreq == 0 && cycThresh == 0 then pure none else pure (some { ctx with mtcFreq, cycThresh })
  else pure (some ctx)

/-- `snprintf(pt_path, sizeof(pt_path), "bsdtrace-%d.pt", pid)`. -/
def defaultPtPath (pid : Int32) : CString :=
  strlcpy 64 (cstr "bsdtrace-" ++ (intNumeral pid.toInt ++ cstr ".pt"))

/-- Opens the sidecar next to the output and writes its first lines; gives the trace state with it. -/
def openSidecar (ctx : HwtCtx) (ptOutput : CString) (pid tid : Int32) : Prog sys (Option Nat × TraceState) := do
  let file ← metaWriterOpen (deriveMetaPath ptOutput)
  let header := metaWriterHeader pid tid
  let timing := metaWriterTiming ctx.mtcFreq.toUInt8 ctx.cycThresh.toUInt8
  metaWrite file header
  metaWrite file timing
  pure (file, { metaLines := header ++ timing })

def decodeOpts (opts : SessionOpts) (ctx : HwtCtx) : PtDecodeOpts :=
  { tid := ctx.tid.toInt, filterFuncs := opts.filterFuncs }

/-- What the polling loops change. -/
structure PollState where
  ctx : HwtCtx
  ts : TraceState
  totalrecords : Nat := 0
  emptyDrains : Nat := 0

def PollState.emit (st : PollState) (file : Option Nat) (opts : SessionOpts) (recs : List BsdtraceRecord) :
    Prog sys PollState := do
  let (ctx, ts) ← emitRecords file opts.fmt opts.pauseOnMmap (st.ctx, st.ts) recs
  pure { st with ctx, ts, totalrecords := st.totalrecords + recs.length }

/-- `usleep(nrecs > 0 ? 100 : 5000)`. -/
def pollSleep (nrecs : Nat) : Prog sys Unit := invoke (.usleep (if 0 < nrecs then 100 else 5000))

/-- Once the target is gone, keep draining a few times; the flag says that the loop is left. -/
def PollState.drain (st : PollState) (gone : Bool) (nrecs : Nat) : PollState × Bool :=
  if gone then
    if nrecs = 0 then ({ st with emptyDrains := st.emptyDrains + 1 }, 5 ≤ st.emptyDrains + 1)
    else ({ st with emptyDrains := 0 }, false)
  else (st, false)

/-! ## trace -/

def seedProcessMmaps (file : Option Nat) (ts : TraceState) (pid : Int32) : Prog sys TraceState := do
  let vmmap ← invoke (.vmmap pid)
  metaWrite file (((processExecMmaps vmmap).map metaWriterSections).getD [])
  pure (traceStateSeedProcessMmaps ts vmmap)

structure TraceLoop where
  poll : PollState
  targetGone : Bool := false

/-- Whether the duration is over, which is looked at while the target is there. -/
def TraceLoop.expired (st : TraceLoop) (opts : SessionOpts) (start : Nat) : Prog sys Bool :=
  if !st.targetGone && 0 < opts.duration then do
    let now : Nat ← invoke .clockGettime
    pure (opts.duration ≤ now - start)
  else pure false

def TraceLoop.checkTarget (st : TraceLoop) (pid : Int32) : Prog sys Bool :=
  if st.targetGone then pure true
  else do
    let there : Bool ← invoke (.kill pid .null)
    pure !there

def traceTurn (opts : SessionOpts) (file : Option Nat) (pid : Int32) (start : Nat) (st : TraceLoop) :
    Prog sys (TraceLoop ⊕ TraceLoop) := do
  let interrupted : Bool ← invoke .interrupted
  if interrupted then pure (.inr st)
  else
    let expired ← st.expired opts start
    if expired then pure (.inr st)
    else if !st.targetGone ∧ 0 < opts.maxrecords ∧ opts.maxrecords ≤ st.poll.totalrecords then pure (.inr st)
    else
      let gone ← st.checkTarget pid
      match ← hwtCtxPollRecords st.poll.ctx pollMaxRecords with
      | none => pure (.inr { st with targetGone := gone })
      | some recs => do
          let poll ← st.poll.emit file opts recs
          let (poll, left) := poll.drain gone recs.length
          if left then pure (.inr { poll, targetGone := gone })
          else
            pollSleep recs.length
            pure (.inl { poll, targetGone := gone })

/-- `cmd_trace` once tracing runs. -/
def traceRunning (host : Host) (opts : SessionOpts) (pid : Int32) (ctx : HwtCtx) : Prog sys Int := do
  let ptOutput := opts.ptOutput.getD (defaultPtPath pid)
  let (file, ts) ← openSidecar ctx ptOutput pid opts.tid
  let ts ← seedProcessMmaps file ts pid
  let start : Nat ← invoke .clockGettime
  let st ← .iterate (traceTurn opts file pid start) { poll := { ctx, ts } }
  let total ← traceFinalize host st.poll.ctx st.poll.ts file ptOutput opts.fmt st.poll.totalrecords
    (decodeOpts opts st.poll.ctx)
  invoke (.signal .int false)
  invoke (.signal .pipe false)
  pure (if total < 0 then 1 else 0)

/-- `cmd_trace` from its signal handlers on. -/
def traceSession (host : Host) (opts : SessionOpts) (pid : Int32) (ctx : HwtCtx) : Prog sys Int := do
  invoke (.signal .int true)
  invoke (.signal .pipe true)
  let started ← hwtCtxStart ctx
  if started then traceRunning host opts pid ctx
  else
    hwtCtxClose ctx
    pure 1

/-- The range filter of `trace`; `none` is a failure. -/
def traceFilter (host : Host) (opts : SessionOpts) (pid : Int32) : Prog sys (Option (List IpRange)) := do
  if 0 < opts.rangeSpecs.length then
    match ← invoke (.exePath pid) with
    | none => pure none
    | some fullpath => do
        let vmmap ← invoke (.vmmap pid)
        pure ((resolveRangeSpecs host.files opts.rangeSpecs vmmap (some fullpath) false).map (·.1))
  else pure (some [])

/-- `cmd_trace` once its context is allocated. -/
def traceConfigured (host : Host) (opts : SessionOpts) (pid : Int32) (filter : List IpRange) (ctx : HwtCtx) :
    Prog sys Int := do
  match ← applyOpts opts filter ctx with
  | none => do
      hwtCtxClose ctx
      pure 1
  | some ctx => do
      let configured ← hwtCtxSetConfig ctx opts.pauseOnMmap
      if configured && !opts.dryrun then traceSession host opts pid ctx
      else
        hwtCtxClose ctx
        pure (if configured then 0 else 1)

def cmdTrace (host : Host) (opts : SessionOpts) (pid : Int32) : Prog sys Int := do
  if pid ≤ 0 then pure 1
  else
    let there : Bool ← invoke (.kill pid .null)
    if there then
      match ← resolveBackend opts.backendName with
      | none => pure 1
      | some backendName => do
          let hooks ← checkHwtHooks opts.dryrun
          if hooks then
            match ← traceFilter host opts pid with
            | none => pure 1
            | some filter =>
                match ← hwtCtxAlloc host pid opts.tid (parseSize opts.bufsizeStr) backendName with
                | none => pure 1
                | some ctx => traceConfigured host opts pid filter ctx
          else pure 1
    else pure 1

/-! ## exec -/

/-- Kills a child and waits for it. -/
def killChild (child : Int32) : Prog sys Unit := do
  let _ ← invoke (.kill child .kill)
  let _ ← invoke (.waitpid child .block)
  pure ()

/-- The parent's side of `fork_stopped`. -/
def forkStopped (args : List CString) (noAslr : Bool) : Prog sys (Option Int32) := do
  match ← invoke (.fork args noAslr) with
  | none => pure none
  | some pid =>
      match ← invoke (.waitpid pid .untraced) with
      | .stopped => pure (some pid)
      | _ => do
          killChild pid
          pure none

structure ExecLoop where
  poll : PollState
  childDone : Bool := false
  exitcode : Int := 0

/-- A poll error while the child is still running: kill it, reap it. -/
def pollError (st : ExecLoop) (child : Int32) : Prog sys ExecLoop := do
  let _ ← invoke (.kill child .kill)
  let answer : WaitAnswer ← invoke (.waitpid child .block)
  pure { st with
    childDone := true
    exitcode := match answer with
      | .exited (.signaled sig) => 128 + sig
      | _ => 1 }

def ExecLoop.checkChild (st : ExecLoop) (answer : WaitAnswer) : ExecLoop :=
  match answer with
  | .exited status => { st with childDone := true, exitcode := exitCodeOf status }
  | _ => st

/-- The rest of a turn, behind the look at the child. -/
def execDrain (opts : SessionOpts) (file : Option Nat) (child : Int32) (st : ExecLoop) :
    Prog sys (ExecLoop ⊕ ExecLoop) := do
  match ← hwtCtxPollRecords st.poll.ctx pollMaxRecords with
  | none =>
      if st.childDone then pure (.inr st)
      else do
        let st ← pollError st child
        pure (.inr st)
  | some recs => do
      let poll ← st.poll.emit file opts recs
      let (poll, left) := poll.drain st.childDone recs.length
      if left then pure (.inr { st with poll })
      else do
        pollSleep recs.length
        pure (.inl { st with poll })

def execTurn (opts : SessionOpts) (file : Option Nat) (child : Int32) (start : Nat) (st : ExecLoop) :
    Prog sys (ExecLoop ⊕ ExecLoop) := do
  let now : Nat ← invoke .clockGettime
  if (0 < opts.duration ∧ opts.duration ≤ now - start) ∨
      (0 < opts.maxrecords ∧ opts.maxrecords ≤ st.poll.totalrecords) then do
    let _ ← invoke (.kill child .kill)
    pure (.inr st)
  else do
    let answer : WaitAnswer ← invoke (.waitpid child .nohang)
    execDrain opts file child (st.checkChild answer)

/-- Behind the loop, the child is reaped if it was killed in it. -/
def execReap (st : ExecLoop) (child : Int32) : Prog sys ExecLoop := do
  if st.childDone then pure st
  else
    match ← invoke (.waitpid child .block) with
    | .exited status => pure { st with exitcode := exitCodeOf status }
    | _ => pure { st with exitcode := 0 }

/-- `cmd_exec` once tracing runs. -/
def execRunning (host : Host) (opts : SessionOpts) (child : Int32) (ctx : HwtCtx) : Prog sys Int := do
  let ptOutput := opts.ptOutput.getD (defaultPtPath child)
  let (file, ts) ← openSidecar ctx ptOutput child opts.tid
  invoke (.signal .pipe true)
  let _ ← invoke (.kill child .cont)
  let start : Nat ← invoke .clockGettime
  let st ← .iterate (execTurn opts file child start) { poll := { ctx, ts } }
  let st ← execReap st child
  let _ ← traceFinalize host st.poll.ctx st.poll.ts file ptOutput opts.fmt st.poll.totalrecords
    (decodeOpts opts st.poll.ctx)
  pure st.exitcode

/-- `cmd_exec` from the start of tracing on. -/
def execSession (host : Host) (opts : SessionOpts) (child : Int32) (ctx : HwtCtx) : Prog sys Int := do
  let started ← hwtCtxStart ctx
  if started then execRunning host opts child ctx
  else
    hwtCtxClose ctx
    killChild child
    pure 1

/-- `cmd_exec` once its context is allocated. -/
def execConfigured (host : Host) (opts : SessionOpts) (child : Int32) (filter : List IpRange) (ctx : HwtCtx) :
    Prog sys Int := do
  match ← applyOpts opts filter ctx with
  | none => do
      killChild child
      hwtCtxClose ctx
      pure 1
  | some ctx => do
      let configured ← hwtCtxSetConfig ctx opts.pauseOnMmap
      if configured && !opts.dryrun then execSession host opts child ctx
      else
        hwtCtxClose ctx
        killChild child
        pure (if configured then 0 else 1)

/-- `cmd_exec` once its child is stopped. -/
def execForked (host : Host) (opts : SessionOpts) (child : Int32) (filter : List IpRange) (backendName : CString) :
    Prog sys Int := do
  match ← hwtCtxAlloc host child opts.tid (parseSize opts.bufsizeStr) backendName with
  | none => do
      killChild child
      pure 1
  | some ctx => execConfigured host opts child filter ctx

/-- The elements of `PATH`: what is between the colons, without an empty one at the end. -/
def pathElements (path : CString) : List CString :=
  let parts := path.splitOn 58
  if parts.getLast? = some [] then parts.dropLast else parts

/-- The first executable file of the name in the directories. -/
def searchPath (name : CString) : List CString → Prog sys (Option CString)
  | [] => pure none
  | dir :: dirs => do
      let path := strlcpy maxPathLen (dir ++ (47 :: name))
      let found : Bool ← invoke (.statExecutable path)
      if found then pure (some path) else searchPath name dirs

/-- The file in which `exec` looks for symbols. -/
def exeForSymbols (name : CString) : Prog sys CString := do
  if 47 ∈ name then pure name
  else
    let path : Option CString ← invoke .getenvPath
    let found ← searchPath name (pathElements (path.getD []))
    pure (found.getD name)

/-- The range filter of `exec`, and whether ASLR must be disabled; `none` is a failure. -/
def execFilter (host : Host) (opts : SessionOpts) (name : CString) : Prog sys (Option (List IpRange × Bool)) := do
  if 0 < opts.rangeSpecs.length then
    let exe ← exeForSymbols name
    pure (resolveRangeSpecs host.files opts.rangeSpecs none (some exe) true)
  else pure (some ([], false))

def cmdExec (host : Host) (opts : SessionOpts) (noAslr : Bool) (name : CString) (args : List CString) :
    Prog sys Int := do
  match ← execFilter host opts name with
  | none => pure 1
  | some (filter, aslrDisable) =>
      match ← resolveBackend opts.backendName with
      | none => pure 1
      | some backendName => do
          let hooks ← checkHwtHooks opts.dryrun
          if hooks then
            match ← forkStopped (name :: args) (noAslr || aslrDisable) with
            | none => pure 1
            | some child => execForked host opts child filter backendName
          else pure 1

end ObservableBSD.Trace.Session
