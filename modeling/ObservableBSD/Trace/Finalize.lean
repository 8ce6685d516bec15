import ObservableBSD.Trace.Context

/-!
# The end of a tracing session

What `exec` and `trace` share: a record as it is drained, the drain behind the stop, the snapshots of the
buffers with their sidecars, and the cleanup.
-/

namespace ObservableBSD.Trace.Session

open Base Elf Decode

/-! ## The sidecar -/

/-- The lines of a `meta_writer`; without a file nothing is written. -/
def metaWrite (file : Option Nat) : List CString → Prog sys Unit
  | [] => pure ()
  | line :: lines => do
      eachSome file fun f => invoke (.fprintf f line)
      metaWrite file lines

def metaWriterOpen (path : CString) : Prog sys (Option Nat) := invoke (.fopen path)

def metaWriterClose (file : Option Nat) : Prog sys Unit := eachSome file fun f => invoke (.fclose f)

/-- A path without the suffix `.pt`. -/
def ptStem (path : CString) : CString :=
  if 3 < path.length ∧ path.drop (path.length - 3) = cstr ".pt" then path.take (path.length - 3) else path

/-- `derive_meta_path`. -/
def deriveMetaPath (ptOutput : CString) : CString := strlcpy maxPathLen (ptStem ptOutput ++ cstr ".meta")

/-- The path of the buffer of an additional thread. -/
def threadPath (ptOutput : CString) (threadId : Int32) : CString :=
  strlcpy maxPathLen (ptStem ptOutput ++ (cstr "-tid" ++ (intNumeral threadId.toInt ++ cstr ".pt")))

/-! ## Records -/

def traceStateProcess (file : Option Nat) (ts : TraceState) (rec : BsdtraceRecord) : Prog sys TraceState := do
  metaWrite file (metaWriterRecord rec)
  pure (Trace.traceStateProcess ts rec)

def processRecords (file : Option Nat) (ts : TraceState) (recs : List BsdtraceRecord) : Prog sys TraceState :=
  recs.foldlM (traceStateProcess file) ts

def wantsThread (ctx : HwtCtx) (rec : BsdtraceRecord) : Bool :=
  rec.type = .threadCreate && rec.threadId ≠ ctx.tid && (ctx.allThreads || ctx.requestedTids.contains rec.threadId)

/-- `fmt_record_json` or `fmt_record_text`. -/
def printRecord (fmt : BsdtraceFmt) (rec : BsdtraceRecord) : Prog sys Unit :=
  if fmt = .json ∨ fmt = .text then invoke (.print rec fmt) else pure ()

def wakeTarget (ctx : HwtCtx) (pauseOnMmap : Bool) (rec : BsdtraceRecord) : Prog sys Bool :=
  if pauseOnMmap && rec.pausesTarget then hwtCtxWakeup ctx else pure true

def openWanted (ctx : HwtCtx) (rec : BsdtraceRecord) : Prog sys HwtCtx :=
  if wantsThread ctx rec then hwtCtxOpenThread ctx rec.threadId else pure ctx

def emitAndProcess (file : Option Nat) (fmt : BsdtraceFmt) (pauseOnMmap : Bool) (st : HwtCtx × TraceState)
    (rec : BsdtraceRecord) : Prog sys (HwtCtx × TraceState) := do
  printRecord fmt rec
  let _ ← wakeTarget st.1 pauseOnMmap rec
  let ctx ← openWanted st.1 rec
  let ts ← traceStateProcess file st.2 rec
  pure (ctx, ts)

def emitRecords (file : Option Nat) (fmt : BsdtraceFmt) (pauseOnMmap : Bool) (st : HwtCtx × TraceState)
    (recs : List BsdtraceRecord) : Prog sys (HwtCtx × TraceState) :=
  recs.foldlM (emitAndProcess file fmt pauseOnMmap) st

/-- `MAX_POLL_RECORDS`, `POLL_RECORDS` and `POST_STOP_MAX_RECORDS`. -/
def pollMaxRecords : Nat := 256

/-- The variables of the drain behind the stop. -/
structure PostStop where
  ts : TraceState
  emptyPolls : Nat := 0
  total : Nat := 0

def postStopTurn (ctx : HwtCtx) (file : Option Nat) (st : PostStop) : Prog sys (PostStop ⊕ PostStop) := do
  if postStopEmptyPolls ≤ st.emptyPolls then pure (.inr st)
  else match ← hwtCtxPollRecords ctx pollMaxRecords with
    | none => pure (.inr st)
    | some [] => do
        invoke (.usleep 5000)
        pure (.inl { st with emptyPolls := st.emptyPolls + 1 })
    | some recs => do
        let ts ← processRecords file st.ts recs
        pure (.inl { ts, emptyPolls := 0, total := st.total + recs.length })

def traceStateDrainPostStop (ctx : HwtCtx) (file : Option Nat) (ts : TraceState) : Prog sys PostStop :=
  .iterate (postStopTurn ctx file) { ts }

/-! ## Snapshots -/

/-- The buffer of an additional thread, mapped at its first use. -/
def mapThread (bufsize : UInt64) (thread : HwtThreadCtx) : Prog sys (Option Nat × HwtThreadCtx) :=
  match thread.traceBuf with
  | some addr => pure (some addr, thread)
  | none => do
      let ptr ← invoke (.mmap bufsize.toNat thread.fd)
      pure (ptr, { thread with traceBuf := ptr })

/-- The position in the buffer of an additional thread; 0 when it cannot be read, or lies outside. -/
def threadPosition (bufsize : UInt64) (thread : HwtThreadCtx) : Prog sys Nat := do
  match ← invoke (.bufptrGet thread.fd) with
  | none => pure 0
  | some (page, offset) =>
      let len := (bufferPosition page.toInt offset).toNat
      pure (if bufsize.toNat < len then 0 else len)

/-- The sidecar of an additional thread. -/
def threadSidecar (ctx : HwtCtx) (ts : TraceState) (tpath : CString) (threadId : Int32) : Prog sys Unit := do
  let file ← metaWriterOpen (deriveMetaPath tpath)
  metaWrite file (metaWriterHeader ctx.pid threadId)
  metaWrite file (metaWriterTiming ctx.mtcFreq.toUInt8 ctx.cycThresh.toUInt8)
  metaWrite file (metaWriterSections ts.sections)
  metaWriterClose file

def printThread (fmt : BsdtraceFmt) (threadId : Int32) : Prog sys Unit :=
  if fmt = .text then invoke (.printThread threadId) else pure ()

/-- The decoder on the bytes that a thread's buffer was saved from. -/
def decodeThread (ts : TraceState) (fmt : BsdtraceFmt) (dopts : PtDecodeOpts) (threadId : Int32) (tbuf tlen : Nat) :
    Prog sys Unit := do
  printThread fmt threadId
  invoke (.decodePtInsn tbuf tlen ts.sections fmt { dopts with tid := threadId.toInt })

/-- Saves and decodes `tlen` bytes of a thread's buffer; gives the bytes saved. -/
def saveThread (ctx : HwtCtx) (ts : TraceState) (ptOutput : CString) (fmt : BsdtraceFmt) (dopts : PtDecodeOpts)
    (threadId : Int32) (tbuf tlen : Nat) : Prog sys Nat := do
  let tpath := threadPath ptOutput threadId
  match ← openOutput tpath with
  | none => pure 0
  | some fd => do
      let written ← writeBuffer fd tbuf tlen
      close fd
      if written then
        threadSidecar ctx ts tpath threadId
        decodeThread ts fmt dopts threadId tbuf tlen
        pure tlen
      else pure 0

/-- The snapshot of an additional thread. -/
def snapshotThread (host : Host) (ctx : HwtCtx) (ts : TraceState) (ptOutput : CString) (fmt : BsdtraceFmt)
    (dopts : PtDecodeOpts) (thread : HwtThreadCtx) : Prog sys (HwtThreadCtx × Nat) := do
  let len ← threadPosition ctx.bufsize thread
  match ← mapThread ctx.bufsize thread with
  | (none, thread) => pure (thread, 0)
  | (some tbuf, thread) => do
      let bytes ← loadBytes tbuf ctx.bufsize.toNat
      let tlen := chooseSnapshotLen host.probe bytes.val len ts.sections
      if tlen = 0 then pure (thread, 0)
      else
        let saved ← saveThread ctx ts ptOutput fmt dopts thread.threadId tbuf tlen
        pure (thread, saved)

def snapshotThreads (host : Host) (ctx : HwtCtx) (ts : TraceState) (ptOutput : CString) (fmt : BsdtraceFmt)
    (dopts : PtDecodeOpts) : List HwtThreadCtx → Int → Prog sys (List HwtThreadCtx × Int)
  | [], saved => pure ([], saved)
  | thread :: threads, saved => do
      let (thread, tsaved) ← snapshotThread host ctx ts ptOutput fmt dopts thread
      let saved := if 0 ≤ saved then saved + tsaved else saved
      let (threads, saved) ← snapshotThreads host ctx ts ptOutput fmt dopts threads saved
      pure (thread :: threads, saved)

/-- The decoder on the bytes that were saved, if any were. -/
def decodeSaved (ts : TraceState) (fmt : BsdtraceFmt) (dopts : PtDecodeOpts) (buf : Nat) (saved : Int) : Prog sys Unit :=
  if 0 < saved then invoke (.decodePtInsn buf saved.toNat ts.sections fmt dopts) else pure ()

/-- The additional threads of a session that traces more than one. -/
def snapshotOthers (host : Host) (ctx : HwtCtx) (ts : TraceState) (ptOutput : CString) (fmt : BsdtraceFmt)
    (dopts : PtDecodeOpts) (saved : Int) : Prog sys (Int × HwtCtx) :=
  if (ctx.allThreads || 0 < ctx.requestedTids.length) && 0 < ctx.threads.length then do
    let (threads, saved) ← snapshotThreads host ctx ts ptOutput fmt dopts ctx.threads saved
    pure (saved, { ctx with threads })
  else pure (saved, ctx)

def snapshotAndDecode (host : Host) (ctx : HwtCtx) (ts : TraceState) (ptOutput : CString) (fmt : BsdtraceFmt)
    (opts : PtDecodeOpts) : Prog sys (Int × HwtCtx) := do
  let stop ← hwtCtxBufptrGet ctx
  match ← hwtCtxMapBuffer ctx with
  | (none, ctx) => pure (-1, ctx)
  | (some buf, ctx) => do
      let dopts := { opts with mtcFreq := ctx.mtcFreq.toUInt8, cycThresh := ctx.cycThresh.toUInt8 }
      let bytes ← loadBytes buf ctx.bufsize.toNat
      let actualLen := chooseSnapshotLen host.probe bytes.val (knownEnd ctx.bufsize.toNat stop ts) ts.sections
      if actualLen = 0 then pure (0, ctx)
      else
        let (saved, ctx) ← hwtCtxSnapshotBuffer ctx ptOutput (snapshotPage actualLen) (snapshotOffset actualLen)
        decodeSaved ts fmt dopts buf saved
        snapshotOthers host ctx ts ptOutput fmt dopts saved

/-! ## Backend -/

def resolveBackend (explicit : Option CString) : Prog sys (Option CString) := do
  let available ← hwtAvailable
  if available then
    match explicit with
    | some name => pure (some name)
    | none => hwtDetectBackend backends
  else pure none

/-- Whether the session may go on. That the kernel lacks the hooks is no obstacle to a dry run. -/
def checkHwtHooks (dryrun : Bool) : Prog sys Bool := do
  match ← invoke .hwtHooks with
  | some false => pure dryrun
  | _ => pure true

/-! ## Finalize -/

/-- The kernel among the sections, when `-K` is on. -/
def ensureKernel (ctx : HwtCtx) (ts : TraceState) : Prog sys TraceState :=
  if ctx.osTrace && !ts.sections.any (·.type = .kernel) then do
    let kernBase ← invoke .kernBase
    pure (traceStateEnsureKernel ts kernBase)
  else pure ts

def traceFinalize (host : Host) (ctx : HwtCtx) (ts : TraceState) (file : Option Nat) (ptOutput : CString)
    (fmt : BsdtraceFmt) (totalrecords : Nat) (opts : PtDecodeOpts) : Prog sys Int := do
  let polled ← hwtCtxPollRecords ctx pollMaxRecords
  let recs := polled.getD []
  let (ctx, ts) ← emitRecords file fmt true (ctx, ts) recs
  let _ ← hwtCtxStop ctx
  let drained ← traceStateDrainPostStop ctx file ts
  let ts ← ensureKernel ctx drained.ts
  let (saved, ctx) ← snapshotAndDecode host ctx ts ptOutput fmt opts
  hwtCtxClose ctx
  metaWriterClose file
  pure (if saved < 0 then -1 else ((totalrecords + recs.length + drained.total : Nat) : Int))

end ObservableBSD.Trace.Session
