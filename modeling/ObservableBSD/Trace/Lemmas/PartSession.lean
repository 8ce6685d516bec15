import ObservableBSD.Trace.Lemmas.PartDrains

/-!
# Whole sessions drain
-/

namespace ObservableBSD.Trace.Session

open Base Decode Elf

variable {α : Type} {t : Trail} {ctx₀ ctx : HwtCtx} {front : List ContextCall} {st : DrainState} {ts : TraceState}
  {file : Option Nat}

/-! ## Snapshots -/

/-- A call of a snapshot: it is neither on the context nor on a process, and runs the decoder on these sections only. -/
def SysCall.saves (sections : List PtImageInfo) : SysCall → Prop
  | .stop _ | .recordGet .. | .openDevice _ | .wakeup _ | .start _ | .kill .. | .waitpid .. => False
  | .decodePtInsn _ _ sections' .. => sections' = sections
  | _ => True

theorem saves_of_copies {sections : List PtImageInfo} {c : SysCall} (h : c.copies sections) : c.saves sections := by
  cases c with
  | stop | recordGet | openDevice | wakeup | start | kill | waitpid => exact h.elim
  | decodePtInsn => exact h
  | _ => trivial

/-- The decoder has been run on these sections only. -/
def Trail.Decodes (t : Trail) (sections : List PtImageInfo) : Prop := ∀ decoded ∈ t.decoded, decoded = sections

theorem trail_of_saves {sections : List PtImageInfo} {p : Prog sys α} (h : p.All (SysCall.saves sections))
    (hdecodes : t.Decodes sections) :
    trail.Safe t p fun _ t' => t'.calls = t.calls ∧ t'.Decodes sections := by
  refine Protocol.Safe.of_all_keeps (P := trail) (fun t' => t'.calls = t.calls ∧ t'.Decodes sections) ?_
    ⟨rfl, hdecodes⟩ h
  rintro t' c hc ⟨hcalls, hdecodes⟩
  refine ⟨trivial, fun ans => ⟨?_, ?_⟩⟩
  · have hnone : contextCalls c ans = [] := by
      cases c with
      | stop | recordGet | openDevice | wakeup => exact hc.elim
      | _ => rfl
    exact (congrArg (t'.calls ++ ·) hnone).trans ((List.append_nil _).trans hcalls)
  · intro decoded hdecoded
    rcases List.mem_append.mp hdecoded with hdecoded | hdecoded
    · exact hdecodes decoded hdecoded
    · cases c with
      | decodePtInsn addr len sections' => exact (List.mem_singleton.mp hdecoded).trans hc
      | _ => cases hdecoded

theorem threadSidecar_saves (sections : List PtImageInfo) (ctx : HwtCtx) (ts : TraceState) (tpath : CString)
    (threadId : Int32) : (threadSidecar ctx ts tpath threadId).All (SysCall.saves sections) := by
  have hlines : ∀ (file : Option Nat) lines, (metaWrite file lines).All (SysCall.saves sections) :=
    metaWrite_all fun _ _ => trivial
  refine all_invoke_bind trivial fun (file : Option Nat) => ?_
  refine (hlines file _).bind fun _ => (hlines file _).bind fun _ => (hlines file _).bind fun _ => ?_
  exact eachSome_all _ fun _ => all_invoke trivial

theorem saveThread_saves (ctx : HwtCtx) (ts : TraceState) (out : CString) (fmt : BsdtraceFmt) (dopts : PtDecodeOpts)
    (threadId : Int32) (tbuf tlen : Nat) :
    (saveThread ctx ts out fmt dopts threadId tbuf tlen).All (SysCall.saves ts.sections) := by
  refine ((openOutput_copies ts.sections _).imp fun _ => saves_of_copies).bind fun fd => ?_
  cases fd with
  | none => trivial
  | some fd =>
      refine ((writeBuffer_copies ts.sections fd tbuf tlen).imp fun _ => saves_of_copies).bind fun written => ?_
      refine all_invoke_bind trivial fun _ => ?_
      cases written with
      | false => trivial
      | true =>
          refine (threadSidecar_saves ts.sections ctx ts _ threadId).bind fun _ => ?_
          exact ((decodeThread_copies ts fmt dopts threadId tbuf tlen).imp fun _ => saves_of_copies).bind
            fun _ => trivial

theorem snapshotThread_saves (host : Host) (ctx : HwtCtx) (ts : TraceState) (out : CString) (fmt : BsdtraceFmt)
    (dopts : PtDecodeOpts) (thread : HwtThreadCtx) :
    (snapshotThread host ctx ts out fmt dopts thread).All (SysCall.saves ts.sections) := by
  refine ((threadPosition_copies ts.sections ctx.bufsize thread).imp fun _ => saves_of_copies).bind fun len => ?_
  refine ((mapThread_copies ts.sections ctx.bufsize thread).imp fun _ => saves_of_copies).bind fun mapped => ?_
  obtain ⟨_ | tbuf, thread⟩ := mapped
  · trivial
  refine all_invoke_bind trivial fun bytes => ?_
  dsimp only
  split
  · trivial
  · exact (saveThread_saves ctx ts out fmt dopts _ tbuf _).bind fun _ => trivial

theorem snapshotThreads_saves (host : Host) (ctx : HwtCtx) (ts : TraceState) (out : CString) (fmt : BsdtraceFmt)
    (dopts : PtDecodeOpts) (threads : List HwtThreadCtx) (saved : Int) :
    (snapshotThreads host ctx ts out fmt dopts threads saved).All (SysCall.saves ts.sections) := by
  induction threads generalizing saved with
  | nil => trivial
  | cons thread threads ih =>
      exact (snapshotThread_saves host ctx ts out fmt dopts thread).bind fun _ => (ih _).bind fun _ => trivial

theorem snapshotAndDecode_saves (host : Host) (ctx : HwtCtx) (ts : TraceState) (out : CString) (fmt : BsdtraceFmt)
    (opts : PtDecodeOpts) :
    (Session.snapshotAndDecode host ctx ts out fmt opts).All (SysCall.saves ts.sections) := by
  refine ((hwtCtxBufptrGet_copies ts.sections ctx).imp fun _ => saves_of_copies).bind fun stop => ?_
  refine ((hwtCtxMapBuffer_copies ts.sections ctx).imp fun _ => saves_of_copies).bind fun mapped => ?_
  obtain ⟨_ | buf, ctx⟩ := mapped
  · trivial
  refine all_invoke_bind trivial fun bytes => ?_
  dsimp only
  split
  · trivial
  refine ((hwtCtxSnapshotBuffer_copies ts.sections ctx out _ _).imp fun _ => saves_of_copies).bind fun saved => ?_
  refine ((decodeSaved_copies ts fmt _ buf saved.1).imp fun _ => saves_of_copies).bind fun _ => ?_
  unfold snapshotOthers
  split
  · exact (snapshotThreads_saves host _ ts out fmt _ _ _).bind fun _ => trivial
  · trivial

/-- The device of the context stays open. -/
def KeepsDevice (ctx : HwtCtx) (ctx' : HwtCtx) : Prop := ctx'.ctxFd = ctx.ctxFd

theorem hwtCtxMapBuffer_keeps (ctx : HwtCtx) : (hwtCtxMapBuffer ctx).Results fun r => KeepsDevice ctx r.2 := by
  unfold hwtCtxMapBuffer
  split
  · exact .pure rfl
  · exact (Prog.Results.any _).bind fun _ _ => .pure rfl

theorem hwtCtxSnapshotBuffer_keeps (ctx : HwtCtx) (path : CString) (lastPage : Int32) (lastOffset : UInt64) :
    (Session.hwtCtxSnapshotBuffer ctx path lastPage lastOffset).Results fun r => KeepsDevice ctx r.2 := by
  unfold Session.hwtCtxSnapshotBuffer
  split
  · exact .pure rfl
  refine (hwtCtxMapBuffer_keeps ctx).bind ?_
  rintro ⟨_ | buf, ctx'⟩ hctx
  · exact .pure hctx
  dsimp only
  generalize (if ctx'.bufsize.toNat < (bufferPosition lastPage.toInt lastOffset).toNat then ctx'.bufsize.toNat
    else (bufferPosition lastPage.toInt lastOffset).toNat) = total
  split
  · exact .pure hctx
  refine (Prog.Results.any _).bind fun fd _ => ?_
  cases fd with
  | none => exact .pure hctx
  | some fd => exact (Prog.Results.any _).bind fun _ _ => (Prog.Results.any _).bind fun _ _ => .pure hctx

theorem snapshotAndDecode_keeps (host : Host) (ctx : HwtCtx) (ts : TraceState) (out : CString) (fmt : BsdtraceFmt)
    (opts : PtDecodeOpts) :
    (Session.snapshotAndDecode host ctx ts out fmt opts).Results fun r => KeepsDevice ctx r.2 := by
  refine (Prog.Results.any _).bind fun stop _ => ?_
  refine (hwtCtxMapBuffer_keeps ctx).bind ?_
  rintro ⟨_ | buf, ctx'⟩ hctx
  · exact .pure hctx
  refine (Prog.Results.any _).bind fun bytes _ => ?_
  dsimp only
  split
  · exact .pure hctx
  refine (hwtCtxSnapshotBuffer_keeps ctx' out _ _).bind ?_
  rintro ⟨saved, ctx''⟩ hctx'
  refine (Prog.Results.any _).bind fun _ _ => ?_
  unfold snapshotOthers
  split
  · exact (Prog.Results.any _).bind fun _ _ => .pure (hctx'.trans hctx)
  · exact .pure (hctx'.trans hctx)

/-! ## The end of a session -/

/-- The cleanup stops a device, and makes no other call on the context. -/
theorem hwtCtxClose_trail (ctx : HwtCtx) : trail.Safe t (Session.hwtCtxClose ctx) fun _ t' =>
    t' = { t with calls := t.calls ++ if ctx.ctxFd.isSome then [.stop] else [] } := by
  have hstop : trail.Safe t (eachSome ctx.ctxFd fun fd => do
      let _ ← (invoke (.stop fd) : Prog sys Bool)
      pure ()) fun _ t' => t' = { t with calls := t.calls ++ if ctx.ctxFd.isSome then [.stop] else [] } := by
    cases ctx.ctxFd with
    | none => exact .pure (by simp)
    | some fd => exact trail_bind (c := .stop fd) fun _ => .pure (by simp [Trail.next, contextCalls, decodedSections])
  refine hstop.bind fun _ _ ht => ?_
  subst ht
  exact trail_of_quiet (closeRest_quiet ctx)

theorem hwtCtxStop_mirrors (h : Mirrors ctx₀ front st ctx ts t) (hdevice : ctx₀.ctxFd.isSome = true) :
    trail.Safe t (Session.hwtCtxStop ctx) fun _ t' =>
      Mirrors ctx₀ front { st with ctx := Trace.hwtCtxStop st.ctx } ctx ts t' := by
  obtain ⟨fd, hfd⟩ := Option.isSome_iff_exists.mp (h.ctxFd ▸ hdevice)
  unfold Session.hwtCtxStop onDevice
  rw [hfd]
  exact trail_bind (c := .stop fd) fun _ => .pure (h.call .stop)

theorem ensureKernel_trail (ctx : HwtCtx) (ts : TraceState) : trail.Safe t (ensureKernel ctx ts) fun ts' t' =>
    t' = t ∧ ∃ kernBase, ts' = if ctx.osTrace then traceStateEnsureKernel ts kernBase else ts := by
  unfold ensureKernel
  split
  · rename_i hwants
    have hos : ctx.osTrace = true := (Bool.and_eq_true_iff.mp hwants).1
    exact trail_invoke trivial fun kernBase => .pure ⟨rfl, kernBase, by rw [if_pos hos]⟩
  · rename_i hwants
    refine .pure ⟨rfl, none, ?_⟩
    cases hos : ctx.osTrace with
    | false => rfl
    | true =>
        have hany : ts.sections.any (·.type = .kernel) = true := by simpa [hos] using hwants
        rw [if_pos rfl, traceStateEnsureKernel, if_pos hany]

/-- The final drain, the stop, the drain behind it, and what is decoded then. -/
theorem traceFinalize_trail (h : Mirrors ctx₀ front st ctx ts t) (hdevice : ctx₀.ctxFd.isSome = true) (host : Host)
    (out : CString) (fmt : BsdtraceFmt) (totalrecords : Nat) (opts : PtDecodeOpts) :
    trail.Safe t (traceFinalize host ctx ts file out fmt totalrecords opts) fun _ t' =>
      ∃ finalPoll postStopPolls kernBase st',
        st' = Trace.traceStateDrainPostStop
          { finalDrain st finalPoll with ctx := Trace.hwtCtxStop (finalDrain st finalPoll).ctx } 0 postStopPolls ∧
        t'.calls = front ++ st'.ctx.calls.map (contextCall ctx₀.ident) ++ [.stop] ∧
        t'.Decodes (if ctx₀.osTrace then traceStateEnsureKernel st'.ts kernBase else st'.ts).sections := by
  unfold traceFinalize
  refine (hwtCtxPollRecords_mirrors h pollMaxRecords).bind fun polled t₁ hpolled => ?_
  have hfinal : trail.Safe t₁ (emitRecords file fmt true (ctx, ts) (polled.getD [])) fun st' t' =>
      ∃ finalPoll, Mirrors ctx₀ front (finalDrain st finalPoll) st'.1 st'.2 t' := by
    cases polled with
    | none => exact .pure ⟨none, hpolled⟩
    | some recs =>
        refine (emitPolled_mirrors hpolled hdevice fmt true).mono ?_
        rintro st' t' ⟨batch, -, h'⟩
        exact ⟨some batch, h'⟩
  refine hfinal.bind ?_
  rintro ⟨ctx', ts'⟩ t₂ ⟨finalPoll, h⟩
  refine (hwtCtxStop_mirrors h hdevice).bind fun _ t₃ h => ?_
  refine (traceStateDrainPostStop_mirrors h).bind ?_
  rintro drained t₄ ⟨polls, h⟩
  refine (ensureKernel_trail ctx' drained.ts).bind ?_
  rintro ts'' _ ⟨rfl, kernBase, hkernel⟩
  have hos : ctx'.osTrace = ctx₀.osTrace := h.osTrace
  rw [hos, ← h.ts] at hkernel
  have hnone : Trail.Decodes _ ts''.sections := fun decoded hdecoded => by
    rw [h.decoded] at hdecoded
    cases hdecoded
  refine ((trail_of_saves (snapshotAndDecode_saves host ctx' ts'' out fmt opts) hnone).results
    (snapshotAndDecode_keeps host ctx' ts'' out fmt opts)).bind ?_
  rintro ⟨saved, ctx''⟩ t₅ ⟨⟨hcalls, hdecodes⟩, hkeeps⟩
  have hopen : ctx''.ctxFd.isSome = true := by rw [hkeeps, h.ctxFd, hdevice]
  refine (hwtCtxClose_trail ctx'').bind fun _ t₆ ht => ?_
  refine (trail_of_untraced (eachSome_all _ fun _ => all_invoke trivial)).bind fun _ _ ht' => .pure ?_
  subst ht' ht
  refine ⟨finalPoll, polls, kernBase, _, rfl, ?_, hkernel ▸ hdecodes⟩
  rw [if_pos hopen, hcalls, h.calls]

/-! ## Tracing -/

/-- The context of a session, when tracing starts. -/
structure HwtCtx.Configured (opts : SessionOpts) (ctx : HwtCtx) : Prop where
  device : ctx.ctxFd.isSome = true
  threads : ctx.threads = []
  tid : ctx.tid = opts.tid
  asked : ctx.allThreads = opts.allThreads ∧ ctx.requestedTids = opts.requestedTids
  kernel : ctx.osTrace = opts.osTrace

/-- Only devices have been opened. -/
def Trail.Opening (t : Trail) : Prop := ∃ paths : List CString, t = ⟨paths.map .openDevice, []⟩

variable {opts : SessionOpts}

/-- The drains when they begin on a context without additional threads. -/
def drainStart (ctx : HwtCtx) (ts : TraceState) : DrainState where
  ctx := { tid := ctx.tid, allThreads := ctx.allThreads, requestedTids := ctx.requestedTids }
  ts

theorem Mirrors.start (hthreads : ctx.threads = []) (ts : TraceState) (front : List ContextCall) :
    Mirrors ctx front (drainStart ctx ts) ctx ts ⟨front, []⟩ where
  same := rfl
  ctx := by
    rw [HwtCtx.drained, hthreads, List.map_nil]
    rfl
  ts := rfl
  calls := (List.append_nil front).symm
  decoded := rfl

/-- The session with the records of its drains, and the kernel's base as it was read. -/
def withDrains (run : TraceSession) (s : DrainSession) (kernBase : Option UInt64) : TraceSession :=
  { run with
    mainRecords := s.mainPolls.flatten.map (·.record)
    finalRecords := s.finalPoll.toList.flatten.map (·.record)
    postStopRecords := (postStopBatches 0 s.postStopPolls).flatten.map (·.record)
    kernBase }

theorem withDrains_records (run : TraceSession) (s : DrainSession) (kernBase : Option UInt64) :
    s.records = (withDrains run s kernBase).records := by
  rw [DrainSession.records, List.flatten_append, List.flatten_append, List.map_append, List.map_append]
  rfl

/-- The decoder's sections are those of the session's trace state. -/
theorem withDrains_finalize (run : TraceSession) (s : DrainSession) (hstart : s.ts = run.start)
    (kernBase : Option UInt64) :
    (if run.osTrace then traceStateEnsureKernel s.run.ts kernBase else s.run.ts) =
      (withDrains run s kernBase).finalize := by
  have hdrained : s.run.ts = (withDrains run s kernBase).drained := by
    rw [s.run_ts, hstart, withDrains_records run s kernBase, TraceSession.drained]
    rfl
  rw [hdrained]
  rfl

/-- The end of a session whose polling loop is that of the model. -/
theorem traceFinalize_settled (hctx : ctx₀.Configured opts) {run : TraceSession} (hos : run.osTrace = opts.osTrace)
    {paths : List CString}
    (h : PollingAs ctx₀ (paths.map .openDevice) opts.pauseOnMmap (drainStart ctx₀ run.start) ctx ts t)
    (host : Host) (out : CString) (fmt : BsdtraceFmt) (totalrecords : Nat) (dopts : PtDecodeOpts) :
    trail.Safe t (traceFinalize host ctx ts file out fmt totalrecords dopts) fun _ t' => t'.Settled opts := by
  obtain ⟨polls, h⟩ := h
  refine (traceFinalize_trail h hctx.device host out fmt totalrecords dopts).mono ?_
  rintro _ t' ⟨finalPoll, postStopPolls, kernBase, st', hst', hcalls, hdecodes⟩
  let s : DrainSession :=
    { tid := ctx₀.tid, allThreads := ctx₀.allThreads, requestedTids := ctx₀.requestedTids, ts := run.start,
      pauseOnMmap := opts.pauseOnMmap, mainPolls := polls, finalPoll, postStopPolls }
  have hrun : s.run = st' := hst'.symm
  rw [← hrun] at hcalls hdecodes
  refine .inr ⟨ctx₀.ident, s, withDrains run s kernBase, ?_⟩
  constructor
  · exact ⟨hctx.tid, hctx.asked⟩
  · rfl
  · exact hos
  · rfl
  · exact withDrains_records run s kernBase
  · exact ⟨paths, hcalls⟩
  · intro sections hsections
    have hfinal := withDrains_finalize run s rfl kernBase
    rw [hos, ← hctx.kernel] at hfinal
    exact hfinal ▸ hdecodes sections hsections

theorem openSidecar_trail (ctx : HwtCtx) (out : CString) (pid tid : Int32) :
    trail.Safe t (openSidecar ctx out pid tid) fun r t' => t' = t ∧ r.2 =
      { metaLines := metaWriterHeader pid tid ++ metaWriterTiming ctx.mtcFreq.toUInt8 ctx.cycThresh.toUInt8 } := by
  refine trail_invoke trivial fun (file : Option Nat) => ?_
  refine (trail_of_untraced (metaWrite_all (fun _ _ => trivial) file _)).bind fun _ _ ht => ?_
  subst ht
  exact (trail_of_untraced (metaWrite_all (fun _ _ => trivial) file _)).bind fun _ _ ht => .pure ⟨ht, rfl⟩

theorem seedProcessMmaps_trail (file : Option Nat) (ts : TraceState) (pid : Int32) :
    trail.Safe t (seedProcessMmaps file ts pid) fun ts' t' =>
      t' = t ∧ ∃ vmmap, ts' = traceStateSeedProcessMmaps ts vmmap := by
  refine trail_invoke trivial fun (vmmap : Option (List KinfoVmentry)) => ?_
  exact (trail_of_untraced (metaWrite_all (fun _ _ => trivial) file _)).bind fun _ _ ht => .pure ⟨ht, vmmap, rfl⟩

/-- A session in front of its first record. -/
def freshRun (opts : SessionOpts) (ctx : HwtCtx) (pid : Int32) (seeds : Option (Option (List KinfoVmentry))) :
    TraceSession where
  pid
  tid := opts.tid
  mtcFreq := ctx.mtcFreq.toUInt8
  cycThresh := ctx.cycThresh.toUInt8
  seeds
  mainRecords := []
  finalRecords := []
  postStopRecords := []
  osTrace := opts.osTrace
  kernBase := none

theorem traceRunning_settled (host : Host) (pid : Int32) (hctx : ctx.Configured opts) (hopening : t.Opening) :
    trail.Safe t (traceRunning host opts pid ctx) fun _ t' => t'.Settled opts := by
  obtain ⟨paths, rfl⟩ := hopening
  refine (openSidecar_trail ctx _ pid opts.tid).bind ?_
  rintro ⟨file, _⟩ _ ⟨rfl, rfl⟩
  refine (seedProcessMmaps_trail file _ pid).bind ?_
  rintro _ _ ⟨rfl, vmmap, rfl⟩
  refine trail_invoke trivial fun (start : Nat) => ?_
  have hstart : PollingAs ctx (paths.map .openDevice) opts.pauseOnMmap
      (drainStart ctx (freshRun opts ctx pid (some vmmap)).start) ctx (freshRun opts ctx pid (some vmmap)).start
      ⟨paths.map .openDevice, []⟩ := ⟨[], Mirrors.start hctx.threads _ _⟩
  refine (traceLoop_trail hctx.device pid start hstart).bind fun st t' h => ?_
  refine (traceFinalize_settled hctx rfl h host _ opts.fmt _ _).bind fun total _ h' => ?_
  exact trail_invoke trivial fun _ => trail_invoke trivial fun _ => .pure h'

theorem execRunning_settled (host : Host) (child : Int32) (hctx : ctx.Configured opts) (hopening : t.Opening) :
    trail.Safe t (execRunning host opts child ctx) fun _ t' => t'.Settled opts := by
  obtain ⟨paths, rfl⟩ := hopening
  refine (openSidecar_trail ctx _ child opts.tid).bind ?_
  rintro ⟨file, _⟩ _ ⟨rfl, rfl⟩
  refine trail_invoke trivial fun _ => trail_invoke trivial fun _ => trail_invoke trivial fun (start : Nat) => ?_
  have hstart : PollingAs ctx (paths.map .openDevice) opts.pauseOnMmap
      (drainStart ctx (freshRun opts ctx child none).start) ctx (freshRun opts ctx child none).start
      ⟨paths.map .openDevice, []⟩ := ⟨[], Mirrors.start hctx.threads _ _⟩
  refine (execLoop_trail hctx.device child start hstart).bind fun st t' h => ?_
  have hreap : (execReap st child).Results fun st' => st'.poll = st.poll := by
    unfold execReap
    split
    · exact .pure rfl
    · exact (Prog.Results.any _).bind fun (answer : WaitAnswer) _ => by
        cases answer <;> exact .pure rfl
  refine ((trail_of_quiet (execReap_quiet st child)).results hreap).bind ?_
  rintro st' _ ⟨rfl, hpoll⟩
  rw [← hpoll] at h
  exact (traceFinalize_settled hctx rfl h host _ opts.fmt _ _).bind fun _ _ h' => .pure h'

/-! ## Sessions that never trace -/

theorem Trail.Opening.openDevice (h : t.Opening) (path : CString) (ans : SysCall.Answer (.openDevice path)) :
    (t.next (.openDevice path) ans).Opening := by
  obtain ⟨paths, rfl⟩ := h
  exact ⟨paths ++ [path], by rw [List.map_append]; rfl⟩

theorem Trail.Opening.untraced (h : t.Opening) : t.Untraced := by
  obtain ⟨paths, rfl⟩ := h
  exact ⟨fun records => by simp, rfl⟩

theorem Trail.Opening.settled (h : t.Opening) : t.Settled opts := .inl h.untraced

theorem hwtCtxClose_untraced (ctx : HwtCtx) (h : t.Opening) :
    trail.Safe t (Session.hwtCtxClose ctx) fun _ t' => t'.Untraced := by
  refine (hwtCtxClose_trail ctx).mono fun _ t' ht => ?_
  subst ht
  refine ⟨fun records hmem => ?_, h.untraced.decoded⟩
  rcases List.mem_append.mp hmem with hmem | hmem
  · exact h.untraced.calls records hmem
  · split at hmem
    · cases List.mem_singleton.mp hmem
    · cases hmem

theorem resolveBackend_trail (explicit : Option CString) (h : t.Opening) :
    trail.Safe t (resolveBackend explicit) fun _ t' => t'.Opening := by
  have havailable : trail.Safe t hwtAvailable fun _ t' => t'.Opening := by
    refine trail_bind fun (fd : Option Fd) => ?_
    cases fd with
    | none => exact .pure (h.openDevice devHwt none)
    | some fd =>
        refine (trail_of_quiet (close_quiet fd)).bind fun _ _ ht => .pure ?_
        subst ht
        exact h.openDevice devHwt (some fd)
  refine havailable.bind fun available t' h' => ?_
  split
  · cases explicit with
    | none => exact (trail_of_quiet (hwtDetectBackend_quiet backends)).mono fun _ _ ht => ht ▸ h'
    | some name => exact .pure h'
  · exact .pure h'

/-- A context as it is allocated. -/
structure HwtCtx.Allocated (tid : Int32) (ctx : HwtCtx) : Prop where
  device : ctx.ctxFd.isSome = true
  threads : ctx.threads = []
  tid : ctx.tid = tid

theorem hwtCtxAlloc_allocated (host : Host) (pid tid : Int32) (bufsize : UInt64) (backend : CString) :
    (hwtCtxAlloc host pid tid bufsize backend).Results fun r => ∀ ctx, r = some ctx → ctx.Allocated tid := by
  have hfail : ∀ ctx : HwtCtx, (allocFail ctx).Results fun r => ∀ ctx, r = some ctx → ctx.Allocated tid :=
    fun ctx => (Prog.Results.any _).bind fun _ _ => .pure nofun
  unfold hwtCtxAlloc
  split
  · exact .pure nofun
  split
  · exact .pure nofun
  refine (Prog.Results.any _).bind fun (ctl : Option Fd) _ => ?_
  cases ctl with
  | none => exact .pure nofun
  | some ctl =>
      refine (Prog.Results.any _).bind fun (kq : Option Fd) _ => ?_
      cases kq with
      | none => exact hfail _
      | some kq =>
          refine (Prog.Results.any _).bind fun (ident : Option Int32) _ => ?_
          cases ident with
          | none => exact hfail _
          | some ident =>
              refine (Prog.Results.any _).bind fun (fd : Option Fd) _ => ?_
              cases fd with
              | none => exact hfail _
              | some fd =>
                  refine .pure fun ctx hctx => ?_
                  cases hctx
                  exact ⟨rfl, rfl, rfl⟩

theorem allocFail_trail {ctx : HwtCtx} (hfd : ctx.ctxFd = none) (h : t.Opening) :
    trail.Safe t (allocFail ctx) fun _ t' => t'.Opening := by
  refine (hwtCtxClose_trail ctx).bind fun _ _ ht => .pure ?_
  rw [ht, hfd]
  exact (List.append_nil t.calls).symm ▸ h

theorem hwtCtxAlloc_trail (host : Host) (pid tid : Int32) (bufsize : UInt64) (backend : CString) (h : t.Opening) :
    trail.Safe t (hwtCtxAlloc host pid tid bufsize backend) fun _ t' => t'.Opening := by
  unfold hwtCtxAlloc
  split
  · exact .pure h
  split
  · exact .pure h
  refine trail_bind fun (ctl : Option Fd) => ?_
  have h := h.openDevice devHwt ctl
  cases ctl with
  | none => exact .pure h
  | some ctl =>
      refine trail_invoke trivial fun (kq : Option Fd) => ?_
      cases kq with
      | none => exact allocFail_trail rfl h
      | some kq =>
          refine trail_invoke trivial fun (ident : Option Int32) => ?_
          cases ident with
          | none => exact allocFail_trail rfl h
          | some ident =>
              refine trail_bind fun (fd : Option Fd) => ?_
              have h := h.openDevice (devicePath ident tid) fd
              cases fd with
              | none => exact allocFail_trail rfl h
              | some fd => exact .pure h

theorem applyOpts_configured (filter : List IpRange) (h : ctx.Allocated opts.tid) :
    (applyOpts opts filter ctx).Results fun r => ∀ ctx', r = some ctx' → ctx'.Configured opts := by
  have hconfigured : ∀ {ctx' : HwtCtx}, ctx'.ctxFd = ctx.ctxFd → ctx'.threads = ctx.threads → ctx'.tid = ctx.tid →
      ctx'.allThreads = opts.allThreads → ctx'.requestedTids = opts.requestedTids → ctx'.osTrace = opts.osTrace →
      ctx'.Configured opts := fun hfd hthreads htid hall htids hos =>
    ⟨by rw [hfd, h.device], hthreads.trans h.threads, htid.trans h.tid, ⟨hall, htids⟩, hos⟩
  unfold applyOpts
  dsimp only
  split
  · refine (Prog.Results.any _).bind fun (timing : UInt32 × UInt32) _ => ?_
    split
    · exact .pure nofun
    · refine .pure fun ctx' hctx => ?_
      cases hctx
      exact hconfigured rfl rfl rfl rfl rfl rfl
  · refine .pure fun ctx' hctx => ?_
    cases hctx
    exact hconfigured rfl rfl rfl rfl rfl rfl

/-! ## Whole sessions -/

theorem traceConfigured_settled (host : Host) (pid : Int32) (filter : List IpRange) (hctx : ctx.Allocated opts.tid)
    (h : t.Opening) : trail.Safe t (traceConfigured host opts pid filter ctx) fun _ t' => t'.Settled opts := by
  have hclose : ∀ (ctx : HwtCtx) (code : Int), trail.Safe t (do Session.hwtCtxClose ctx; pure code)
      fun _ t' => t'.Settled opts := fun ctx code => (hwtCtxClose_untraced ctx h).bind fun _ _ h' => .pure (.inl h')
  refine ((trail_of_quiet (applyOpts_quiet opts filter ctx)).results (applyOpts_configured filter hctx)).bind ?_
  rintro ctx' _ ⟨rfl, hconfigured⟩
  cases ctx' with
  | none => exact hclose ctx 1
  | some ctx' =>
      refine (trail_of_quiet (hwtCtxSetConfig_quiet ctx' opts.pauseOnMmap)).bind fun configured _ ht => ?_
      subst ht
      dsimp only
      split
      · refine trail_invoke trivial fun _ => trail_invoke trivial fun _ => ?_
        refine (trail_of_untraced (hwtCtxStart_all (fun _ => trivial) ctx')).bind fun started _ ht => ?_
        subst ht
        cases started with
        | true => exact traceRunning_settled host pid (hconfigured ctx' rfl) h
        | false => exact hclose ctx' 1
      · exact hclose ctx' _

theorem execConfigured_settled (host : Host) (child : Int32) (filter : List IpRange) (hctx : ctx.Allocated opts.tid)
    (h : t.Opening) : trail.Safe t (execConfigured host opts child filter ctx) fun _ t' => t'.Settled opts := by
  have hclose : ∀ (ctx : HwtCtx) (code : Int), trail.Safe t (do Session.hwtCtxClose ctx; killChild child; pure code)
      fun _ t' => t'.Settled opts := fun ctx code => by
    refine (hwtCtxClose_untraced ctx h).bind fun _ _ h' => ?_
    exact (trail_of_quiet (killChild_quiet child)).bind fun _ _ ht => .pure (.inl (ht ▸ h'))
  refine ((trail_of_quiet (applyOpts_quiet opts filter ctx)).results (applyOpts_configured filter hctx)).bind ?_
  rintro ctx' _ ⟨rfl, hconfigured⟩
  cases ctx' with
  | none =>
      refine (trail_of_quiet (killChild_quiet child)).bind fun _ _ ht => ?_
      subst ht
      exact (hwtCtxClose_untraced ctx h).bind fun _ _ h' => .pure (.inl h')
  | some ctx' =>
      refine (trail_of_quiet (hwtCtxSetConfig_quiet ctx' opts.pauseOnMmap)).bind fun configured _ ht => ?_
      subst ht
      dsimp only
      split
      · refine (trail_of_untraced (hwtCtxStart_all (fun _ => trivial) ctx')).bind fun started _ ht => ?_
        subst ht
        cases started with
        | true => exact execRunning_settled host child (hconfigured ctx' rfl) h
        | false => exact hclose ctx' 1
      · exact hclose ctx' _

theorem cmdTrace_settled (host : Host) (opts : SessionOpts) (pid : Int32) (h : t.Opening) :
    trail.Safe t (cmdTrace host opts pid) fun _ t' => t'.Settled opts := by
  unfold cmdTrace
  split
  · exact .pure h.settled
  refine trail_invoke trivial fun (there : Bool) => ?_
  split
  swap
  · exact .pure h.settled
  refine (resolveBackend_trail opts.backendName h).bind fun backend t' h => ?_
  cases backend with
  | none => exact .pure h.settled
  | some backend =>
      refine (trail_of_quiet (checkHwtHooks_quiet opts.dryrun)).bind fun hooks _ ht => ?_
      subst ht
      dsimp only
      split
      swap
      · exact .pure h.settled
      refine (trail_of_quiet (traceFilter_quiet host opts pid)).bind fun filter _ ht => ?_
      subst ht
      cases filter with
      | none => exact .pure h.settled
      | some filter =>
          refine ((hwtCtxAlloc_trail host pid opts.tid (parseSize opts.bufsizeStr) backend h).results
            (hwtCtxAlloc_allocated host pid opts.tid (parseSize opts.bufsizeStr) backend)).bind ?_
          rintro ctx t' ⟨h, hctx⟩
          cases ctx with
          | none => exact .pure h.settled
          | some ctx => exact traceConfigured_settled host pid filter (hctx ctx rfl) h

theorem cmdExec_settled (host : Host) (opts : SessionOpts) (noAslr : Bool) (name : CString) (args : List CString)
    (h : t.Opening) : trail.Safe t (cmdExec host opts noAslr name args) fun _ t' => t'.Settled opts := by
  refine (trail_of_quiet (execFilter_quiet host opts name)).bind fun filter _ ht => ?_
  subst ht
  cases filter with
  | none => exact .pure h.settled
  | some filter =>
      refine (resolveBackend_trail opts.backendName h).bind fun backend t' h => ?_
      cases backend with
      | none => exact .pure h.settled
      | some backend =>
          refine (trail_of_quiet (checkHwtHooks_quiet opts.dryrun)).bind fun hooks _ ht => ?_
          subst ht
          dsimp only
          split
          swap
          · exact .pure h.settled
          refine (trail_of_quiet (forkStopped_quiet (name :: args) (noAslr || filter.2))).bind fun child _ ht => ?_
          subst ht
          cases child with
          | none => exact .pure h.settled
          | some child =>
              refine ((hwtCtxAlloc_trail host child opts.tid (parseSize opts.bufsizeStr) backend h).results
                (hwtCtxAlloc_allocated host child opts.tid (parseSize opts.bufsizeStr) backend)).bind ?_
              rintro ctx t' ⟨h, hctx⟩
              cases ctx with
              | none => exact (trail_of_quiet (killChild_quiet child)).bind fun _ _ ht => .pure (ht ▸ h.settled)
              | some ctx => exact execConfigured_settled host child filter.1 (hctx ctx rfl) h

end ObservableBSD.Trace.Session
