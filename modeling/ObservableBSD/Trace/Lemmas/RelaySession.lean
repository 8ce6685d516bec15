import ObservableBSD.Trace.Lemmas.Relay

/-!
# Whole sessions hand on their records
-/

namespace ObservableBSD.Trace.Session

open Base Decode Elf

variable {α : Type} {fmt : BsdtraceFmt} {r : Relay} {file : Option Nat}

/-! ## Snapshots -/

/-- A call that a snapshot makes on the buffers: they are decoded with these sections only. -/
def SysCall.copies (sections : List PtImageInfo) : SysCall → Prop
  | .openOutput _ | .close _ | .bufptrGet _ | .mmap .. | .load .. | .write .. | .printThread _ => True
  | .decodePtInsn _ _ sections' .. => sections' = sections
  | _ => False

theorem aside_of_copies {sections : List PtImageInfo} {c : SysCall} (h : c.copies sections) : c.aside := by
  cases c with
  | stop | recordGet | print | fopen | fprintf => exact h.elim
  | _ => trivial

theorem relay_of_copies {sections : List PtImageInfo} {p : Prog sys α} (h : p.All (SysCall.copies sections)) :
    (relay fmt).Safe r p fun _ r' => r' = r :=
  relay_of_aside (h.imp fun _ => aside_of_copies)

section

variable (sections : List PtImageInfo)

theorem openOutput_copies (path : CString) : (openOutput path).All (SysCall.copies sections) := all_invoke trivial

theorem writeBuffer_copies (fd : Fd) (buf total : Nat) : (writeBuffer fd buf total).All (SysCall.copies sections) := by
  refine ⟨fun off => ?_, fun _ => trivial⟩
  dsimp only
  split
  · exact all_invoke_bind trivial fun (nw : Option Nat) => by cases nw <;> trivial
  · trivial

theorem hwtCtxMapBuffer_copies (ctx : HwtCtx) : (hwtCtxMapBuffer ctx).All (SysCall.copies sections) := by
  unfold hwtCtxMapBuffer
  split
  · trivial
  · have hmap : (onDevice ctx none fun fd => invoke (.mmap ctx.bufsize.toNat fd) : Prog sys (Option Nat)).All
        (SysCall.copies sections) := onDevice_all fun fd => all_invoke (c := .mmap ctx.bufsize.toNat fd) trivial
    exact hmap.bind fun _ => trivial

theorem hwtCtxSnapshotBuffer_copies (ctx : HwtCtx) (path : CString) (lastPage : Int32) (lastOffset : UInt64) :
    (Session.hwtCtxSnapshotBuffer ctx path lastPage lastOffset).All (SysCall.copies sections) := by
  unfold Session.hwtCtxSnapshotBuffer
  split
  · trivial
  refine (hwtCtxMapBuffer_copies sections ctx).bind fun r => ?_
  obtain ⟨_ | buf, ctx⟩ := r
  · trivial
  dsimp only
  generalize (if ctx.bufsize.toNat < (bufferPosition lastPage.toInt lastOffset).toNat then ctx.bufsize.toNat
    else (bufferPosition lastPage.toInt lastOffset).toNat) = total
  split
  · trivial
  refine (openOutput_copies sections path).bind fun fd => ?_
  cases fd with
  | none => trivial
  | some fd => exact (writeBuffer_copies sections fd buf _).bind fun _ => all_invoke_bind trivial fun _ => trivial

theorem hwtCtxBufptrGet_copies (ctx : HwtCtx) : (hwtCtxBufptrGet ctx).All (SysCall.copies sections) :=
  onDevice_all fun _ => all_invoke trivial

theorem threadPosition_copies (bufsize : UInt64) (thread : HwtThreadCtx) :
    (threadPosition bufsize thread).All (SysCall.copies sections) :=
  threadPosition_all (fun _ => trivial) bufsize thread

theorem mapThread_copies (bufsize : UInt64) (thread : HwtThreadCtx) :
    (mapThread bufsize thread).All (SysCall.copies sections) :=
  mapThread_all (fun _ _ => trivial) bufsize thread

end

theorem decodeThread_copies (ts : TraceState) (fmt : BsdtraceFmt) (dopts : PtDecodeOpts) (threadId : Int32)
    (tbuf tlen : Nat) : (decodeThread ts fmt dopts threadId tbuf tlen).All (SysCall.copies ts.sections) :=
  (printThread_all (fun _ => trivial) fmt threadId).bind fun _ => all_invoke rfl

theorem decodeSaved_copies (ts : TraceState) (fmt : BsdtraceFmt) (dopts : PtDecodeOpts) (buf : Nat) (saved : Int) :
    (decodeSaved ts fmt dopts buf saved).All (SysCall.copies ts.sections) := by
  unfold decodeSaved
  split
  · exact all_invoke rfl
  · trivial

/-- The sidecar of a thread is not that of the session. -/
theorem threadSidecar_relay (ctx : HwtCtx) (ts : TraceState) (tpath : CString) (threadId : Int32)
    (hsidecar : r.sidecar = some file) :
    (relay fmt).Safe r (threadSidecar ctx ts tpath threadId) fun _ r' => r' = r := by
  refine relay_bind trivial fun (tfile : Option Nat) hother => ?_
  have hnext : r.next fmt (.fopen (deriveMetaPath tpath)) tfile = r := by
    show { r with sidecar := some (r.sidecar.getD tfile) } = r
    rw [hsidecar, Option.getD_some, ← hsidecar]
  have hkept : ∀ lines, (relay fmt).Safe r (metaWrite tfile lines) fun _ r' => r' = r := fun lines =>
    metaWrite_kept lines fun f hf heq => absurd heq (hother f hf)
  rw [hnext]
  refine (hkept _).bind fun _ _ hr => ?_
  subst hr
  refine (hkept _).bind fun _ _ hr => ?_
  subst hr
  refine (hkept _).bind fun _ _ hr => ?_
  subst hr
  exact relay_of_aside (eachSome_all _ fun _ => all_invoke trivial)

theorem saveThread_relay (ctx : HwtCtx) (ts : TraceState) (out : CString) (dfmt : BsdtraceFmt) (dopts : PtDecodeOpts)
    (threadId : Int32) (tbuf tlen : Nat) (hsidecar : r.sidecar = some file) :
    (relay fmt).Safe r (saveThread ctx ts out dfmt dopts threadId tbuf tlen) fun _ r' => r' = r := by
  refine (relay_of_copies (openOutput_copies [] _)).bind fun fd _ hr => ?_
  subst hr
  cases fd with
  | none => exact .pure rfl
  | some fd =>
      refine (relay_of_copies (writeBuffer_copies [] fd tbuf tlen)).bind fun written _ hr => ?_
      subst hr
      refine (relay_of_quiet (close_quiet fd)).bind fun _ _ hr => ?_
      subst hr
      cases written with
      | false => exact .pure rfl
      | true =>
          refine (threadSidecar_relay ctx ts _ threadId hsidecar).bind fun _ _ hr => ?_
          subst hr
          exact (relay_of_copies (decodeThread_copies ts dfmt dopts threadId tbuf tlen)).bind fun _ _ hr => .pure hr

theorem snapshotThread_relay (host : Host) (ctx : HwtCtx) (ts : TraceState) (out : CString) (dfmt : BsdtraceFmt)
    (dopts : PtDecodeOpts) (thread : HwtThreadCtx) (hsidecar : r.sidecar = some file) :
    (relay fmt).Safe r (snapshotThread host ctx ts out dfmt dopts thread) fun _ r' => r' = r := by
  refine (relay_of_copies (threadPosition_copies [] ctx.bufsize thread)).bind fun len _ hr => ?_
  subst hr
  refine (relay_of_copies (mapThread_copies [] ctx.bufsize thread)).bind fun mapped _ hr => ?_
  subst hr
  obtain ⟨_ | tbuf, thread⟩ := mapped
  · exact .pure rfl
  refine relay_bind trivial fun bytes _ => ?_
  dsimp only
  split
  · exact .pure rfl
  · exact (saveThread_relay ctx ts out dfmt dopts _ tbuf _ hsidecar).bind fun _ _ hr => .pure hr

theorem snapshotThreads_relay (host : Host) (ctx : HwtCtx) (ts : TraceState) (out : CString) (dfmt : BsdtraceFmt)
    (dopts : PtDecodeOpts) (threads : List HwtThreadCtx) (saved : Int) (hsidecar : r.sidecar = some file) :
    (relay fmt).Safe r (snapshotThreads host ctx ts out dfmt dopts threads saved) fun _ r' => r' = r := by
  induction threads generalizing saved with
  | nil => exact .pure rfl
  | cons thread threads ih =>
      refine (snapshotThread_relay host ctx ts out dfmt dopts thread hsidecar).bind fun res _ hr => ?_
      subst hr
      exact (ih _).bind fun _ _ hr => .pure hr

theorem snapshotAndDecode_relay (host : Host) (ctx : HwtCtx) (ts : TraceState) (out : CString) (dfmt : BsdtraceFmt)
    (opts : PtDecodeOpts) (hsidecar : r.sidecar = some file) :
    (relay fmt).Safe r (Session.snapshotAndDecode host ctx ts out dfmt opts) fun _ r' => r' = r := by
  refine (relay_of_copies (hwtCtxBufptrGet_copies [] ctx)).bind fun stop _ hr => ?_
  subst hr
  refine (relay_of_copies (hwtCtxMapBuffer_copies [] ctx)).bind fun mapped _ hr => ?_
  subst hr
  obtain ⟨_ | buf, ctx⟩ := mapped
  · exact .pure rfl
  refine relay_bind trivial fun bytes _ => ?_
  dsimp only
  split
  · exact .pure rfl
  refine (relay_of_copies (hwtCtxSnapshotBuffer_copies [] ctx out _ _)).bind fun saved _ hr => ?_
  subst hr
  refine (relay_of_copies (decodeSaved_copies ts dfmt _ buf saved.1)).bind fun _ _ hr => ?_
  subst hr
  unfold snapshotOthers
  split
  · exact (snapshotThreads_relay host _ ts out dfmt _ _ _ hsidecar).bind fun _ _ hr => .pure hr
  · exact .pure rfl

/-! ## The end of a session -/

theorem hwtCtxClose_relay (ctx : HwtCtx) (hidle : r.Idle) :
    (relay fmt).Safe r (Session.hwtCtxClose ctx) fun _ r' => r'.Idle := by
  have hstop : (relay fmt).Safe r (eachSome ctx.ctxFd fun fd => do
      let _ ← (invoke (.stop fd) : Prog sys Bool)
      pure ()) fun _ r' => r'.Idle := by
    cases ctx.ctxFd with
    | none => exact .pure hidle
    | some fd => exact relay_bind (c := .stop fd) trivial fun _ _ => .pure ⟨hidle.printing, hidle.writing⟩
  exact hstop.bind fun _ r' hidle' => (relay_of_quiet (closeRest_quiet ctx)).mono fun _ _ hr => hr ▸ hidle'

/-- Behind the stop, the records of a device are not printed any more. -/
theorem hwtCtxStop_relay (ctx : HwtCtx) (h : r.Owes fmt file []) :
    (relay fmt).Safe r (Session.hwtCtxStop ctx) fun _ r' =>
      r'.Owes fmt file [] ∧ (ctx.ctxFd ≠ none → r'.stopped = true) := by
  unfold Session.hwtCtxStop onDevice
  cases hfd : ctx.ctxFd with
  | none => exact .pure ⟨h, fun hne => absurd rfl hne⟩
  | some fd =>
      refine relay_bind (c := .stop fd) trivial fun _ _ => .pure ⟨?_, fun _ => rfl⟩
      have hprinting : r.printing = toPrint fmt true [] := by rw [h.idle.printing, toPrint_nil]
      exact ⟨h.sidecar, by simp, hprinting, h.writing⟩

theorem traceStateDrainPostStop_relay (ctx : HwtCtx) (ts : TraceState) (h : r.Owes fmt file [])
    (hstopped : ctx.ctxFd ≠ none → r.stopped = true) :
    (relay fmt).Safe r (Session.traceStateDrainPostStop ctx file ts) fun _ r' => r'.Owes fmt file [] := by
  refine (Protocol.Safe.iterate (P := relay fmt)
    (fun _ r' => r'.Owes fmt file [] ∧ (ctx.ctxFd ≠ none → r'.stopped = true)) ⟨h, hstopped⟩ ?_)
  rintro st r' ⟨h', hstopped'⟩
  unfold postStopTurn
  split
  · exact .pure h'
  refine (hwtCtxPollRecords_relay ctx pollMaxRecords h').bind ?_
  rintro polled r'' ⟨howes, heq, hnone⟩
  cases polled with
  | none => exact .pure howes
  | some recs =>
      have hstopped'' : r''.stopped = true := by
        rw [heq]
        exact hstopped' fun hfd => Option.some_ne_none _ (hnone hfd)
      cases recs with
      | nil => exact relay_bind trivial fun _ _ => .pure ⟨howes, fun _ => hstopped''⟩
      | cons rec recs =>
          exact (processRecords_relay st.ts howes hstopped'').bind fun _ _ h => .pure ⟨h.1, fun _ => h.2⟩

theorem ensureKernel_all {A : SysCall → Prop} (h : A .kernBase) (ctx : HwtCtx) (ts : TraceState) :
    (ensureKernel ctx ts).All A := by
  unfold ensureKernel
  split
  · exact all_invoke_bind h fun _ => trivial
  · trivial

theorem traceFinalize_relay (host : Host) (ctx : HwtCtx) (ts : TraceState) (out : CString) (totalrecords : Nat)
    (opts : PtDecodeOpts) (h : r.Owes fmt file []) (hstopped : r.stopped = false) :
    (relay fmt).Safe r (traceFinalize host ctx ts file out fmt totalrecords opts) fun _ r' => r'.Idle := by
  refine (hwtCtxPollRecords_relay ctx pollMaxRecords h).bind ?_
  rintro polled r₁ ⟨h₁, heq, -⟩
  refine (emitRecords_relay true (ctx, ts) h₁ (heq.trans hstopped)).bind fun st r₂ h₂ => ?_
  refine (hwtCtxStop_relay st.1 h₂.1).bind fun _ r₃ h₃ => ?_
  refine (traceStateDrainPostStop_relay st.1 st.2 h₃.1 h₃.2).bind fun drained r₄ h₄ => ?_
  refine (relay_of_quiet (ensureKernel_all trivial st.1 drained.ts)).bind fun ts' _ hr => ?_
  subst hr
  refine (snapshotAndDecode_relay host st.1 ts' out fmt opts h₄.sidecar).bind fun saved _ hr => ?_
  subst hr
  refine (hwtCtxClose_relay saved.2 h₄.idle).bind fun _ r₅ hidle => ?_
  have hclose : (metaWriterClose file).All SysCall.aside := eachSome_all _ fun _ => all_invoke trivial
  refine (relay_of_aside hclose).bind fun _ _ hr => .pure ?_
  exact hr ▸ hidle

/-! ## Polling -/

/-- Between two turns of a polling loop. -/
structure Relay.Polling (fmt : BsdtraceFmt) (file : Option Nat) (r : Relay) : Prop where
  owes : r.Owes fmt file []
  running : r.stopped = false

theorem emit_relay (opts : SessionOpts) (st : PollState) {recs : List BsdtraceRecord} (h : r.Owes opts.fmt file recs)
    (hstopped : r.stopped = false) :
    (relay opts.fmt).Safe r (st.emit file opts recs) fun _ r' => r'.Polling opts.fmt file :=
  (emitRecords_relay opts.pauseOnMmap (st.ctx, st.ts) h hstopped).bind fun _ _ h' => .pure ⟨h'.1, h'.2⟩

theorem traceTurn_relay (opts : SessionOpts) (pid : Int32) (start : Nat) (st : TraceLoop)
    (h : r.Polling opts.fmt file) :
    (relay opts.fmt).Safe r (traceTurn opts file pid start st) fun _ r' => r'.Polling opts.fmt file := by
  refine relay_bind trivial fun (interrupted : Bool) _ => ?_
  cases interrupted with
  | true => exact .pure h
  | false =>
      refine (relay_of_quiet (TraceLoop.expired_quiet st opts start)).bind fun expired _ hr => ?_
      subst hr
      cases expired with
      | true => exact .pure h
      | false =>
          simp only [Bool.false_eq_true, if_false]
          split
          · exact .pure h
          refine (relay_of_quiet (TraceLoop.checkTarget_quiet st pid)).bind fun gone _ hr => ?_
          subst hr
          refine (hwtCtxPollRecords_relay st.poll.ctx pollMaxRecords h.owes).bind ?_
          rintro polled r' ⟨howes, heq, -⟩
          have hrunning : r'.stopped = false := heq.trans h.running
          cases polled with
          | none => exact .pure ⟨howes, hrunning⟩
          | some recs =>
              refine (emit_relay opts st.poll howes hrunning).bind fun poll _ h' => ?_
              split
              · exact .pure h'
              · exact relay_bind trivial fun _ _ => .pure h'

theorem execTurn_relay (opts : SessionOpts) (child : Int32) (start : Nat) (st : ExecLoop)
    (h : r.Polling opts.fmt file) :
    (relay opts.fmt).Safe r (execTurn opts file child start st) fun _ r' => r'.Polling opts.fmt file := by
  refine relay_bind trivial fun (now : Nat) _ => ?_
  split
  · exact relay_bind trivial fun _ _ => .pure h
  refine relay_bind trivial fun (answer : WaitAnswer) _ => ?_
  refine (hwtCtxPollRecords_relay (st.checkChild answer).poll.ctx pollMaxRecords h.owes).bind ?_
  rintro polled r' ⟨howes, heq, -⟩
  have hrunning : r'.stopped = false := heq.trans h.running
  cases polled with
  | none =>
      have herror : (relay opts.fmt).Safe r' (pollError (st.checkChild answer) child) fun _ r'' =>
          r''.Polling opts.fmt file :=
        relay_bind trivial fun _ _ => relay_bind trivial fun _ _ => .pure ⟨howes, hrunning⟩
      dsimp only
      split
      · exact .pure ⟨howes, hrunning⟩
      · exact herror.bind fun _ _ h => .pure h
  | some recs =>
      refine (emit_relay opts (st.checkChild answer).poll howes hrunning).bind fun poll _ h' => ?_
      dsimp only
      split
      · exact .pure h'
      · exact relay_bind trivial fun _ _ => .pure h'

/-! ## Sessions -/

/-- The session is in front of its first poll, and its sidecar is not open yet. -/
structure Relay.Fresh (r : Relay) : Prop where
  sidecar : r.sidecar = none
  polled : r.polled = false
  running : r.stopped = false
  idle : r.Idle

theorem traceRunning_relay (host : Host) (opts : SessionOpts) (pid : Int32) (ctx : HwtCtx) (h : r.Fresh) :
    (relay opts.fmt).Safe r (traceRunning host opts pid ctx) fun _ r' => r'.Idle := by
  refine (openSidecar_relay ctx _ pid opts.tid h.sidecar h.polled h.idle).bind ?_
  rintro ⟨file, ts⟩ r' ⟨howes, heq, hpolled⟩
  have hseed : (relay opts.fmt).Safe r' (seedProcessMmaps file ts pid) fun _ r'' => r'' = r' := by
    refine relay_bind trivial fun (vmmap : Option (List KinfoVmentry)) _ => ?_
    exact (metaWrite_kept _ fun _ _ _ => hpolled).bind fun _ _ hr => .pure hr
  refine hseed.bind fun ts _ hr => ?_
  subst hr
  refine relay_bind trivial fun (start : Nat) _ => ?_
  have hpolling : Relay.Polling opts.fmt file _ := ⟨howes, heq.trans h.running⟩
  have hloop : (relay opts.fmt).Safe _ (.iterate (traceTurn opts file pid start) { poll := { ctx, ts } }) fun _ r'' =>
      r''.Polling opts.fmt file :=
    Protocol.Safe.iterate (P := relay opts.fmt) (fun _ r'' => r''.Polling opts.fmt file) hpolling fun st _ h' =>
      (traceTurn_relay opts pid start st h').mono fun out _ h'' => by cases out <;> exact h''
  refine hloop.bind fun st _ h' => ?_
  refine (traceFinalize_relay host st.poll.ctx st.poll.ts _ _ _ h'.owes h'.running).bind fun total _ hidle => ?_
  exact relay_bind trivial fun _ _ => relay_bind trivial fun _ _ => .pure hidle

theorem execReap_quiet (st : ExecLoop) (child : Int32) : (execReap st child).All SysCall.quiet := by
  unfold execReap
  split
  · trivial
  · exact all_invoke_bind trivial fun (answer : WaitAnswer) => by cases answer <;> trivial

theorem execRunning_relay (host : Host) (opts : SessionOpts) (child : Int32) (ctx : HwtCtx) (h : r.Fresh) :
    (relay opts.fmt).Safe r (execRunning host opts child ctx) fun _ r' => r'.Idle := by
  refine (openSidecar_relay ctx _ child opts.tid h.sidecar h.polled h.idle).bind ?_
  rintro ⟨file, ts⟩ r' ⟨howes, heq, -⟩
  refine relay_bind trivial fun _ _ => relay_bind trivial fun _ _ => relay_bind trivial fun (start : Nat) _ => ?_
  have hpolling : Relay.Polling opts.fmt file r' := ⟨howes, heq.trans h.running⟩
  have hloop : (relay opts.fmt).Safe r' (.iterate (execTurn opts file child start) { poll := { ctx, ts } }) fun _ r'' =>
      r''.Polling opts.fmt file :=
    Protocol.Safe.iterate (P := relay opts.fmt) (fun _ r'' => r''.Polling opts.fmt file) hpolling fun st _ h' =>
      (execTurn_relay opts child start st h').mono fun out _ h'' => by cases out <;> exact h''
  refine hloop.bind fun st r'' h' => ?_
  refine (relay_of_quiet (execReap_quiet st child)).bind fun st' _ hr => ?_
  subst hr
  exact (traceFinalize_relay host st'.poll.ctx st'.poll.ts _ _ _ h'.owes h'.running).bind fun _ _ hidle => .pure hidle

theorem applyOpts_quiet (opts : SessionOpts) (filter : List IpRange) (ctx : HwtCtx) :
    (applyOpts opts filter ctx).All SysCall.quiet := by
  unfold applyOpts
  dsimp only
  split
  · refine all_invoke_bind trivial fun (timing : UInt32 × UInt32) => ?_
    split <;> trivial
  · trivial

theorem traceConfigured_relay (host : Host) (opts : SessionOpts) (pid : Int32) (filter : List IpRange) (ctx : HwtCtx)
    (h : r.Fresh) : (relay opts.fmt).Safe r (traceConfigured host opts pid filter ctx) fun _ r' => r'.Idle := by
  have hclose : ∀ (ctx : HwtCtx) (code : Int), (relay opts.fmt).Safe r (do Session.hwtCtxClose ctx; pure code)
      fun _ r' => r'.Idle := fun ctx code => (hwtCtxClose_relay ctx h.idle).bind fun _ _ hidle => .pure hidle
  refine (relay_of_quiet (applyOpts_quiet opts filter ctx)).bind fun ctx' _ hr => ?_
  subst hr
  cases ctx' with
  | none => exact hclose ctx 1
  | some ctx' =>
      refine (relay_of_quiet (hwtCtxSetConfig_quiet ctx' opts.pauseOnMmap)).bind fun configured _ hr => ?_
      subst hr
      dsimp only
      split
      · refine relay_bind trivial fun _ _ => relay_bind trivial fun _ _ => ?_
        refine (relay_of_calm (hwtCtxStart_all (fun _ => trivial) ctx')).bind fun started _ hr => ?_
        subst hr
        cases started with
        | true => exact traceRunning_relay host opts pid ctx' h
        | false => exact hclose ctx' 1
      · exact hclose ctx' _

theorem execConfigured_relay (host : Host) (opts : SessionOpts) (child : Int32) (filter : List IpRange) (ctx : HwtCtx)
    (h : r.Fresh) : (relay opts.fmt).Safe r (execConfigured host opts child filter ctx) fun _ r' => r'.Idle := by
  have hclose : ∀ (ctx : HwtCtx) (code : Int), (relay opts.fmt).Safe r
      (do Session.hwtCtxClose ctx; killChild child; pure code) fun _ r' => r'.Idle := fun ctx code => by
    refine (hwtCtxClose_relay ctx h.idle).bind fun _ _ hidle => ?_
    exact (relay_of_quiet (killChild_quiet child)).bind fun _ _ hr => .pure (hr ▸ hidle)
  refine (relay_of_quiet (applyOpts_quiet opts filter ctx)).bind fun ctx' _ hr => ?_
  subst hr
  cases ctx' with
  | none =>
      refine (relay_of_quiet (killChild_quiet child)).bind fun _ _ hr => ?_
      subst hr
      exact (hwtCtxClose_relay ctx h.idle).bind fun _ _ hidle => .pure hidle
  | some ctx' =>
      refine (relay_of_quiet (hwtCtxSetConfig_quiet ctx' opts.pauseOnMmap)).bind fun configured _ hr => ?_
      subst hr
      dsimp only
      split
      · refine (relay_of_calm (hwtCtxStart_all (fun _ => trivial) ctx')).bind fun started _ hr => ?_
        subst hr
        cases started with
        | true => exact execRunning_relay host opts child ctx' h
        | false => exact hclose ctx' 1
      · exact hclose ctx' _

/-- The context is allocated without a poll; where that fails, the session ends. -/
theorem hwtCtxAlloc_relay (host : Host) (pid tid : Int32) (bufsize : UInt64) (backend : CString) (h : r.Fresh) :
    (relay fmt).Safe r (hwtCtxAlloc host pid tid bufsize backend) fun ctx r' =>
      r'.Idle ∧ (ctx ≠ none → r'.Fresh) := by
  have hfail : ∀ ctx : HwtCtx, (relay fmt).Safe r (allocFail ctx) fun ctx r' => r'.Idle ∧ (ctx ≠ none → r'.Fresh) :=
    fun ctx => (hwtCtxClose_relay ctx h.idle).bind fun _ _ hidle => .pure ⟨hidle, fun hne => absurd rfl hne⟩
  have hnone : (relay fmt).Safe r (pure (none : Option HwtCtx)) fun ctx r' => r'.Idle ∧ (ctx ≠ none → r'.Fresh) :=
    .pure ⟨h.idle, fun hne => absurd rfl hne⟩
  unfold hwtCtxAlloc
  split
  · exact hnone
  split
  · exact hnone
  refine relay_bind trivial fun (ctl : Option Fd) _ => ?_
  cases ctl with
  | none => exact hnone
  | some ctl =>
      refine relay_bind trivial fun (kq : Option Fd) _ => ?_
      cases kq with
      | none => exact hfail _
      | some kq =>
          refine relay_bind trivial fun (ident : Option Int32) _ => ?_
          cases ident with
          | none => exact hfail _
          | some ident =>
              refine relay_bind trivial fun (fd : Option Fd) _ => ?_
              cases fd with
              | none => exact hfail _
              | some fd => exact .pure ⟨h.idle, fun _ => h⟩

theorem cmdTrace_relay (host : Host) (opts : SessionOpts) (pid : Int32) (h : r.Fresh) :
    (relay opts.fmt).Safe r (cmdTrace host opts pid) fun _ r' => r'.Idle := by
  unfold cmdTrace
  split
  · exact .pure h.idle
  refine relay_bind trivial fun (there : Bool) _ => ?_
  split
  swap
  · exact .pure h.idle
  refine (relay_of_calm (resolveBackend_calm opts.backendName)).bind fun backend _ hr => ?_
  subst hr
  cases backend with
  | none => exact .pure h.idle
  | some backend =>
      refine (relay_of_quiet (checkHwtHooks_quiet opts.dryrun)).bind fun hooks _ hr => ?_
      subst hr
      dsimp only
      split
      swap
      · exact .pure h.idle
      refine (relay_of_quiet (traceFilter_quiet host opts pid)).bind fun filter _ hr => ?_
      subst hr
      cases filter with
      | none => exact .pure h.idle
      | some filter =>
          refine (hwtCtxAlloc_relay host pid opts.tid (parseSize opts.bufsizeStr) backend h).bind fun ctx _ h' => ?_
          cases ctx with
          | none => exact .pure h'.1
          | some ctx => exact traceConfigured_relay host opts pid filter ctx (h'.2 (Option.some_ne_none _))

theorem cmdExec_relay (host : Host) (opts : SessionOpts) (noAslr : Bool) (name : CString) (args : List CString)
    (h : r.Fresh) : (relay opts.fmt).Safe r (cmdExec host opts noAslr name args) fun _ r' => r'.Idle := by
  refine (relay_of_quiet (execFilter_quiet host opts name)).bind fun filter _ hr => ?_
  subst hr
  cases filter with
  | none => exact .pure h.idle
  | some filter =>
      refine (relay_of_calm (resolveBackend_calm opts.backendName)).bind fun backend _ hr => ?_
      subst hr
      cases backend with
      | none => exact .pure h.idle
      | some backend =>
          refine (relay_of_quiet (checkHwtHooks_quiet opts.dryrun)).bind fun hooks _ hr => ?_
          subst hr
          dsimp only
          split
          swap
          · exact .pure h.idle
          refine (relay_of_quiet (forkStopped_quiet (name :: args) (noAslr || filter.2))).bind fun child _ hr => ?_
          subst hr
          cases child with
          | none => exact .pure h.idle
          | some child =>
              refine (hwtCtxAlloc_relay host child opts.tid (parseSize opts.bufsizeStr) backend h).bind
                fun ctx _ h' => ?_
              cases ctx with
              | none => exact (relay_of_quiet (killChild_quiet child)).bind fun _ _ hr => .pure (hr ▸ h'.1)
              | some ctx => exact execConfigured_relay host opts child filter.1 ctx (h'.2 (Option.some_ne_none _))

end ObservableBSD.Trace.Session
