import ObservableBSD.Trace.Lemmas.SessionContext
import ObservableBSD.Trace.Lemmas.Snapshot

/-!
# What the end of a session holds

The functions of `trace.c` obey the protocol of a session, and `trace_finalize` leaves nothing open.
-/

namespace ObservableBSD.Trace.Session

open Base Elf Decode

variable {α : Type} {w : World} {ph : Phase} {ctx : HwtCtx} {file : Option Nat}

/-! ## The sidecar -/

theorem metaWrite_safe {lines : List CString} (hfile : ∀ f, file = some f → f ∈ w.files) :
    held.Safe w (metaWrite file lines) fun _ w' => w' = w := by
  induction lines with
  | nil => exact .pure rfl
  | cons line lines ih =>
      have hline : held.Safe w (eachSome file fun f => invoke (.fprintf f line)) fun _ w' => w' = w := by
        cases file with
        | none => exact .pure rfl
        | some f => exact invoke_safe (hfile f rfl) fun _ _ => rfl
      refine hline.bind fun _ _ hw => ?_
      subst hw
      exact ih

theorem world_file (f : Nat) (hfile : file = some f) : f ∈ (world ctx file ph).files := by
  simp [world, hfile]

theorem metaWriterClose_safe {F : Multiset Fd} {M : Multiset (Nat × Nat)} {files : Multiset Nat} (file : Option Nat) :
    held.Safe ⟨F, M, ofOption file + files, ph⟩ (metaWriterClose file) fun _ w => w = ⟨F, M, files, ph⟩ := by
  cases file with
  | none => exact .pure (by simp)
  | some f =>
      refine invoke_safe ?_ fun _ _ => ?_
      · simp [World.Allows]
      · change (⟨F, M, Multiset.erase ({f} + files) f, ph⟩ : World) = _
        rw [Multiset.singleton_add, Multiset.erase_cons_head]

/-! ## Records -/

theorem traceStateProcess_safe (ts : TraceState) (rec : BsdtraceRecord) :
    held.Safe (world ctx file ph) (traceStateProcess file ts rec) fun _ w => w = world ctx file ph :=
  (metaWrite_safe world_file).bind fun _ _ hw => .pure hw

/-- Standard output may be used: a closed pipe cannot end the session while tracing runs. -/
def Phase.Prints (ph : Phase) : Prop := ph.running = true → ph.sigpipe = true

theorem printRecord_safe (hprints : w.phase.Prints) (fmt : BsdtraceFmt) (rec : BsdtraceRecord) :
    held.Safe w (printRecord fmt rec) fun _ w' => w' = w := by
  unfold printRecord
  split
  · exact invoke_safe hprints fun _ _ => rfl
  · exact .pure rfl

theorem wakeTarget_safe (hready : ctx.Ready ph) (pauseOnMmap : Bool) (rec : BsdtraceRecord) :
    held.Safe (world ctx file ph) (wakeTarget ctx pauseOnMmap rec) fun _ w => w = world ctx file ph := by
  unfold wakeTarget
  split
  · exact hwtCtxWakeup_safe hready
  · exact .pure rfl

theorem openWanted_safe (hlive : ctx.Live ph) (rec : BsdtraceRecord) :
    held.Safe (world ctx file ph) (openWanted ctx rec) fun ctx' w => ctx'.Live ph ∧ w = world ctx' file ph := by
  unfold openWanted
  split
  · exact hwtCtxOpenThread_safe rec.threadId hlive
  · exact .pure ⟨hlive, rfl⟩

theorem emitAndProcess_safe (hprints : ph.Prints) (hlive : ctx.Live ph) (ts : TraceState) (fmt : BsdtraceFmt)
    (pauseOnMmap : Bool) (rec : BsdtraceRecord) :
    held.Safe (world ctx file ph) (emitAndProcess file fmt pauseOnMmap (ctx, ts) rec) fun st w =>
      st.1.Live ph ∧ w = world st.1 file ph := by
  refine (printRecord_safe (by exact hprints) fmt rec).bind fun _ _ hw => ?_
  subst hw
  refine (wakeTarget_safe hlive.toReady pauseOnMmap rec).bind fun _ _ hw => ?_
  subst hw
  refine (openWanted_safe hlive rec).bind ?_
  rintro ctx' _ ⟨hlive', rfl⟩
  exact (traceStateProcess_safe ts rec).bind fun _ _ hw => .pure ⟨hlive', hw⟩

theorem emitRecords_safe (hprints : ph.Prints) (hlive : ctx.Live ph) (ts : TraceState) (fmt : BsdtraceFmt)
    (pauseOnMmap : Bool) (recs : List BsdtraceRecord) :
    held.Safe (world ctx file ph) (emitRecords file fmt pauseOnMmap (ctx, ts) recs) fun st w =>
      st.1.Live ph ∧ w = world st.1 file ph := by
  refine Protocol.Safe.foldlM (P := held) (fun (st : HwtCtx × TraceState) w => st.1.Live ph ∧ w = world st.1 file ph)
    recs ⟨hlive, rfl⟩ ?_
  rintro ⟨ctx', ts'⟩ _ rec _ ⟨hlive', rfl⟩
  exact emitAndProcess_safe hprints hlive' ts' fmt pauseOnMmap rec

theorem processRecords_safe (ts : TraceState) (recs : List BsdtraceRecord) :
    held.Safe (world ctx file ph) (processRecords file ts recs) fun _ w => w = world ctx file ph := by
  refine Protocol.Safe.foldlM (P := held) (fun _ w => w = world ctx file ph) recs rfl ?_
  rintro ts' _ rec _ rfl
  exact traceStateProcess_safe ts' rec

theorem traceStateDrainPostStop_safe (hready : ctx.Ready ph) (ts : TraceState) :
    held.Safe (world ctx file ph) (traceStateDrainPostStop ctx file ts) fun _ w => w = world ctx file ph := by
  refine Protocol.Safe.iterate (P := held) (fun _ w => w = world ctx file ph) rfl ?_
  rintro st _ rfl
  unfold postStopTurn
  split
  · exact .pure rfl
  refine (hwtCtxPollRecords_safe pollMaxRecords hready).bind fun polled _ hw => ?_
  subst hw
  match polled with
  | none => exact .pure rfl
  | some [] => exact invoke_bind trivial fun _ _ => .pure rfl
  | some (rec :: recs) => exact (processRecords_safe st.ts (rec :: recs)).bind fun _ _ hw => .pure hw

/-! ## Snapshots -/

theorem chooseSnapshotLen_le (probe : Probe) (buf : List UInt8) (baseLen : Nat) (sections : List PtImageInfo) :
    chooseSnapshotLen probe buf baseLen sections ≤ buf.length := by
  rcases chooseSnapshotLen_eq probe buf baseLen sections with h | h
  · exact h ▸ Nat.min_le_right ..
  · exact h ▸ ptScanLastNonzero_le buf buf.length

/-- The thread has its device open in the context. -/
structure HwtThreadCtx.Ready (thread : HwtThreadCtx) (F : Multiset Fd) (ph : Phase) : Prop where
  mem : thread.fd ∈ F
  device : ∃ ident tid, ph.context = some ident ∧ thread.fd.path = some (devicePath ident tid)

variable {F : Multiset Fd} {M : Multiset (Nat × Nat)} {files : Multiset Nat} {thread : HwtThreadCtx}

theorem mapThread_safe (size : UInt64) (hready : thread.Ready F ph) :
    held.Safe ⟨F, ofOption (thread.traceBuf.map (·, size.toNat)) + M, files, ph⟩ (mapThread size thread) fun r w =>
      r.2 = { thread with traceBuf := r.1 } ∧ w = ⟨F, ofOption (r.1.map (·, size.toNat)) + M, files, ph⟩ := by
  unfold mapThread
  cases hbuf : thread.traceBuf with
  | some addr => exact .pure ⟨by rw [← hbuf], rfl⟩
  | none =>
      refine invoke_bind ⟨hready.mem, hready.device⟩ fun (ptr : Option Nat) _ => .pure ⟨rfl, ?_⟩
      change (⟨F, ofOption (ptr.map (·, size.toNat)) + (ofOption none + M), files, ph⟩ : World) = _
      rw [ofOption_none, zero_add]

theorem threadPosition_safe (size : UInt64) (hready : thread.Ready w.fds w.phase) :
    held.Safe w (threadPosition size thread) fun _ w' => w' = w := by
  refine invoke_bind ⟨hready.mem, hready.device⟩ fun (pos : Option (Int32 × UInt64)) _ => ?_
  cases pos with
  | none => exact .pure rfl
  | some pos => exact .pure rfl

theorem threadSidecar_safe (ctx : HwtCtx) (ts : TraceState) (tpath : CString) (threadId : Int32) :
    held.Safe ⟨F, M, files, ph⟩ (threadSidecar ctx ts tpath threadId) fun _ w => w = ⟨F, M, files, ph⟩ := by
  refine invoke_bind trivial fun (tfile : Option Nat) _ => ?_
  change held.Safe ⟨F, M, ofOption tfile + files, ph⟩ _ _
  have htfile : ∀ f, tfile = some f → f ∈ ofOption tfile + files := by simp +contextual
  refine (metaWrite_safe (by exact htfile)).bind fun _ _ hw => ?_
  subst hw
  refine (metaWrite_safe (by exact htfile)).bind fun _ _ hw => ?_
  subst hw
  refine (metaWrite_safe (by exact htfile)).bind fun _ _ hw => ?_
  subst hw
  exact metaWriterClose_safe tfile

theorem printThread_safe (hprints : w.phase.Prints) (fmt : BsdtraceFmt) (threadId : Int32) :
    held.Safe w (printThread fmt threadId) fun _ w' => w' = w := by
  unfold printThread
  split
  · exact invoke_safe hprints fun _ _ => rfl
  · exact .pure rfl

theorem decodeThread_safe {tbuf tlen : Nat} (ts : TraceState) (fmt : BsdtraceFmt) (dopts : PtDecodeOpts)
    (threadId : Int32) (hprints : w.phase.Prints) (hmapped : w.Mapped tbuf tlen) :
    held.Safe w (decodeThread ts fmt dopts threadId tbuf tlen) fun _ w' => w' = w := by
  refine (printThread_safe hprints fmt threadId).bind fun _ _ hw => ?_
  subst hw
  exact invoke_safe hmapped fun _ _ => rfl

theorem saveThread_safe {tbuf tlen : Nat} (ctx : HwtCtx) (ts : TraceState) (ptOutput : CString) (fmt : BsdtraceFmt)
    (dopts : PtDecodeOpts) (threadId : Int32) (hidle : w.phase.running = false) (hmapped : w.Mapped tbuf tlen) :
    held.Safe w (saveThread ctx ts ptOutput fmt dopts threadId tbuf tlen) fun _ w' => w' = w := by
  refine invoke_bind trivial fun (fd : Option Fd) _ => ?_
  change held.Safe (w.addFd fd) _ _
  cases fd with
  | none =>
      rw [World.addFd_none]
      exact .pure rfl
  | some fd =>
      refine (writeBuffer_safe (by simp [World.addFd]) (by exact hmapped)).bind fun written _ hw => ?_
      subst hw
      refine (close_safe hidle (some fd)).bind fun _ _ hw => ?_
      subst hw
      cases written with
      | false => exact .pure rfl
      | true =>
          refine (threadSidecar_safe ctx ts _ threadId).bind fun _ _ hw => ?_
          subst hw
          exact (decodeThread_safe ts fmt dopts threadId (by simp [Phase.Prints, hidle]) hmapped).bind
            fun _ _ hw => .pure hw

theorem snapshotThread_safe (host : Host) (ctx : HwtCtx) (ts : TraceState) (ptOutput : CString) (fmt : BsdtraceFmt)
    (dopts : PtDecodeOpts) (hready : thread.Ready F ph) (hidle : ph.running = false) :
    held.Safe ⟨F, ofOption (thread.traceBuf.map (·, ctx.bufsize.toNat)) + M, files, ph⟩
      (snapshotThread host ctx ts ptOutput fmt dopts thread) fun r w =>
      r.1.fd = thread.fd ∧ r.1.threadId = thread.threadId ∧
        w = ⟨F, ofOption (r.1.traceBuf.map (·, ctx.bufsize.toNat)) + M, files, ph⟩ := by
  refine (threadPosition_safe ctx.bufsize (by exact hready)).bind fun len _ hw => ?_
  subst hw
  refine (mapThread_safe ctx.bufsize hready).bind ?_
  rintro ⟨tbuf, thread'⟩ _ ⟨hthread, hw⟩
  dsimp only at hthread hw
  subst hthread hw
  cases tbuf with
  | none => exact .pure ⟨rfl, rfl, rfl⟩
  | some tbuf =>
      have hmapped : ∀ n ≤ ctx.bufsize.toNat, World.Mapped
          ⟨F, ofOption ((some tbuf).map (·, ctx.bufsize.toNat)) + M, files, ph⟩ tbuf n := fun n hn =>
        ⟨(tbuf, ctx.bufsize.toNat), by simp, Nat.le_refl _, Nat.add_le_add_left hn _⟩
      refine invoke_bind (hmapped _ (Nat.le_refl _)) fun bytes _ => ?_
      have hlen : chooseSnapshotLen host.probe bytes.val len ts.sections ≤ ctx.bufsize.toNat :=
        (chooseSnapshotLen_le ..).trans (Nat.le_of_eq bytes.property)
      generalize chooseSnapshotLen host.probe bytes.val len ts.sections = tlen at hlen ⊢
      dsimp only
      split
      · exact .pure ⟨rfl, rfl, rfl⟩
      · exact (saveThread_safe ctx ts ptOutput fmt dopts thread.threadId hidle (hmapped tlen hlen)).bind
          fun _ _ hw => .pure ⟨rfl, rfl, hw⟩

/-- What identifies a thread of a context. -/
def HwtThreadCtx.key (thread : HwtThreadCtx) : Fd × Int32 := (thread.fd, thread.threadId)

theorem snapshotThreads_safe (host : Host) (ctx : HwtCtx) (ts : TraceState) (ptOutput : CString) (fmt : BsdtraceFmt)
    (dopts : PtDecodeOpts) (threads : List HwtThreadCtx) (saved : Int) (hready : ∀ thread ∈ threads, thread.Ready F ph)
    (hidle : ph.running = false) :
    held.Safe ⟨F, threadMaps ctx.bufsize.toNat threads + M, files, ph⟩
      (snapshotThreads host ctx ts ptOutput fmt dopts threads saved) fun r w =>
      r.1.map HwtThreadCtx.key = threads.map HwtThreadCtx.key ∧
        w = ⟨F, threadMaps ctx.bufsize.toNat r.1 + M, files, ph⟩ := by
  induction threads generalizing M saved with
  | nil => exact .pure ⟨rfl, rfl⟩
  | cons thread threads ih =>
      have hhead := hready thread List.mem_cons_self
      rw [threadMaps_cons, add_assoc]
      refine (snapshotThread_safe host ctx ts ptOutput fmt dopts hhead hidle).bind ?_
      rintro ⟨thread', tsaved⟩ _ ⟨hfd, hid, hw⟩
      dsimp only at hfd hid hw
      subst hw
      rw [add_left_comm]
      refine (ih _ fun t ht => hready t (List.mem_cons_of_mem _ ht)).bind ?_
      rintro ⟨threads', saved'⟩ _ ⟨hkeys, hw⟩
      dsimp only at hkeys hw
      subst hw
      refine .pure ⟨?_, ?_⟩
      · simp [HwtThreadCtx.key, hfd, hid] at hkeys ⊢
        exact hkeys
      · simp only [threadMaps_cons]
        rw [add_left_comm, add_assoc]

theorem threadFds_eq {threads threads' : List HwtThreadCtx}
    (h : threads'.map HwtThreadCtx.key = threads.map HwtThreadCtx.key) : threadFds threads' = threadFds threads := by
  have hfds := congrArg (List.map Prod.fst) h
  simp only [List.map_map] at hfds
  exact congrArg (fun fds : List Fd => (fds : Multiset Fd)) hfds

/-- The snapshots map buffers of the threads; otherwise the context stays. -/
theorem HwtCtx.Live.setThreads {threads : List HwtThreadCtx} (hlive : ctx.Live ph)
    (h : threads.map HwtThreadCtx.key = ctx.threads.map HwtThreadCtx.key) : { ctx with threads }.Live ph where
  device := hlive.device
  threads thread hthread := by
    have hkey : thread.key ∈ ctx.threads.map HwtThreadCtx.key := h ▸ List.mem_map_of_mem hthread
    obtain ⟨old, hold, heq⟩ := List.mem_map.mp hkey
    obtain ⟨hfd, hid⟩ : old.fd = thread.fd ∧ old.threadId = thread.threadId := Prod.mk.inj heq
    exact hfd ▸ hid ▸ hlive.threads old hold
  idle := hlive.idle
  opened := hlive.opened

theorem snapshotOthers_safe (host : Host) (ts : TraceState) (ptOutput : CString) (fmt : BsdtraceFmt)
    (dopts : PtDecodeOpts) (saved : Int) (hlive : ctx.Live ph) (hidle : ph.running = false) :
    held.Safe (world ctx file ph) (snapshotOthers host ctx ts ptOutput fmt dopts saved) fun r w =>
      r.2.Live ph ∧ w = world r.2 file ph := by
  unfold snapshotOthers
  split
  · have hready : ∀ thread ∈ ctx.threads, thread.Ready ctx.fds ph := fun thread hthread => by
      obtain ⟨hcontext, hpath⟩ := hlive.threads thread hthread
      refine ⟨?_, ctx.ident, thread.threadId, hcontext, hpath⟩
      have hmem : thread.fd ∈ threadFds ctx.threads := Multiset.mem_coe.mpr (List.mem_map_of_mem hthread)
      exact Multiset.mem_add.mpr (.inl hmem)
    refine (snapshotThreads_safe host ctx ts ptOutput fmt dopts ctx.threads saved hready hidle).bind ?_
    rintro ⟨threads, saved'⟩ _ ⟨hkeys, hw⟩
    dsimp only at hkeys hw
    subst hw
    refine .pure ⟨hlive.setThreads hkeys, ?_⟩
    simp only [world, HwtCtx.fds, HwtCtx.maps, threadFds_eq hkeys]
  · exact .pure ⟨hlive, rfl⟩

theorem snapshotAndDecode_safe (host : Host) (ts : TraceState) (ptOutput : CString) (fmt : BsdtraceFmt)
    (opts : PtDecodeOpts) (hlive : ctx.Live ph) (hidle : ph.running = false) :
    held.Safe (world ctx file ph) (snapshotAndDecode host ctx ts ptOutput fmt opts) fun r w =>
      r.2.Live ph ∧ w = world r.2 file ph := by
  refine (hwtCtxBufptrGet_safe hlive.toReady).bind fun stop _ hw => ?_
  subst hw
  refine (hwtCtxMapBuffer_safe hlive.toReady).bind ?_
  rintro ⟨buf, ctx'⟩ _ ⟨hctx, hw⟩
  dsimp only at hctx hw
  subst hw
  have hlive' : ctx'.Live ph := hctx ▸ ⟨⟨hlive.device, hlive.threads, hlive.idle⟩, hlive.opened⟩
  cases buf with
  | none => exact .pure ⟨hlive', rfl⟩
  | some buf =>
      have hbuf : ctx'.traceBuf = some buf := by rw [hctx]
      have hmapped : ∀ n ≤ ctx'.bufsize.toNat, (world ctx' file ph).Mapped buf n := fun n hn =>
        world_mapped hbuf hn
      refine invoke_bind (hmapped _ (Nat.le_refl _)) fun bytes _ => ?_
      dsimp only
      split
      · exact .pure ⟨hlive', rfl⟩
      refine (hwtCtxSnapshotBuffer_safe ptOutput _ _ hbuf hidle).bind ?_
      rintro ⟨saved, ctx''⟩ _ ⟨⟨hctx', hsaved⟩, rfl⟩
      dsimp only at hctx' hsaved
      subst hctx'
      have hdecode : held.Safe (world ctx'' file ph) (decodeSaved ts fmt
          { opts with mtcFreq := ctx''.mtcFreq.toUInt8, cycThresh := ctx''.cycThresh.toUInt8 } buf saved)
          fun _ w => w = world ctx'' file ph := by
        unfold decodeSaved
        split
        · exact invoke_safe (hmapped _ (by omega)) fun _ _ => rfl
        · exact .pure rfl
      refine hdecode.bind fun _ _ hw => ?_
      subst hw
      exact snapshotOthers_safe host ts ptOutput fmt _ saved hlive' hidle

/-! ## Finalize -/

theorem ensureKernel_safe (ctx : HwtCtx) (ts : TraceState) : held.Safe w (ensureKernel ctx ts) fun _ w' => w' = w := by
  unfold ensureKernel
  split
  · exact invoke_bind trivial fun _ _ => .pure rfl
  · exact .pure rfl

/-- Behind `trace_finalize` nothing runs, and nothing is open. -/
theorem traceFinalize_safe (host : Host) (ts : TraceState) (ptOutput : CString) (fmt : BsdtraceFmt)
    (totalrecords : Nat) (opts : PtDecodeOpts) (hlive : ctx.Live ph) (hprints : ph.Prints) :
    held.Safe (world ctx file ph) (traceFinalize host ctx ts file ptOutput fmt totalrecords opts) fun _ w =>
      w = ⟨0, 0, 0, { ph with running := false }⟩ := by
  refine (hwtCtxPollRecords_safe pollMaxRecords hlive.toReady).bind fun polled _ hw => ?_
  subst hw
  refine (emitRecords_safe hprints hlive ts fmt true (polled.getD [])).bind ?_
  rintro ⟨ctx', ts'⟩ _ ⟨hlive', hw⟩
  dsimp only at hlive' hw
  subst hw
  refine (hwtCtxStop_safe hlive'.toReady).bind fun _ _ hw => ?_
  subst hw
  have hstopped : ctx'.Live { ph with running := false } := hlive'.congr rfl
  refine (traceStateDrainPostStop_safe hstopped.toReady ts').bind fun drained _ hw => ?_
  subst hw
  refine (ensureKernel_safe ctx' drained.ts).bind fun ts'' _ hw => ?_
  subst hw
  refine (snapshotAndDecode_safe host ts'' ptOutput fmt opts hstopped rfl).bind ?_
  rintro ⟨saved, ctx''⟩ _ ⟨hlive'', hw⟩
  dsimp only at hlive'' hw
  subst hw
  refine (hwtCtxClose_safe hlive''.toReady).bind fun _ _ hw => ?_
  subst hw
  rw [← add_zero (ofOption file)]
  exact (metaWriterClose_safe file).bind fun _ _ hw => .pure hw

end ObservableBSD.Trace.Session
