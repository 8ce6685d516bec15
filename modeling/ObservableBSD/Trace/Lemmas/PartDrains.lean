import ObservableBSD.Base.Splits
import ObservableBSD.Trace.Lemmas.RelaySession
import ObservableBSD.Trace.Parts

/-!
# The drains of a session

Each function of the session does what its counterpart in the model of the drains does.
-/

namespace ObservableBSD.Trace.Session

open Base Decode Elf

variable {α : Type} {t : Trail} {post : α → Trail → Prop} {ctx₀ ctx : HwtCtx} {front : List ContextCall}
  {st : DrainState} {ts : TraceState} {file : Option Nat}

/-! ## Rules -/

theorem trail_bind {c : SysCall} {f : c.Answer → Prog sys α} (h : ∀ ans, trail.Safe (t.next c ans) (f ans) post) :
    trail.Safe t (invoke c >>= f) post :=
  Protocol.Safe.call (P := trail) (c := c) trivial fun ans _ => h ans

/-- A call that leaves no trace. -/
def SysCall.untraced : SysCall → Prop
  | .recordGet .. | .openDevice _ | .wakeup _ | .stop _ | .decodePtInsn .. => False
  | _ => True

theorem next_of_untraced {c : SysCall} (h : c.untraced) (ans : c.Answer) : t.next c ans = t := by
  have hnone : contextCalls c ans = [] ∧ decodedSections c = [] := by
    cases c with
    | recordGet | openDevice | wakeup | stop | decodePtInsn => exact h.elim
    | _ => exact ⟨rfl, rfl⟩
  rw [Trail.next, hnone.1, hnone.2, List.append_nil, List.append_nil]

theorem trail_of_untraced {p : Prog sys α} (h : p.All SysCall.untraced) : trail.Safe t p fun _ t' => t' = t :=
  Protocol.Safe.of_all (P := trail) (fun _ hc => ⟨trivial, next_of_untraced hc⟩) h

theorem trail_invoke {c : SysCall} {f : c.Answer → Prog sys α} (hc : c.untraced)
    (h : ∀ ans, trail.Safe t (f ans) post) : trail.Safe t (invoke c >>= f) post :=
  trail_bind fun ans => (next_of_untraced hc ans).symm ▸ h ans

/-! ## The relation -/

/-- A call on the context that is in the model too. -/
theorem Mirrors.call (h : Mirrors ctx₀ front st ctx ts t) (c : HwtCall) :
    Mirrors ctx₀ front { st with ctx := st.ctx.call c } ctx ts
      ⟨t.calls ++ [contextCall ctx₀.ident c], t.decoded ++ []⟩ where
  same := h.same
  ctx := congrArg (Trace.HwtCtx.call · c) h.ctx
  ts := h.ts
  calls := by rw [h.calls, Trace.HwtCtx.call, List.map_append, List.map_singleton, List.append_assoc]
  decoded := by rw [h.decoded, List.append_nil]

/-- A record of the model is processed. -/
theorem Mirrors.process (h : Mirrors ctx₀ front st ctx ts t) (rec : BsdtraceRecord) :
    Mirrors ctx₀ front { st with ts := Trace.traceStateProcess st.ts rec } ctx (Trace.traceStateProcess ts rec) t :=
  { h with ts := congrArg (Trace.traceStateProcess · rec) h.ts }

/-- The device of a thread is open. -/
theorem Mirrors.opened (h : Mirrors ctx₀ front st ctx ts t) (fd : Fd) (threadId : Int32) :
    Mirrors ctx₀ front { st with ctx := { st.ctx with threads := st.ctx.threads ++ [threadId] } }
      { ctx with threads := ctx.threads ++ [{ fd, threadId }] } ts t where
  same := by rw [h.same]
  ctx := by
    have hopened : ∀ calls, ({ ctx.drained calls with threads := (ctx.drained calls).threads ++ [threadId] } :
        Trace.HwtCtx) = HwtCtx.drained { ctx with threads := ctx.threads ++ [{ fd, threadId }] } calls := by
      intro calls
      simp [HwtCtx.drained]
    exact (congrArg (fun c : Trace.HwtCtx => { c with threads := c.threads ++ [threadId] }) h.ctx).trans (hopened _)
  ts := h.ts
  calls := h.calls
  decoded := h.decoded

theorem Mirrors.threads (h : Mirrors ctx₀ front st ctx ts t) : st.ctx.threads = ctx.threads.map (·.threadId) :=
  congrArg Trace.HwtCtx.threads h.ctx

theorem Mirrors.ident (h : Mirrors ctx₀ front st ctx ts t) : ctx.ident = ctx₀.ident := by
  rw [h.same]

theorem Mirrors.ctxFd (h : Mirrors ctx₀ front st ctx ts t) : ctx.ctxFd = ctx₀.ctxFd := by
  rw [h.same]

theorem Mirrors.osTrace (h : Mirrors ctx₀ front st ctx ts t) : ctx.osTrace = ctx₀.osTrace := by
  rw [h.same]

theorem Mirrors.wantsThread (h : Mirrors ctx₀ front st ctx ts t) (rec : BsdtraceRecord) :
    Session.wantsThread ctx rec = st.ctx.wantsThread rec := by
  rw [h.ctx]
  rfl

/-! ## Records -/

theorem hwtCtxOpenThread_mirrors (h : Mirrors ctx₀ front st ctx ts t) (threadId : Int32) :
    trail.Safe t (Session.hwtCtxOpenThread ctx threadId) fun ctx' t' =>
      ∃ opens, Mirrors ctx₀ front { st with ctx := Trace.hwtCtxOpenThread st.ctx threadId opens } ctx' ts t' := by
  have hlength : st.ctx.threads.length = ctx.threads.length := by rw [h.threads, List.length_map]
  have hmem : threadId ∈ st.ctx.threads ↔ ctx.threads.any (·.threadId = threadId) = true := by
    simp [h.threads]
  unfold Session.hwtCtxOpenThread Trace.hwtCtxOpenThread
  rw [hlength]
  split
  · exact .pure ⟨true, h⟩
  split
  · rename_i hopen
    exact .pure ⟨true, by rwa [if_pos (hmem.mpr hopen)]⟩
  rename_i hopen
  simp only [if_neg (mt hmem.mp hopen)]
  refine trail_bind fun (fd : Option Fd) => ?_
  have hcall := h.call (.openThread threadId)
  rw [contextCall, ← h.ident] at hcall
  cases fd with
  | none => exact .pure ⟨false, hcall⟩
  | some fd => exact .pure ⟨true, hcall.opened fd threadId⟩

theorem wakeTarget_mirrors (h : Mirrors ctx₀ front st ctx ts t) (hdevice : ctx₀.ctxFd.isSome = true)
    (pauseOnMmap : Bool) (rec : BsdtraceRecord) :
    trail.Safe t (wakeTarget ctx pauseOnMmap rec) fun _ t' => Mirrors ctx₀ front
      { st with ctx := if pauseOnMmap && rec.pausesTarget then Trace.hwtCtxWakeup st.ctx else st.ctx } ctx ts t' := by
  obtain ⟨fd, hfd⟩ := Option.isSome_iff_exists.mp (h.ctxFd ▸ hdevice)
  unfold wakeTarget
  split
  · unfold Session.hwtCtxWakeup onDevice
    rw [hfd]
    exact trail_bind (c := .wakeup fd) fun _ => .pure (h.call .wakeup)
  · exact .pure h

theorem openWanted_mirrors (h : Mirrors ctx₀ front st ctx ts t) (rec : BsdtraceRecord) :
    trail.Safe t (openWanted ctx rec) fun ctx' t' => ∃ opens, Mirrors ctx₀ front
      { st with ctx :=
          if st.ctx.wantsThread rec then Trace.hwtCtxOpenThread st.ctx rec.threadId opens else st.ctx } ctx' ts t' := by
  unfold openWanted
  rw [h.wantsThread]
  split
  · exact hwtCtxOpenThread_mirrors h rec.threadId
  · exact .pure ⟨true, h⟩

theorem traceStateProcess_trail (file : Option Nat) (ts : TraceState) (rec : BsdtraceRecord) :
    trail.Safe t (Session.traceStateProcess file ts rec) fun ts' t' => ts' = Trace.traceStateProcess ts rec ∧ t' = t :=
  (trail_of_untraced (metaWrite_all (fun _ _ => trivial) file _)).bind fun _ _ ht => .pure ⟨rfl, ht⟩

theorem emitAndProcess_mirrors (h : Mirrors ctx₀ front st ctx ts t) (hdevice : ctx₀.ctxFd.isSome = true)
    (fmt : BsdtraceFmt) (pauseOnMmap : Bool) (rec : BsdtraceRecord) :
    trail.Safe t (Session.emitAndProcess file fmt pauseOnMmap (ctx, ts) rec) fun out t' =>
      ∃ opens, Mirrors ctx₀ front (Trace.emitAndProcess pauseOnMmap st ⟨rec, opens⟩) out.1 out.2 t' := by
  refine (trail_of_untraced (printRecord_all (fun _ _ => trivial) fmt rec)).bind fun _ _ ht => ?_
  subst ht
  refine (wakeTarget_mirrors h hdevice pauseOnMmap rec).bind fun _ _ h => ?_
  refine (openWanted_mirrors h rec).bind ?_
  rintro ctx' t' ⟨opens, h⟩
  refine (traceStateProcess_trail file ts rec).bind ?_
  rintro _ _ ⟨rfl, rfl⟩
  exact .pure ⟨opens, h.process rec⟩

/-- The records of a poll are a batch of the model, as the opens of the session go. -/
theorem emitRecords_mirrors (h : Mirrors ctx₀ front st ctx ts t) (hdevice : ctx₀.ctxFd.isSome = true)
    (fmt : BsdtraceFmt) (pauseOnMmap : Bool) (recs : List BsdtraceRecord) :
    trail.Safe t (emitRecords file fmt pauseOnMmap (ctx, ts) recs) fun out t' => ∃ batch : Batch,
      batch.map (·.record) = recs ∧
        Mirrors ctx₀ front (batch.foldl (Trace.emitAndProcess pauseOnMmap) st) out.1 out.2 t' := by
  induction recs generalizing st ctx ts t with
  | nil => exact .pure ⟨[], rfl, h⟩
  | cons rec recs ih =>
      unfold emitRecords
      rw [List.foldlM_cons]
      refine (emitAndProcess_mirrors h hdevice fmt pauseOnMmap rec).bind ?_
      rintro ⟨ctx', ts'⟩ t' ⟨opens, h'⟩
      refine (ih h').mono ?_
      rintro out t'' ⟨batch, rfl, h''⟩
      exact ⟨⟨rec, opens⟩ :: batch, rfl, h''⟩

/-- The session behind a poll: a failed one leaves it where it was. -/
def MirrorsPoll (ctx₀ : HwtCtx) (front : List ContextCall) (st : DrainState) (ctx : HwtCtx) (ts : TraceState)
    (t : Trail) : Option (List BsdtraceRecord) → Prop
  | none => Mirrors ctx₀ front st ctx ts t
  | some recs => Mirrors ctx₀ front { st with ctx := st.ctx.call (.recordGet recs) } ctx ts t

theorem hwtCtxPollRecords_mirrors (h : Mirrors ctx₀ front st ctx ts t) (maxrecords : Nat) :
    trail.Safe t (Session.hwtCtxPollRecords ctx maxrecords) fun polled t' =>
      MirrorsPoll ctx₀ front st ctx ts t' polled := by
  unfold Session.hwtCtxPollRecords onDevice
  cases ctx.ctxFd with
  | none => exact .pure h
  | some fd =>
      refine trail_bind fun (ans : Option (List BsdtraceRecord)) => .pure ?_
      cases ans with
      | none =>
          have hsame : t.next (.recordGet fd (min maxrecords 1024)) (none : Option (List BsdtraceRecord)) = t := by
            simp [Trail.next, contextCalls, decodedSections]
          exact hsame.symm ▸ h
      | some entries => exact h.call (.recordGet (entries.map recordOfEntry))

/-- A poll and its records are a batch of the model. -/
theorem emitPolled_mirrors {recs : List BsdtraceRecord} (h : MirrorsPoll ctx₀ front st ctx ts t (some recs))
    (hdevice : ctx₀.ctxFd.isSome = true) (fmt : BsdtraceFmt) (pauseOnMmap : Bool) :
    trail.Safe t (emitRecords file fmt pauseOnMmap (ctx, ts) recs) fun out t' => ∃ batch : Batch,
      batch.map (·.record) = recs ∧ Mirrors ctx₀ front (emitBatch pauseOnMmap st batch) out.1 out.2 t' := by
  refine (emitRecords_mirrors h hdevice fmt pauseOnMmap recs).mono ?_
  rintro out t' ⟨batch, rfl, h'⟩
  exact ⟨batch, rfl, h'⟩

/-! ## The polling loops -/

/-- The session has made these polls of the loop. -/
def PollingAs (ctx₀ : HwtCtx) (front : List ContextCall) (pauseOnMmap : Bool) (st₀ : DrainState) (ctx : HwtCtx)
    (ts : TraceState) (t : Trail) : Prop :=
  ∃ polls, Mirrors ctx₀ front (pollingLoop pauseOnMmap st₀ polls) ctx ts t

variable {st₀ : DrainState}

/-- A poll of the loop, and what is done with its records. -/
theorem PollState.emit_trail {opts : SessionOpts} {poll : PollState} {recs : List BsdtraceRecord} {polls : List Batch}
    (h : MirrorsPoll ctx₀ front (pollingLoop opts.pauseOnMmap st₀ polls) poll.ctx poll.ts t (some recs))
    (hdevice : ctx₀.ctxFd.isSome = true) :
    trail.Safe t (poll.emit file opts recs) fun poll' t' =>
      PollingAs ctx₀ front opts.pauseOnMmap st₀ poll'.ctx poll'.ts t' := by
  refine (emitPolled_mirrors h hdevice opts.fmt opts.pauseOnMmap).bind ?_
  rintro ⟨ctx', ts'⟩ t' ⟨batch, -, h'⟩
  refine .pure ⟨polls ++ [batch], ?_⟩
  rwa [pollingLoop, List.foldl_append]

@[simp] theorem PollState.drain_ts (st : PollState) (gone : Bool) (nrecs : Nat) :
    (st.drain gone nrecs).1.ts = st.ts := by
  unfold PollState.drain
  split
  · split <;> rfl
  · rfl

theorem untraced_of_quiet {c : SysCall} (h : c.quiet) : c.untraced := by
  cases c with
  | recordGet | openDevice | wakeup | stop | decodePtInsn => exact h.elim
  | _ => trivial

theorem trail_of_quiet {p : Prog sys α} (h : p.All SysCall.quiet) : trail.Safe t p fun _ t' => t' = t :=
  trail_of_untraced (h.imp fun _ => untraced_of_quiet)

theorem traceTurn_trail {opts : SessionOpts} (hdevice : ctx₀.ctxFd.isSome = true) (pid : Int32) (start : Nat)
    {st : TraceLoop} (h : PollingAs ctx₀ front opts.pauseOnMmap st₀ st.poll.ctx st.poll.ts t) :
    trail.Safe t (traceTurn opts file pid start st) fun out t' =>
      out.elim (fun st' => PollingAs ctx₀ front opts.pauseOnMmap st₀ st'.poll.ctx st'.poll.ts t')
        fun st' => PollingAs ctx₀ front opts.pauseOnMmap st₀ st'.poll.ctx st'.poll.ts t' := by
  refine trail_invoke trivial fun (interrupted : Bool) => ?_
  cases interrupted with
  | true => exact .pure h
  | false =>
      refine (trail_of_quiet (TraceLoop.expired_quiet st opts start)).bind fun expired _ ht => ?_
      subst ht
      cases expired with
      | true => exact .pure h
      | false =>
          simp only [Bool.false_eq_true, if_false]
          split
          · exact .pure h
          refine (trail_of_quiet (TraceLoop.checkTarget_quiet st pid)).bind fun gone _ ht => ?_
          subst ht
          obtain ⟨polls, hpolls⟩ := h
          refine (hwtCtxPollRecords_mirrors hpolls pollMaxRecords).bind fun polled t' hpolled => ?_
          cases polled with
          | none => exact .pure ⟨polls, hpolled⟩
          | some recs =>
              refine (PollState.emit_trail hpolled hdevice).bind fun poll _ h' => ?_
              split
              · exact .pure (by simpa using h')
              · exact trail_invoke trivial fun _ => .pure (by simpa using h')

/-- The loop of `trace` makes the polls of the model, and so does that of `exec`. -/
theorem traceLoop_trail {opts : SessionOpts} (hdevice : ctx₀.ctxFd.isSome = true) (pid : Int32) (start : Nat)
    {st : TraceLoop} (h : PollingAs ctx₀ front opts.pauseOnMmap st₀ st.poll.ctx st.poll.ts t) :
    trail.Safe t (.iterate (traceTurn opts file pid start) st) fun st' t' =>
      PollingAs ctx₀ front opts.pauseOnMmap st₀ st'.poll.ctx st'.poll.ts t' :=
  Protocol.Safe.iterate (P := trail)
    (fun (st : TraceLoop) t => PollingAs ctx₀ front opts.pauseOnMmap st₀ st.poll.ctx st.poll.ts t) h fun _ _ h =>
    traceTurn_trail hdevice pid start h

theorem execTurn_trail {opts : SessionOpts} (hdevice : ctx₀.ctxFd.isSome = true) (child : Int32) (start : Nat)
    {st : ExecLoop} (h : PollingAs ctx₀ front opts.pauseOnMmap st₀ st.poll.ctx st.poll.ts t) :
    trail.Safe t (execTurn opts file child start st) fun out t' =>
      out.elim (fun st' => PollingAs ctx₀ front opts.pauseOnMmap st₀ st'.poll.ctx st'.poll.ts t')
        fun st' => PollingAs ctx₀ front opts.pauseOnMmap st₀ st'.poll.ctx st'.poll.ts t' := by
  refine trail_invoke trivial fun (now : Nat) => ?_
  split
  · exact trail_invoke trivial fun _ => .pure h
  refine trail_invoke trivial fun (answer : WaitAnswer) => ?_
  have hpoll : (st.checkChild answer).poll = st.poll := by cases answer <;> rfl
  rw [← hpoll] at h
  obtain ⟨polls, hpolls⟩ := h
  refine (hwtCtxPollRecords_mirrors hpolls pollMaxRecords).bind fun polled t' hpolled => ?_
  cases polled with
  | none =>
      dsimp only
      split
      · exact .pure ⟨polls, hpolled⟩
      · exact trail_invoke (c := .kill child .kill) trivial fun _ =>
          trail_invoke (c := .waitpid child .block) trivial fun _ => .pure ⟨polls, hpolled⟩
  | some recs =>
      refine (PollState.emit_trail hpolled hdevice).bind fun poll _ h' => ?_
      dsimp only
      split
      · exact .pure (by simpa using h')
      · exact trail_invoke trivial fun _ => .pure (by simpa using h')

theorem execLoop_trail {opts : SessionOpts} (hdevice : ctx₀.ctxFd.isSome = true) (child : Int32) (start : Nat)
    {st : ExecLoop} (h : PollingAs ctx₀ front opts.pauseOnMmap st₀ st.poll.ctx st.poll.ts t) :
    trail.Safe t (.iterate (execTurn opts file child start) st) fun st' t' =>
      PollingAs ctx₀ front opts.pauseOnMmap st₀ st'.poll.ctx st'.poll.ts t' :=
  Protocol.Safe.iterate (P := trail)
    (fun (st : ExecLoop) t => PollingAs ctx₀ front opts.pauseOnMmap st₀ st.poll.ctx st.poll.ts t) h fun _ _ h =>
    execTurn_trail hdevice child start h

/-! ## The drain behind the stop -/

theorem processRecords_mirrors (h : Mirrors ctx₀ front st ctx ts t) (recs : List BsdtraceRecord) :
    trail.Safe t (processRecords file ts recs) fun ts' t' => Mirrors ctx₀ front
      ((recs.map (⟨·, true⟩ : BsdtraceRecord → PolledRecord)).foldl
        (fun st p => { st with ts := Trace.traceStateProcess st.ts p.record }) st) ctx ts' t' := by
  induction recs generalizing st ts t with
  | nil => exact .pure h
  | cons rec recs ih =>
      unfold processRecords
      rw [List.foldlM_cons]
      refine (traceStateProcess_trail file ts rec).bind ?_
      rintro _ _ ⟨rfl, rfl⟩
      exact ih (h.process rec)

/-- The session has made these polls of the drain behind the stop, which began in `st₀`. -/
def PostStopAs (ctx₀ : HwtCtx) (front : List ContextCall) (st₀ : DrainState) (ctx : HwtCtx) (ps : PostStop)
    (t : Trail) : Prop :=
  ∃ polls st, Mirrors ctx₀ front st ctx ps.ts t ∧
    ∀ more, Trace.traceStateDrainPostStop st₀ 0 (polls ++ more) = Trace.traceStateDrainPostStop st ps.emptyPolls more

/-- A poll that gives a batch, when the drain still goes on. -/
theorem PostStopAs.poll (batch : Batch) {ps : PostStop} {polls : List (Option Batch)}
    (hdrain : ∀ more, Trace.traceStateDrainPostStop st₀ 0 (polls ++ more) =
      Trace.traceStateDrainPostStop st ps.emptyPolls more)
    (hgoes : ¬ postStopEmptyPolls ≤ ps.emptyPolls) {ps' : PostStop}
    (hps : ps'.emptyPolls = if batch = [] then ps.emptyPolls + 1 else 0)
    (h : Mirrors ctx₀ front (batch.foldl (fun st p => { st with ts := Trace.traceStateProcess st.ts p.record })
      { st with ctx := Trace.hwtCtxPollRecords st.ctx batch }) ctx ps'.ts t) :
    PostStopAs ctx₀ front st₀ ctx ps' t := by
  refine ⟨polls ++ [some batch], _, h, fun more => ?_⟩
  rw [List.append_assoc, List.singleton_append, hdrain, Trace.traceStateDrainPostStop, if_neg hgoes, hps]
  by_cases hempty : batch = []
  · subst hempty
    rfl
  · rw [if_neg hempty, if_neg hempty]

theorem traceStateDrainPostStop_mirrors (h : Mirrors ctx₀ front st₀ ctx ts t) :
    trail.Safe t (Session.traceStateDrainPostStop ctx file ts) fun ps t' => ∃ polls,
      Mirrors ctx₀ front (Trace.traceStateDrainPostStop st₀ 0 polls) ctx ps.ts t' := by
  have hleave : ∀ {ps : PostStop} {t : Trail}, PostStopAs ctx₀ front st₀ ctx ps t →
      ∃ polls, Mirrors ctx₀ front (Trace.traceStateDrainPostStop st₀ 0 polls) ctx ps.ts t := by
    rintro ps t ⟨polls, st, h, hdrain⟩
    exact ⟨polls, by rwa [← List.append_nil polls, hdrain]⟩
  refine Protocol.Safe.iterate (P := trail) (PostStopAs ctx₀ front st₀ ctx) ⟨[], st₀, h, fun _ => rfl⟩ ?_
  intro ps t hps
  unfold postStopTurn
  split
  · exact .pure (hleave hps)
  rename_i hgoes
  obtain ⟨polls, st, h, hdrain⟩ := hps
  refine (hwtCtxPollRecords_mirrors h pollMaxRecords).bind fun polled t' hpolled => ?_
  cases polled with
  | none => exact .pure (hleave ⟨polls, st, hpolled, hdrain⟩)
  | some recs =>
      have hbatch : (recs.map (⟨·, true⟩ : BsdtraceRecord → PolledRecord)).map (·.record) = recs := by
        rw [List.map_map]
        exact List.map_id recs
      have hctx : st.ctx.call (.recordGet recs) = Trace.hwtCtxPollRecords st.ctx (recs.map (⟨·, true⟩)) := by
        rw [Trace.hwtCtxPollRecords, hbatch]
      rw [MirrorsPoll, hctx] at hpolled
      cases recs with
      | nil => exact trail_invoke trivial fun _ => .pure (PostStopAs.poll [] hdrain hgoes rfl hpolled)
      | cons rec recs =>
          refine (processRecords_mirrors hpolled (rec :: recs)).bind fun ts' t'' h' => .pure ?_
          exact PostStopAs.poll _ hdrain hgoes rfl h'

/-!
## The calls of a run

The calls on the context, among all calls of a session.
-/

variable {events : List SysEvent}

theorem after_trail (t : Trail) (events : List SysEvent) :
    trail.after t events = ⟨t.calls ++ calledOn events, t.decoded ++ decodedIn events⟩ := by
  induction events generalizing t with
  | nil => simp [Protocol.after, calledOn, decodedIn]
  | cons e events ih => simp [Protocol.after, ih, Trail.next, calledOn, decodedIn]

theorem contextCall_taken (ident : Int32) (c : HwtCall) : (contextCall ident c).taken = c.taken := by
  cases c <;> rfl

/-- A call is on the context, or it hands over nothing, wakes nobody and stops nothing. -/
theorem contextCalls_cases (e : SysEvent) :
    (contextCalls e.call e.answer = [] ∧ handedOver e = [] ∧ e.call.wakes = false ∧ e.call.stops = false) ∨
      ∃ c, contextCalls e.call e.answer = [c] ∧ c.taken = handedOver e ∧ (e.call.wakes = true ↔ c = .wakeup) ∧
        (e.call.stops = true ↔ c = .stop) := by
  obtain ⟨c, ans⟩ := e
  cases c with
  | recordGet fd n =>
      cases ans with
      | none => exact .inl ⟨rfl, rfl, rfl, rfl⟩
      | some entries =>
          refine .inr ⟨.recordGet (entries.map recordOfEntry), rfl, rfl, ?_, ?_⟩
          · simp [SysCall.wakes]
          · simp [SysCall.stops]
  | openDevice path => exact .inr ⟨.openDevice path, rfl, rfl, by simp [SysCall.wakes], by simp [SysCall.stops]⟩
  | wakeup fd => exact .inr ⟨.wakeup, rfl, rfl, by simp [SysCall.wakes], by simp [SysCall.stops]⟩
  | stop fd => exact .inr ⟨.stop, rfl, rfl, by simp [SysCall.wakes], by simp [SysCall.stops]⟩
  | _ => exact .inl ⟨rfl, rfl, rfl, rfl⟩

theorem calledOn_cons (e : SysEvent) (events : List SysEvent) :
    calledOn (e :: events) = contextCalls e.call e.answer ++ calledOn events := rfl

theorem calledOn_taken (events : List SysEvent) :
    (calledOn events).flatMap ContextCall.taken = events.flatMap handedOver := by
  induction events with
  | nil => rfl
  | cons e events ih =>
      rw [calledOn_cons, List.flatMap_append, ih, List.flatMap_cons]
      rcases contextCalls_cases e with ⟨hcalls, htaken, -⟩ | ⟨c, hcalls, htaken, -⟩
      · rw [hcalls, htaken, List.flatMap_nil]
      · rw [hcalls, ← htaken, List.flatMap_singleton]

theorem Trail.Untraced.taken {t : Trail} (h : t.Untraced) : t.calls.flatMap ContextCall.taken = [] := by
  refine List.flatMap_eq_nil_iff.mpr fun c hc => ?_
  cases c with
  | recordGet records => exact absurd hc (h.calls records)
  | _ => rfl

theorem taken_openDevice (paths : List CString) :
    (paths.map ContextCall.openDevice).flatMap ContextCall.taken = [] :=
  List.flatMap_eq_nil_iff.mpr fun c hc => by
    obtain ⟨path, -, rfl⟩ := List.mem_map.mp hc
    rfl

theorem DrainsAs.taken {opts : SessionOpts} {t : Trail} {ident : Int32} {s : DrainSession} {run : TraceSession}
    (h : DrainsAs opts t ident s run) : t.calls.flatMap ContextCall.taken = run.records := by
  obtain ⟨paths, hcalls⟩ := h.calls
  have hmap : (s.run.ctx.calls.map (contextCall ident)).flatMap ContextCall.taken =
      s.run.ctx.calls.flatMap HwtCall.taken := by
    rw [List.flatMap_map]
    exact congrArg (s.run.ctx.calls.flatMap ·) (funext (contextCall_taken ident))
  rw [hcalls, List.flatMap_append, List.flatMap_append, taken_openDevice, hmap, s.run_taken, h.records]
  exact List.append_nil run.records

/-! ## Wakeups -/

section

variable {α β : Type} {taken : α → List BsdtraceRecord} {wakes : α → Prop} {calls more : List α} {c : α}

theorem wakes_cons : Wakes taken wakes (c :: calls) ↔
    (∀ rec ∈ taken c, rec.pausesTarget = true → ∃ c' ∈ calls, wakes c') ∧ Wakes taken wakes calls :=
  forall_split_cons (P := fun c back => ∀ rec ∈ taken c, rec.pausesTarget = true → ∃ c' ∈ back, wakes c')

theorem wakes_nil : Wakes taken wakes [] := by
  intro front c back he
  simp at he

/-- Calls in front that take nothing change nothing. -/
theorem wakes_append (h : ∀ c ∈ calls, taken c = []) : Wakes taken wakes (calls ++ more) ↔ Wakes taken wakes more := by
  induction calls with
  | nil => rfl
  | cons c calls ih =>
      obtain ⟨hc, hcalls⟩ := List.forall_mem_cons.mp h
      rw [List.cons_append, wakes_cons, ih hcalls, hc]
      simp

/-- A last call that wakes nobody changes nothing. -/
theorem wakes_concat (htaken : taken c = []) (hwakes : ¬ wakes c) :
    Wakes taken wakes (calls ++ [c]) ↔ Wakes taken wakes calls := by
  induction calls with
  | nil => exact ⟨fun _ => wakes_nil, fun _ => by rw [List.nil_append, wakes_cons, htaken]; exact ⟨nofun, wakes_nil⟩⟩
  | cons d calls ih => simp only [List.cons_append, wakes_cons, ih, List.mem_append, List.mem_singleton, or_and_right,
      exists_or, exists_eq_left, hwakes, or_false]

theorem wakes_map {f : β → α} {taken' : β → List BsdtraceRecord} {wakes' : β → Prop} (calls : List β)
    (htaken : ∀ c, taken (f c) = taken' c) (hwakes : ∀ c, wakes (f c) ↔ wakes' c) :
    Wakes taken wakes (calls.map f) ↔ Wakes taken' wakes' calls := by
  induction calls with
  | nil => exact ⟨fun _ => wakes_nil, fun _ => wakes_nil⟩
  | cons c calls ih =>
      have hback : (∃ c' ∈ calls.map f, wakes c') ↔ ∃ c' ∈ calls, wakes' c' := by simp [hwakes]
      rw [List.map_cons, wakes_cons, wakes_cons, ih, htaken, hback]

end

theorem wakesTarget_iff (calls : List HwtCall) : WakesTarget calls ↔ Wakes HwtCall.taken (· = .wakeup) calls := by
  constructor
  · intro h front c back he rec hrec hpauses
    cases c with
    | recordGet records => exact ⟨_, h front records back he rec hrec hpauses, rfl⟩
    | _ => cases hrec
  · intro h pre records post he rec hrec hpauses
    obtain ⟨_, hmem, rfl⟩ := h pre (.recordGet records) post he rec hrec hpauses
    exact hmem

theorem wakeup_mem_calledOn (events : List SysEvent) :
    (∃ c ∈ calledOn events, c = .wakeup) ↔ ∃ e ∈ events, e.call.wakes = true := by
  simp only [exists_eq_right]
  induction events with
  | nil => simp [calledOn]
  | cons e events ih =>
      rw [calledOn_cons, List.mem_append, ih]
      simp only [List.mem_cons, or_and_right, exists_or, exists_eq_left]
      refine or_congr ?_ Iff.rfl
      rcases contextCalls_cases e with ⟨hcalls, -, hwakes, -⟩ | ⟨c, hcalls, -, hwakes, -⟩
      · simp [hcalls, hwakes]
      · rw [hcalls, List.mem_singleton, hwakes, eq_comm]

theorem wakes_calledOn (events : List SysEvent) :
    Wakes ContextCall.taken (· = .wakeup) (calledOn events) ↔ Wakes handedOver (·.call.wakes = true) events := by
  induction events with
  | nil => exact ⟨fun _ => wakes_nil, fun _ => wakes_nil⟩
  | cons e events ih =>
      rw [calledOn_cons, wakes_cons (c := e), ← wakeup_mem_calledOn, ← ih]
      rcases contextCalls_cases e with ⟨hcalls, htaken, -⟩ | ⟨c, hcalls, htaken, -⟩
      · rw [hcalls, htaken, List.nil_append]
        simp
      · rw [hcalls, List.singleton_append, wakes_cons, htaken]

theorem calledOn_late (events : List SysEvent) :
    ((calledOn events).dropWhile (· ≠ .stop)).flatMap ContextCall.taken = handedOverLate events := by
  induction events with
  | nil => rfl
  | cons e events ih =>
      rw [calledOn_cons, handedOverLate]
      rcases contextCalls_cases e with ⟨hcalls, -, -, hstops⟩ | ⟨c, hcalls, htaken, -, hstops⟩
      · rw [hcalls, List.nil_append, List.dropWhile_cons_of_pos (by rw [hstops]; rfl), ih]
        rfl
      · rw [hcalls, List.singleton_append]
        by_cases hc : c = .stop
        · rw [List.dropWhile_cons_of_neg (by simp [hc]), List.dropWhile_cons_of_neg (by simp [hstops.mpr hc]),
            List.flatMap_cons, List.flatMap_cons, htaken, calledOn_taken]
        · have hnot : e.call.stops = false := eq_false_of_ne_true (mt hstops.mp hc)
          rw [List.dropWhile_cons_of_pos (by simpa using hc), List.dropWhile_cons_of_pos (by rw [hnot]; rfl), ih]
          rfl

theorem contextCall_stop {ident : Int32} {c : HwtCall} : contextCall ident c = .stop ↔ c = .stop := by
  cases c <;> simp [contextCall]

theorem contextCall_wakeup {ident : Int32} {c : HwtCall} : contextCall ident c = .wakeup ↔ c = .wakeup := by
  cases c <;> simp [contextCall]

/-- What the drains hand over behind the stop. -/
theorem DrainsAs.late {opts : SessionOpts} {t : Trail} {ident : Int32} {s : DrainSession} {run : TraceSession}
    (h : DrainsAs opts t ident s run) :
    (t.calls.dropWhile (· ≠ .stop)).flatMap ContextCall.taken =
      (postStopBatches 0 s.postStopPolls).flatten.map (·.record) := by
  obtain ⟨paths, hcalls⟩ := h.calls
  have hfront : ∀ c ∈ paths.map ContextCall.openDevice ++ s.beforeStop.ctx.calls.map (contextCall ident),
      decide (c ≠ .stop) = true := by
    intro c hc
    refine decide_eq_true fun hstop => ?_
    rcases List.mem_append.mp hc with hc | hc
    · obtain ⟨path, -, rfl⟩ := List.mem_map.mp hc
      cases hstop
    · obtain ⟨c', hc', rfl⟩ := List.mem_map.mp hc
      exact s.beforeStop_takes.2 (contextCall_stop.mp hstop ▸ hc')
  have hback : ∀ batches : List Batch, ((batches.map fun batch => HwtCall.recordGet (batch.map (·.record))).map
      (contextCall ident)).flatMap ContextCall.taken = batches.flatten.map (·.record) := fun batches => by
    rw [List.map_map, List.flatMap_map, List.map_flatten]
    rfl
  rw [hcalls, s.run_calls, List.map_append, List.map_cons, ← List.append_assoc, List.append_assoc,
    List.dropWhile_append_of_pos hfront, List.cons_append, List.dropWhile_cons_of_neg (by simp [contextCall]),
    List.flatMap_cons, List.flatMap_append, hback]
  exact List.append_nil _

/-- The drains wake the target as they do in their model. -/
theorem DrainsAs.wakes_iff {opts : SessionOpts} {t : Trail} {ident : Int32} {s : DrainSession} {run : TraceSession}
    (h : DrainsAs opts t ident s run) :
    Wakes ContextCall.taken (· = .wakeup) t.calls ↔ WakesTarget s.run.ctx.calls := by
  obtain ⟨paths, hcalls⟩ := h.calls
  have hopens : ∀ c ∈ paths.map ContextCall.openDevice, c.taken = [] := by
    intro c hc
    obtain ⟨path, -, rfl⟩ := List.mem_map.mp hc
    rfl
  rw [hcalls, wakes_concat rfl (by simp), wakes_append hopens, wakesTarget_iff]
  exact wakes_map s.run.ctx.calls (contextCall_taken ident) fun _ => contextCall_wakeup

end ObservableBSD.Trace.Session
