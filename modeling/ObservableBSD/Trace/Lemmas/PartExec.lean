import ObservableBSD.Trace.Lemmas.Exec
import ObservableBSD.Trace.Lemmas.PartSession

/-!
# The loop of a session of `exec`

Each turn of the loop is a round of the model, in which the kernel's answers are the observations.
-/

namespace ObservableBSD.Trace.Session

open Base Decode Elf

variable {α : Type} {l : ChildLog} {post : α → ChildLog → Prop} {st : ExecLoop} {m : ExecState} {opts : SessionOpts}
  {file : Option Nat}

/-! ## Rules -/

theorem child_bind {c : SysCall} {f : c.Answer → Prog sys α}
    (h : ∀ ans, l.Answers c ans → childLog.Safe (l.next c ans) (f ans) post) :
    childLog.Safe l (invoke c >>= f) post :=
  Protocol.Safe.call (P := childLog) (c := c) trivial h

/-- A call that has nothing to do with the child, and is no poll. -/
def SysCall.childless : SysCall → Prop
  | .start _ | .kill .. | .waitpid .. | .recordGet .. => False
  | _ => True

theorem next_of_childless {c : SysCall} (h : c.childless) (ans : c.Answer) : l.next c ans = l := by
  cases c with
  | start | kill | waitpid | recordGet => exact h.elim
  | _ => rfl

theorem child_of_childless {p : Prog sys α} (h : p.All SysCall.childless) : childLog.Safe l p fun _ l' => l' = l :=
  Protocol.Safe.of_all (P := childLog) (fun _ hc => ⟨trivial, next_of_childless hc⟩) h

theorem child_invoke {c : SysCall} {f : c.Answer → Prog sys α} (hc : c.childless)
    (h : ∀ ans, childLog.Safe l (f ans) post) : childLog.Safe l (invoke c >>= f) post :=
  child_bind fun ans _ => (next_of_childless hc ans).symm ▸ h ans

/-! ## The child -/

theorem ChildLog.reaped_add {c : ExecCall} (h : ∀ status, c ≠ .reap status) : (l.add c).Reaped ↔ l.Reaped := by
  simp only [ChildLog.Reaped, ChildLog.add, List.mem_append, List.mem_singleton, exists_or]
  exact or_iff_left fun ⟨status, heq⟩ => h status heq.symm

/-- A call that reaps nobody is logged. -/
theorem LoopMirrors.add (h : LoopMirrors l st m) {c : ExecCall} (hc : ∀ status, c ≠ .reap status) :
    LoopMirrors (l.add c) st { m with calls := m.calls ++ [c] } :=
  { h with
    started := h.started
    calls := congrArg (· ++ [c]) h.calls
    reaped := (ChildLog.reaped_add hc).trans h.reaped }

/-- A `waitpid` that gives a status reaps the child, in the model too. -/
theorem LoopMirrors.reap (h : LoopMirrors l st m) (hnot : ¬ l.Reaped) (status : WaitStatus) :
    (m.waitpid status).1 = some status ∧ LoopMirrors (l.add (.reap status)) st (m.waitpid status).2 := by
  have hfresh : m.reaped = false := eq_false_of_ne_true (mt h.reaped.mpr hnot)
  rw [ExecState.waitpid, if_neg (by rw [hfresh]; decide)]
  refine ⟨rfl, { h with started := h.started, calls := ?_, reaped := ?_ }⟩
  · exact congrArg (· ++ [.reap status]) h.calls
  · exact ⟨fun _ => rfl, fun _ => ⟨status, by simp [ChildLog.add]⟩⟩

/-- A `waitpid` that blocks gives the status that it is to give in the model. -/
theorem LoopMirrors.await (h : LoopMirrors l st m) (pid : Int32) (ans : WaitAnswer)
    (hans : l.Answers (.waitpid pid .block) ans) :
    ∃ awaited, (m.waitpid awaited).1 = (match ans with
        | .exited status => some status
        | _ => none) ∧
      LoopMirrors (l.next (.waitpid pid .block) ans) st (m.waitpid awaited).2 := by
  have hgone : l.Reaped → ∀ awaited, m.waitpid awaited = (none, m) := fun hreaped awaited => by
    rw [ExecState.waitpid, if_pos (h.reaped.mp hreaped)]
  cases ans with
  | exited status => exact ⟨status, h.reap hans status⟩
  | error | nothing | stopped =>
      refine ⟨.exited 0, ?_⟩
      rw [hgone (hans rfl)]
      exact ⟨rfl, h⟩

theorem LoopMirrors.checkChild (h : LoopMirrors l st m) (pid : Int32) (ans : WaitAnswer)
    (hans : l.Answers (.waitpid pid .nohang) ans) :
    ∃ exited, LoopMirrors (l.next (.waitpid pid .nohang) ans) (st.checkChild ans) (m.checkChild exited) := by
  cases ans with
  | exited status =>
      obtain ⟨hsome, hmirrors⟩ := h.reap hans status
      refine ⟨some status, ?_⟩
      simp only [ExecState.checkChild, hsome]
      exact { hmirrors with childDone := rfl, exitcode := rfl }
  | error | nothing | stopped => exact ⟨none, h⟩

theorem pollError_mirrors (h : LoopMirrors l st m) (child : Int32) :
    childLog.Safe l (pollError st child) fun st' l' => ∃ awaited, LoopMirrors l' st' (m.pollError awaited) := by
  refine child_bind (c := .kill child .kill) fun _ _ => child_bind fun (ans : WaitAnswer) hans => .pure ?_
  have hkilled : LoopMirrors (l.add .kill) st m.kill := h.add (by simp)
  obtain ⟨awaited, hgives, hmirrors⟩ := hkilled.await child ans hans
  refine ⟨awaited, ?_⟩
  simp only [ExecState.pollError, hgives]
  refine { hmirrors with childDone := rfl, exitcode := ?_ }
  rcases ans with _ | _ | _ | status
  · rfl
  · rfl
  · rfl
  · cases status <;> rfl

/-! ## Records -/

theorem hwtCtxOpenThread_keeps (ctx : HwtCtx) (threadId : Int32) :
    (Session.hwtCtxOpenThread ctx threadId).Results (KeepsDevice ctx) := by
  unfold Session.hwtCtxOpenThread
  split
  · exact .pure rfl
  split
  · exact .pure rfl
  exact (Prog.Results.any _).bind fun (fd : Option Fd) _ => by cases fd <;> exact .pure rfl

theorem emitAndProcess_keeps (file : Option Nat) (fmt : BsdtraceFmt) (pauseOnMmap : Bool) (st : HwtCtx × TraceState)
    (rec : BsdtraceRecord) :
    (Session.emitAndProcess file fmt pauseOnMmap st rec).Results fun st' => KeepsDevice st.1 st'.1 := by
  have hopen : (openWanted st.1 rec).Results (KeepsDevice st.1) := by
    unfold openWanted
    split
    · exact hwtCtxOpenThread_keeps st.1 rec.threadId
    · exact .pure rfl
  refine (Prog.Results.any _).bind fun _ _ => (Prog.Results.any _).bind fun _ _ => ?_
  exact hopen.bind fun ctx hctx => (Prog.Results.any _).bind fun _ _ => .pure hctx

theorem emitRecords_keeps (file : Option Nat) (fmt : BsdtraceFmt) (pauseOnMmap : Bool) (st : HwtCtx × TraceState)
    (recs : List BsdtraceRecord) :
    (emitRecords file fmt pauseOnMmap st recs).Results fun st' => KeepsDevice st.1 st'.1 := by
  induction recs generalizing st with
  | nil => exact .pure rfl
  | cons rec recs ih =>
      unfold emitRecords
      rw [List.foldlM_cons]
      refine (emitAndProcess_keeps file fmt pauseOnMmap st rec).bind fun st' hst' => ?_
      exact fun events st'' hruns => (ih st' events st'' hruns).trans hst'

theorem traceStateProcess_childless (file : Option Nat) (ts : TraceState) (rec : BsdtraceRecord) :
    (Session.traceStateProcess file ts rec).All SysCall.childless :=
  (metaWrite_all (fun _ _ => trivial) file _).bind fun _ => trivial

theorem emitRecords_childless (file : Option Nat) (fmt : BsdtraceFmt) (pauseOnMmap : Bool) (st : HwtCtx × TraceState)
    (recs : List BsdtraceRecord) : (emitRecords file fmt pauseOnMmap st recs).All SysCall.childless := by
  induction recs generalizing st with
  | nil => trivial
  | cons rec recs ih =>
      unfold emitRecords
      rw [List.foldlM_cons]
      have hrec : (Session.emitAndProcess file fmt pauseOnMmap st rec).All SysCall.childless := by
        refine (printRecord_all (fun _ _ => trivial) fmt rec).bind fun _ => ?_
        refine (wakeTarget_all (fun _ => trivial) st.1 pauseOnMmap rec).bind fun _ => ?_
        refine (openWanted_all (fun _ => trivial) st.1 rec).bind fun _ => ?_
        exact (traceStateProcess_childless file st.2 rec).bind fun _ => trivial
      exact hrec.bind ih

/-- The records of a poll are counted, and the child is left alone. -/
theorem PollState.emit_mirrors {recs : List BsdtraceRecord} (h : LoopMirrors l st m) :
    childLog.Safe l (st.poll.emit file opts recs) fun poll l' => LoopMirrors l' { st with poll } (m.emit recs) := by
  refine ((child_of_childless (emitRecords_childless ..)).results
    (emitRecords_keeps file opts.fmt opts.pauseOnMmap (st.poll.ctx, st.poll.ts) recs)).bind ?_
  rintro ⟨ctx, ts⟩ _ ⟨rfl, hkeeps⟩
  refine .pure { h with device := ?_, totalrecords := ?_ }
  · exact (congrArg Option.isSome hkeeps).trans h.device
  · exact congrArg (· + recs.length) h.totalrecords

/-- What a turn does when it leaves the loop, or goes on. -/
def TurnMirrors (l : ChildLog) (m : ExecState × Bool) : ExecLoop ⊕ ExecLoop → Prop
  | .inl st => m.2 = false ∧ LoopMirrors l st m.1
  | .inr st => m.2 = true ∧ LoopMirrors l st m.1

theorem PollState.drain_mirrors (h : LoopMirrors l st m) {gone : Bool} (hgone : gone = m.childDone) (nrecs : Nat) :
    (st.poll.drain gone nrecs).2 = (m.drain nrecs).2 ∧
      LoopMirrors l { st with poll := (st.poll.drain gone nrecs).1 } (m.drain nrecs).1 := by
  subst hgone
  unfold PollState.drain ExecState.drain
  rw [h.emptyDrains]
  split
  · split
    · exact ⟨rfl, { h with emptyDrains := rfl }⟩
    · exact ⟨rfl, { h with emptyDrains := rfl }⟩
  · exact ⟨rfl, h⟩

/-! ## Turns -/

/-- The rest of a round, behind the look at the child. -/
def drainRound (m : ExecState) (poll : Option (List BsdtraceRecord)) (awaited : WaitStatus) : ExecState × Bool :=
  match poll with
  | none =>
      let m := { m with calls := m.calls ++ [.pollFailed] }
      if m.childDone then (m, true) else (m.pollError awaited, true)
  | some records => (m.emit records).drain records.length

theorem execDrain_mirrors (h : LoopMirrors l st m) (child : Int32) :
    childLog.Safe l (execDrain opts file child st) fun out l' =>
      ∃ poll awaited, TurnMirrors l' (drainRound m poll awaited) out := by
  obtain ⟨fd, hfd⟩ := Option.isSome_iff_exists.mp h.device
  have hpoll : childLog.Safe l (Session.hwtCtxPollRecords st.poll.ctx pollMaxRecords) fun polled l' =>
      l' = polled.elim (l.add .pollFailed) fun _ => l := by
    unfold Session.hwtCtxPollRecords onDevice
    rw [hfd]
    exact child_bind fun (ans : Option (List BsdtraceRecord)) _ => .pure (by cases ans <;> rfl)
  unfold execDrain
  refine hpoll.bind fun polled l' hl => ?_
  subst hl
  cases polled with
  | none =>
      have hfailed : LoopMirrors (l.add .pollFailed) st { m with calls := m.calls ++ [.pollFailed] } := h.add (by simp)
      dsimp only [Option.elim_none]
      split
      · rename_i hdone
        refine .pure ⟨none, .exited 0, ?_⟩
        rw [drainRound, if_pos (h.childDone ▸ hdone)]
        exact ⟨rfl, hfailed⟩
      · rename_i hdone
        refine (pollError_mirrors hfailed child).bind ?_
        rintro st' l' ⟨awaited, hmirrors⟩
        refine .pure ⟨none, awaited, ?_⟩
        rw [drainRound, if_neg (h.childDone ▸ hdone)]
        exact ⟨rfl, hmirrors⟩
  | some recs =>
      refine (PollState.emit_mirrors h).bind fun poll l' hemit => ?_
      obtain ⟨hleft, hmirrors⟩ := PollState.drain_mirrors hemit h.childDone recs.length
      have hround : drainRound m (some recs) (.exited 0) = (m.emit recs).drain recs.length := rfl
      dsimp only at hleft ⊢
      split
      · rename_i hgo
        exact .pure ⟨some recs, .exited 0, hround ▸ ⟨hleft ▸ hgo, hmirrors⟩⟩
      · rename_i hgo
        refine child_invoke trivial fun _ => .pure ⟨some recs, .exited 0, hround ▸ ⟨?_, hmirrors⟩⟩
        rw [← hleft]
        exact eq_false_of_ne_true hgo

theorem execTurn_mirrors (h : LoopMirrors l st m) (child : Int32) (start : Nat) :
    childLog.Safe l (execTurn opts file child start st) fun out l' =>
      ∃ round, TurnMirrors l' (execRound opts.loopOpts m round) out := by
  refine child_invoke trivial fun (now : Nat) => ?_
  have hbound : ∀ round : ExecRound, round.elapsed = now - start →
      (boundReached opts.loopOpts round m = true ↔ (0 < opts.duration ∧ opts.duration ≤ now - start) ∨
        (0 < opts.maxrecords ∧ opts.maxrecords ≤ st.poll.totalrecords)) := by
    rintro round helapsed
    show ((0 < opts.duration && opts.duration ≤ round.elapsed) ||
      (0 < opts.maxrecords && opts.maxrecords ≤ m.totalrecords)) = true ↔ _
    simp [helapsed, h.totalrecords]
  split
  · rename_i hreached
    refine child_bind (c := .kill child .kill) fun _ _ => .pure ⟨⟨now - start, none, none, .exited 0⟩, ?_⟩
    rw [execRound, if_pos ((hbound _ rfl).mpr hreached)]
    exact ⟨rfl, h.add (by simp)⟩
  · rename_i hreached
    refine child_bind fun (answer : WaitAnswer) hanswer => ?_
    obtain ⟨exited, hmirrors⟩ := h.checkChild child answer hanswer
    refine (execDrain_mirrors hmirrors child).mono ?_
    rintro out l' ⟨poll, awaited, hturn⟩
    refine ⟨⟨now - start, exited, poll, awaited⟩, ?_⟩
    rw [execRound, if_neg (mt (hbound _ rfl).mp hreached)]
    exact hturn

/-- The loop of a session is that of the model, over the rounds that it meets. -/
theorem execLoop_mirrors {st : ExecLoop} (h : LoopMirrors l st {}) (child : Int32) (start : Nat) :
    childLog.Safe l (.iterate (execTurn opts file child start) st) fun st' l' =>
      ∃ rounds, (execLoop opts.loopOpts rounds).2 = true ∧ LoopMirrors l' st' (execLoop opts.loopOpts rounds).1 := by
  refine Protocol.Safe.iterate (P := childLog) (fun st' l' => ∃ rounds,
    (execLoop opts.loopOpts rounds).2 = false ∧ LoopMirrors l' st' (execLoop opts.loopOpts rounds).1)
    ⟨[], rfl, h⟩ ?_
  rintro st' l' ⟨rounds, hgoes, hmirrors⟩
  refine (execTurn_mirrors hmirrors child start).mono ?_
  rintro out l'' ⟨round, hturn⟩
  have hnext : execLoop opts.loopOpts (rounds ++ [round]) =
      execRound opts.loopOpts (execLoop opts.loopOpts rounds).1 round := by
    rw [execLoop_concat, execNext, if_neg (by rw [hgoes]; decide)]
  rw [← hnext] at hturn
  cases out with
  | inl st'' => exact ⟨rounds ++ [round], hturn⟩
  | inr st'' => exact ⟨rounds ++ [round], hturn⟩

theorem execReap_mirrors (h : LoopMirrors l st m) (hok : m.Ok) (child : Int32) :
    childLog.Safe l (Session.execReap st child) fun st' l' =>
      ∃ awaited, LoopMirrors l' st' (Trace.execReap m awaited) := by
  unfold Session.execReap
  split
  · rename_i hdone
    refine .pure ⟨.exited 0, ?_⟩
    rwa [Trace.execReap, if_pos (h.childDone ▸ hdone)]
  rename_i hdone
  have hdone' : m.childDone = false := eq_false_of_ne_true (h.childDone ▸ hdone)
  have hnot : ¬ l.Reaped := fun hreaped => by
    rw [h.reaped, hok.done, hdone'] at hreaped
    cases hreaped
  refine child_bind fun (ans : WaitAnswer) hans => ?_
  cases ans with
  | exited status =>
      refine .pure ⟨status, ?_⟩
      obtain ⟨hsome, hmirrors⟩ := h.reap hnot status
      rw [Trace.execReap, if_neg (by rw [hdone']; decide)]
      simp only [hsome]
      exact { hmirrors with exitcode := rfl }
  | error | nothing | stopped => exact absurd (hans rfl) hnot

/-! ## Tracing -/

/-- A call that neither starts tracing nor is about the child. -/
def SysCall.apart : SysCall → Prop
  | .start _ | .kill .. | .waitpid .. => False
  | _ => True

theorem apart_of_childless {c : SysCall} (h : c.childless) : c.apart := by
  cases c with
  | start | kill | waitpid => exact h.elim
  | _ => trivial

theorem apart_of_saves {sections : List PtImageInfo} {c : SysCall} (h : c.saves sections) : c.apart := by
  cases c with
  | start | kill | waitpid => exact h.elim
  | _ => trivial

theorem hwtCtxPollRecords_apart (ctx : HwtCtx) (maxrecords : Nat) :
    (Session.hwtCtxPollRecords ctx maxrecords).All SysCall.apart :=
  (onDevice_all fun fd => all_invoke (c := .recordGet fd (min maxrecords 1024)) trivial).bind fun _ => trivial

theorem traceStateDrainPostStop_apart (ctx : HwtCtx) (file : Option Nat) (ts : TraceState) :
    (Session.traceStateDrainPostStop ctx file ts).All SysCall.apart := by
  have hprocess : ∀ ts recs, (processRecords file ts recs).All SysCall.apart := by
    intro ts recs
    induction recs generalizing ts with
    | nil => trivial
    | cons rec recs ih =>
        unfold processRecords
        rw [List.foldlM_cons]
        exact ((traceStateProcess_childless file ts rec).imp fun _ => apart_of_childless).bind ih
  refine ⟨fun ps => ?_, fun _ => trivial⟩
  unfold postStopTurn
  split
  · trivial
  refine (hwtCtxPollRecords_apart ctx pollMaxRecords).bind fun polled => ?_
  rcases polled with _ | _ | ⟨rec, recs⟩
  · trivial
  · exact all_invoke_bind trivial fun _ => trivial
  · exact (hprocess ps.ts (rec :: recs)).bind fun _ => trivial

theorem traceFinalize_apart (host : Host) (ctx : HwtCtx) (ts : TraceState) (file : Option Nat) (out : CString)
    (fmt : BsdtraceFmt) (totalrecords : Nat) (dopts : PtDecodeOpts) :
    (traceFinalize host ctx ts file out fmt totalrecords dopts).All SysCall.apart := by
  refine (hwtCtxPollRecords_apart ctx pollMaxRecords).bind fun polled => ?_
  refine ((emitRecords_childless file fmt true (ctx, ts) _).imp fun _ => apart_of_childless).bind fun st => ?_
  refine (onDevice_all fun fd => all_invoke (c := .stop fd) trivial).bind fun _ => ?_
  refine (traceStateDrainPostStop_apart st.1 file st.2).bind fun drained => ?_
  refine (ensureKernel_all trivial st.1 drained.ts).bind fun ts' => ?_
  refine ((snapshotAndDecode_saves host st.1 ts' out fmt dopts).imp fun _ => apart_of_saves).bind fun saved => ?_
  refine (hwtCtxClose_all (fun _ => trivial) (fun _ _ => trivial) (fun _ => trivial) saved.2).bind fun _ => ?_
  exact (eachSome_all _ fun _ => all_invoke trivial).bind fun _ => trivial

/-- Such calls add failed polls at most. -/
theorem child_of_apart {p : Prog sys α} (h : p.All SysCall.apart) : childLog.Safe l p fun _ l' =>
    ∃ n, l' = { l with calls := l.calls ++ List.replicate n .pollFailed } := by
  refine Protocol.Safe.of_all_keeps (P := childLog)
    (fun l' => ∃ n, l' = { l with calls := l.calls ++ List.replicate n .pollFailed }) ?_ ⟨0, by simp⟩ h
  rintro _ c hc ⟨n, rfl⟩
  refine ⟨trivial, fun ans => ?_⟩
  cases c with
  | start | kill | waitpid => exact hc.elim
  | recordGet fd k =>
      cases ans with
      | some entries => exact ⟨n, rfl⟩
      | none =>
          refine ⟨n + 1, ?_⟩
          rw [List.replicate_succ', ← List.append_assoc]
          rfl
  | _ => exact ⟨n, rfl⟩

theorem execRunning_loops (host : Host) (child : Int32) {ctx : HwtCtx} (hdevice : ctx.ctxFd.isSome = true) :
    childLog.Safe { started := true } (execRunning host opts child ctx) fun code l' => LoopsAs opts code l' := by
  have hlines : ∀ (file : Option Nat) lines, (metaWrite file lines).All SysCall.childless :=
    metaWrite_all fun _ _ => trivial
  have hsidecar : (openSidecar ctx (opts.ptOutput.getD (defaultPtPath child)) child opts.tid).All SysCall.childless :=
    all_invoke_bind trivial fun (file : Option Nat) =>
      (hlines file _).bind fun _ => (hlines file _).bind fun _ => trivial
  refine (child_of_childless hsidecar).bind fun r _ hl => ?_
  subst hl
  refine child_invoke trivial fun _ => child_bind (c := .kill child .cont) fun _ _ => ?_
  refine child_invoke trivial fun (start : Nat) => ?_
  have hmirrors : LoopMirrors { started := true } { poll := { ctx, ts := r.2 } } {} :=
    ⟨rfl, hdevice, rfl, by simp [ChildLog.Reaped], rfl, rfl, rfl, rfl⟩
  refine (execLoop_mirrors hmirrors child start).bind ?_
  rintro st l' ⟨rounds, hleft, hst⟩
  refine (execReap_mirrors hst (execLoop_ok opts.loopOpts rounds).1 child).bind ?_
  rintro st' l'' ⟨awaited, hst'⟩
  refine (child_of_apart (traceFinalize_apart host ..)).bind ?_
  rintro _ _ ⟨n, rfl⟩
  refine .pure (.inr ⟨rounds, awaited, _, n, ?_, hst'.exitcode.symm, ?_⟩)
  · rw [Trace.cmdExec, if_pos hleft]
  · rw [hst'.calls]

/-! ## Whole sessions -/

/-- A call that does not start tracing. -/
def SysCall.idle : SysCall → Prop
  | .start _ => False
  | _ => True

theorem child_of_idle {p : Prog sys α} (h : p.All SysCall.idle) (hidle : l.started = false) :
    childLog.Safe l p fun _ l' => l'.started = false := by
  refine Protocol.Safe.of_all_keeps (P := childLog) (fun l' => l'.started = false) ?_ hidle h
  rintro l' c hc hl'
  refine ⟨trivial, fun ans => ?_⟩
  cases c with
  | start => exact hc.elim
  | kill pid sig => cases sig <;> exact hl'
  | waitpid pid option => cases ans <;> exact hl'
  | recordGet fd n => cases ans <;> exact hl'
  | _ => exact hl'

theorem idle_of_quiet {c : SysCall} (h : c.quiet) : c.idle := by
  cases c with
  | start => exact h.elim
  | _ => trivial

theorem child_of_quiet {p : Prog sys α} (h : p.All SysCall.quiet) (hidle : l.started = false) :
    childLog.Safe l p fun _ l' => l'.started = false :=
  child_of_idle (h.imp fun _ => idle_of_quiet) hidle

theorem hwtCtxAlloc_idle (host : Host) (pid tid : Int32) (bufsize : UInt64) (backend : CString) :
    (hwtCtxAlloc host pid tid bufsize backend).All SysCall.idle := by
  have hfail : ∀ ctx : HwtCtx, (allocFail ctx).All SysCall.idle := fun ctx =>
    (hwtCtxClose_all (fun _ => trivial) (fun _ _ => trivial) (fun _ => trivial) ctx).bind fun _ => trivial
  unfold hwtCtxAlloc
  split
  · trivial
  split
  · trivial
  refine all_invoke_bind trivial fun (ctl : Option Fd) => ?_
  cases ctl with
  | none => trivial
  | some ctl =>
      refine all_invoke_bind trivial fun (kq : Option Fd) => ?_
      cases kq with
      | none => exact hfail _
      | some kq =>
          refine all_invoke_bind trivial fun (ident : Option Int32) => ?_
          cases ident with
          | none => exact hfail _
          | some ident =>
              refine all_invoke_bind trivial fun (fd : Option Fd) => ?_
              cases fd with
              | none => exact hfail _
              | some fd => trivial

theorem closeAndKill_idle (ctx : HwtCtx) (child : Int32) (code : Int) :
    (do Session.hwtCtxClose ctx; killChild child; pure code : Prog sys Int).All SysCall.idle :=
  (hwtCtxClose_all (fun _ => trivial) (fun _ _ => trivial) (fun _ => trivial) ctx).bind fun _ =>
    ((killChild_quiet child).imp fun _ => idle_of_quiet).bind fun _ => trivial

theorem execConfigured_loops (host : Host) (child : Int32) (filter : List IpRange) {ctx : HwtCtx}
    (hctx : ctx.Allocated opts.tid) (hidle : l.started = false) :
    childLog.Safe l (execConfigured host opts child filter ctx) fun code l' => LoopsAs opts code l' := by
  refine ((child_of_quiet (applyOpts_quiet opts filter ctx) hidle).results (applyOpts_configured filter hctx)).bind ?_
  rintro ctx' l' ⟨hidle, hconfigured⟩
  cases ctx' with
  | none =>
      have hclose : (do killChild child; Session.hwtCtxClose ctx; pure 1 : Prog sys Int).All SysCall.idle :=
        ((killChild_quiet child).imp fun _ => idle_of_quiet).bind fun _ =>
          (hwtCtxClose_all (fun _ => trivial) (fun _ _ => trivial) (fun _ => trivial) ctx).bind fun _ => trivial
      exact (child_of_idle hclose hidle).mono fun _ _ hl => .inl hl
  | some ctx' =>
      have hdevice := (hconfigured ctx' rfl).device
      refine (child_of_quiet (hwtCtxSetConfig_quiet ctx' opts.pauseOnMmap) hidle).bind fun configured l'' hidle => ?_
      dsimp only
      split
      · have hstart : childLog.Safe l'' (hwtCtxStart ctx') fun started l' =>
            l' = if started then { started := true } else l'' := by
          obtain ⟨fd, hfd⟩ := Option.isSome_iff_exists.mp hdevice
          unfold hwtCtxStart onDevice
          rw [hfd]
          exact child_bind (c := .start fd) fun _ _ => .pure rfl
        refine hstart.bind fun started _ hl => ?_
        subst hl
        cases started with
        | true => exact execRunning_loops host child hdevice
        | false => exact (child_of_idle (closeAndKill_idle ctx' child 1) hidle).mono fun _ _ hl => .inl hl
      · exact (child_of_idle (closeAndKill_idle ctx' child _) hidle).mono fun _ _ hl => .inl hl

theorem cmdExec_loops (host : Host) (opts : SessionOpts) (noAslr : Bool) (name : CString) (args : List CString)
    (hidle : l.started = false) :
    childLog.Safe l (Session.cmdExec host opts noAslr name args) fun code l' => LoopsAs opts code l' := by
  refine (child_of_quiet (execFilter_quiet host opts name) hidle).bind fun filter l' hidle => ?_
  cases filter with
  | none => exact .pure (.inl hidle)
  | some filter =>
      refine (child_of_idle (resolveBackend_all (fun _ => trivial) (fun _ => idle_of_quiet) opts.backendName)
        hidle).bind fun backend l' hidle => ?_
      cases backend with
      | none => exact .pure (.inl hidle)
      | some backend =>
          refine (child_of_quiet (checkHwtHooks_quiet opts.dryrun) hidle).bind fun hooks l' hidle => ?_
          dsimp only
          split
          swap
          · exact .pure (.inl hidle)
          have hfork := forkStopped_quiet (name :: args) (noAslr || filter.2)
          refine (child_of_quiet hfork hidle).bind fun child l' hidle => ?_
          cases child with
          | none => exact .pure (.inl hidle)
          | some child =>
              have halloc := hwtCtxAlloc_idle host child opts.tid (parseSize opts.bufsizeStr) backend
              refine ((child_of_idle halloc hidle).results
                (hwtCtxAlloc_allocated host child opts.tid (parseSize opts.bufsizeStr) backend)).bind ?_
              rintro ctx l' ⟨hidle, hctx⟩
              cases ctx with
              | none => exact (child_of_quiet (killChild_quiet child) hidle).bind fun _ _ hl => .pure (.inl hl)
              | some ctx => exact execConfigured_loops host child filter.1 (hctx ctx rfl) hidle

end ObservableBSD.Trace.Session
