import ObservableBSD.Trace.Lemmas.SessionFinalize

/-!
# What a session holds

The two commands obey the protocol of a session, whatever the kernel answers.
-/

namespace ObservableBSD.Trace.Session

open Base Elf Decode

variable {α : Type} {w : World} {ph : Phase} {ctx : HwtCtx} {file : Option Nat}

/-! ## Both commands -/

theorem applyOpts_safe (opts : SessionOpts) (filter : List IpRange) (hlive : ctx.Live ph) :
    held.Safe (world ctx file ph) (applyOpts opts filter ctx) fun r w =>
      w = world ctx file ph ∧ ∀ ctx', r = some ctx' → ctx'.Live ph ∧ w = world ctx' file ph := by
  have hsame : ∀ {ctx' : HwtCtx}, ctx'.ctxFd = ctx.ctxFd → ctx'.threads = ctx.threads → ctx'.ident = ctx.ident →
      ctx'.tid = ctx.tid → ctx'.Live ph := fun hfd hthreads hident htid =>
    ⟨⟨hfd ▸ hident ▸ htid ▸ hlive.device, hthreads ▸ hident ▸ hlive.threads, hfd ▸ hlive.idle⟩, hfd ▸ hlive.opened⟩
  unfold applyOpts
  dsimp only
  split
  · refine invoke_bind trivial fun (timing : UInt32 × UInt32) _ => ?_
    obtain ⟨mtcFreq, cycThresh⟩ := timing
    dsimp only
    split
    · exact .pure ⟨rfl, by simp⟩
    · refine .pure ⟨rfl, ?_⟩
      rintro _ ⟨⟩
      exact ⟨hsame rfl rfl rfl rfl, rfl⟩
  · refine .pure ⟨rfl, ?_⟩
    rintro _ ⟨⟩
    exact ⟨hsame rfl rfl rfl rfl, rfl⟩

theorem openSidecar_safe (ptOutput : CString) (pid tid : Int32) :
    held.Safe (world ctx none ph) (openSidecar ctx ptOutput pid tid) fun r w => w = world ctx r.1 ph := by
  refine invoke_bind trivial fun (file : Option Nat) _ => ?_
  have hw : (⟨ctx.fds, ctx.maps, ofOption file + ofOption none, ph⟩ : World) = world ctx file ph := by
    rw [ofOption_none, add_zero]
    rfl
  change held.Safe ⟨ctx.fds, ctx.maps, ofOption file + ofOption none, ph⟩ _ _
  rw [hw]
  refine (metaWrite_safe world_file).bind fun _ _ hw => ?_
  subst hw
  exact (metaWrite_safe world_file).bind fun _ _ hw => .pure hw

theorem PollState.emit_safe {st : PollState} (opts : SessionOpts) (recs : List BsdtraceRecord) (hprints : ph.Prints)
    (hlive : st.ctx.Live ph) :
    held.Safe (world st.ctx file ph) (st.emit file opts recs) fun st' w =>
      st'.ctx.Live ph ∧ w = world st'.ctx file ph :=
  (emitRecords_safe hprints hlive st.ts opts.fmt opts.pauseOnMmap recs).bind fun _ _ h => .pure h

@[simp] theorem PollState.drain_ctx (st : PollState) (gone : Bool) (nrecs : Nat) : (st.drain gone nrecs).1.ctx = st.ctx := by
  unfold PollState.drain
  split
  · split <;> rfl
  · rfl

theorem pollSleep_safe (nrecs : Nat) : held.Safe w (pollSleep nrecs) fun _ w' => w' = w :=
  invoke_safe trivial fun _ _ => rfl

/-! ## trace -/

theorem seedProcessMmaps_safe (ts : TraceState) (pid : Int32) :
    held.Safe (world ctx file ph) (seedProcessMmaps file ts pid) fun _ w => w = world ctx file ph := by
  refine invoke_bind trivial fun vmmap _ => ?_
  exact (metaWrite_safe world_file).bind fun _ _ hw => .pure hw

theorem TraceLoop.expired_safe (st : TraceLoop) (opts : SessionOpts) (start : Nat) :
    held.Safe w (st.expired opts start) fun _ w' => w' = w := by
  unfold TraceLoop.expired
  split
  · exact invoke_bind trivial fun _ _ => .pure rfl
  · exact .pure rfl

theorem TraceLoop.checkTarget_safe (st : TraceLoop) (pid : Int32) :
    held.Safe w (st.checkTarget pid) fun _ w' => w' = w := by
  unfold TraceLoop.checkTarget
  split
  · exact .pure rfl
  · exact invoke_bind trivial fun _ _ => .pure rfl

/-- One turn of the polling loop of `trace`. -/
theorem traceTurn_safe (opts : SessionOpts) (pid : Int32) (start : Nat) {st : TraceLoop} (hprints : ph.Prints)
    (hlive : st.poll.ctx.Live ph) :
    held.Safe (world st.poll.ctx file ph) (traceTurn opts file pid start st) fun r w =>
      r.elim (fun st' => st'.poll.ctx.Live ph ∧ w = world st'.poll.ctx file ph)
        (fun st' => st'.poll.ctx.Live ph ∧ w = world st'.poll.ctx file ph) := by
  refine invoke_bind trivial fun (interrupted : Bool) _ => ?_
  cases interrupted with
  | true => exact .pure ⟨hlive, rfl⟩
  | false =>
      refine (st.expired_safe opts start).bind fun expired _ hw => ?_
      subst hw
      split
      · exact .pure ⟨hlive, rfl⟩
      split
      · exact .pure ⟨hlive, rfl⟩
      refine (st.checkTarget_safe pid).bind fun gone _ hw => ?_
      subst hw
      refine (hwtCtxPollRecords_safe pollMaxRecords hlive.toReady).bind fun polled _ hw => ?_
      subst hw
      cases polled with
      | none => exact .pure ⟨hlive, rfl⟩
      | some recs =>
          refine (PollState.emit_safe opts recs hprints hlive).bind ?_
          rintro poll _ ⟨hlive', rfl⟩
          dsimp only
          split
          · exact .pure ⟨by simpa using hlive', by simp⟩
          · refine (pollSleep_safe recs.length).bind fun _ _ hw => .pure ⟨by simpa using hlive', ?_⟩
            rw [hw, PollState.drain_ctx]

/-- Nothing is open any more, and the child is where it was. -/
def Released (ph : Phase) (w : World) : Prop := ∃ ph', w = ⟨0, 0, 0, ph'⟩ ∧ ph'.running = false ∧ ph'.child = ph.child

/-- The polling loop of `trace`. -/
theorem traceLoop_safe (opts : SessionOpts) (pid : Int32) (start : Nat) {st : TraceLoop} (hprints : ph.Prints)
    (hlive : st.poll.ctx.Live ph) :
    held.Safe (world st.poll.ctx file ph) (Prog.iterate (traceTurn opts file pid start) st) fun st' w =>
      st'.poll.ctx.Live ph ∧ w = world st'.poll.ctx file ph := by
  refine Protocol.Safe.iterate (P := held)
    (fun (st' : TraceLoop) w => st'.poll.ctx.Live ph ∧ w = world st'.poll.ctx file ph) ⟨hlive, rfl⟩ ?_
  rintro st' _ ⟨hlive', rfl⟩
  exact traceTurn_safe opts pid start hprints hlive'

/-- The phase behind the handlers of `cmd_trace` and a successful start. -/
theorem traceRunning_safe (host : Host) (opts : SessionOpts) (pid : Int32) {ctx : HwtCtx}
    (hlive : ctx.Live { ph with sigpipe := true, running := true }) :
    held.Safe (world ctx none { ph with sigpipe := true, running := true }) (traceRunning host opts pid ctx)
      fun _ w => Released ph w := by
  refine (openSidecar_safe _ pid opts.tid).bind ?_
  rintro ⟨file, ts⟩ _ rfl
  refine (seedProcessMmaps_safe ts pid).bind fun ts' _ hw => ?_
  subst hw
  refine invoke_bind trivial fun (start : Nat) _ => ?_
  refine (traceLoop_safe opts pid start (fun _ => rfl) hlive).bind ?_
  rintro st _ ⟨hst, rfl⟩
  refine (traceFinalize_safe host _ _ _ _ _ hst fun _ => rfl).bind fun total _ hw => ?_
  subst hw
  refine invoke_bind trivial fun _ _ => ?_
  refine invoke_bind rfl fun _ _ => .pure ?_
  exact ⟨{ ph with sigpipe := false, running := false }, rfl, rfl, rfl⟩

theorem traceSession_safe (host : Host) (opts : SessionOpts) (pid : Int32) (hlive : ctx.Live ph)
    (hconf : ph.configured = true) (hidle : ph.running = false) :
    held.Safe (world ctx none ph) (traceSession host opts pid ctx) fun _ w => Released ph w := by
  refine invoke_bind trivial fun _ _ => ?_
  refine invoke_bind trivial fun _ _ => ?_
  have hcaught : ctx.Live { ph with sigpipe := true } := hlive.congr rfl
  have hstart : held.Safe (world ctx none { ph with sigpipe := true }) (hwtCtxStart ctx) fun started w =>
      w = world ctx none { ph with sigpipe := true, running := started } := hwtCtxStart_safe hcaught.toReady hconf hidle
  refine hstart.bind fun started _ hw => ?_
  subst hw
  have hlive' : ctx.Live { ph with sigpipe := true, running := started } := hlive.congr rfl
  cases started with
  | false => exact (hwtCtxClose_safe hlive'.toReady).bind fun _ _ hw => .pure ⟨_, hw, rfl, rfl⟩
  | true => exact traceRunning_safe host opts pid hlive'

theorem traceFilter_safe (host : Host) (opts : SessionOpts) (pid : Int32) :
    held.Safe w (traceFilter host opts pid) fun _ w' => w' = w := by
  unfold traceFilter
  split
  · refine invoke_bind trivial fun (path : Option CString) _ => ?_
    cases path with
    | none => exact .pure rfl
    | some path => exact invoke_bind trivial fun _ _ => .pure rfl
  · exact .pure rfl

theorem traceConfigured_safe (host : Host) (opts : SessionOpts) (pid : Int32) (filter : List IpRange)
    (hlive : ctx.Live ph) (hidle : ph.running = false) :
    held.Safe (world ctx none ph) (traceConfigured host opts pid filter ctx) fun _ w => Released ph w := by
  refine (applyOpts_safe opts filter hlive).bind ?_
  rintro (_ | ctx') _ ⟨hw, hctx'⟩
  · subst hw
    exact (hwtCtxClose_safe hlive.toReady).bind fun _ _ hw => .pure ⟨_, hw, rfl, rfl⟩
  · obtain ⟨hlive', rfl⟩ := hctx' ctx' rfl
    refine (hwtCtxSetConfig_safe opts.pauseOnMmap hlive'.toReady hidle).bind fun configured _ hw => ?_
    subst hw
    have hlive'' : ctx'.Live { ph with configured := configured || ph.configured } := hlive'.congr rfl
    dsimp only
    split
    · rename_i hgo
      have hconf : configured = true := (Bool.and_eq_true_iff.mp hgo).1
      exact traceSession_safe host opts pid hlive'' (by simp [hconf]) hidle
    · exact (hwtCtxClose_safe hlive''.toReady).bind fun _ _ hw => .pure ⟨_, hw, rfl, rfl⟩

/-! ## The child -/

/-- The world with the child of `exec`. -/
def World.withChild (w : World) (child : Child) : World := { w with phase.child := some child }

theorem World.withChild_isChild {P : Child → Prop} {child : Child} (h : P child) :
    (w.withChild child).IsChild child.pid P := ⟨child, rfl, rfl, h⟩

theorem mapChild_withChild (child : Child) (f : Child → Child) :
    { w.withChild child with phase := (w.withChild child).phase.mapChild child.pid f } = w.withChild (f child) := by
  simp [World.withChild, Phase.mapChild]

/-- A signal of the session to its child. -/
theorem kill_safe {child : Child} :
    held.Safe (w.withChild child) (invoke (.kill child.pid .kill)) fun _ w' =>
      w' = w.withChild { child with killed := true } :=
  invoke_safe (World.withChild_isChild trivial) fun _ _ => mapChild_withChild child _

def WaitAnswer.stops : WaitAnswer → Bool
  | .stopped => true
  | _ => false

def WaitAnswer.exits : WaitAnswer → Bool
  | .exited _ => true
  | _ => false

/-- What a wait leaves of the child. -/
def Child.waited (child : Child) (answer : WaitAnswer) : Child :=
  { child with stopped := child.stopped || answer.stops, reaped := child.reaped || answer.exits }

theorem next_waitpid (child : Child) (option : WaitOption) (answer : WaitAnswer) :
    (w.withChild child).next (.waitpid child.pid option) answer = w.withChild (child.waited answer) := by
  cases answer with
  | error => simp [World.next, Child.waited, WaitAnswer.stops, WaitAnswer.exits]
  | nothing => simp [World.next, Child.waited, WaitAnswer.stops, WaitAnswer.exits]
  | stopped =>
      simp only [Child.waited, WaitAnswer.stops, WaitAnswer.exits, Bool.or_true, Bool.or_false]
      exact mapChild_withChild child ({ · with stopped := true })
  | exited status =>
      simp only [Child.waited, WaitAnswer.stops, WaitAnswer.exits, Bool.or_true, Bool.or_false]
      exact mapChild_withChild child ({ · with reaped := true })

/-- A child that was killed, or has been reaped, has been reaped behind a wait without end. -/
theorem waitBlock_safe {child : Child} (h : child.killed = true ∨ child.reaped = true) :
    held.Safe (w.withChild child) (invoke (.waitpid child.pid .block)) fun _ w' =>
      ∃ child', child'.pid = child.pid ∧ child'.reaped = true ∧ w' = w.withChild child' := by
  refine invoke_safe (World.withChild_isChild h) fun (answer : WaitAnswer) hanswer => ?_
  have hreaped : (child.reaped || answer.exits) = true := by
    cases hreaped : child.reaped with
    | true => rfl
    | false =>
        have hkilled : child.killed = true := by simpa [hreaped] using h
        obtain ⟨status, rfl⟩ := hanswer (World.withChild_isChild ⟨hkilled, hreaped⟩)
        rfl
  exact ⟨child.waited answer, rfl, hreaped, next_waitpid child .block answer⟩

theorem killChild_safe {child : Child} :
    held.Safe (w.withChild child) (killChild child.pid) fun _ w' =>
      ∃ child', child'.pid = child.pid ∧ child'.reaped = true ∧ w' = w.withChild child' := by
  refine kill_safe.bind fun _ _ hw => ?_
  subst hw
  exact (waitBlock_safe (.inl rfl)).bind fun _ _ h => .pure h

/-! ## exec -/

/-- The child has been reaped, or there is none. -/
def Phase.NoChild (ph : Phase) : Prop := ∀ child, ph.child = some child → child.reaped = true

/-- The outcome of `fork_stopped`: a child that has stopped, or none that is left. -/
structure Forked (ph : Phase) (r : Option Int32) (w : World) : Prop where
  failed : r = none → ∃ child, w = ⟨0, 0, 0, { ph with child }⟩ ∧ Phase.NoChild { ph with child }
  stopped : ∀ pid, r = some pid → w = World.withChild ⟨0, 0, 0, ph⟩ { pid, stopped := true }

theorem forkFailed_safe (child : Child) :
    held.Safe (World.withChild ⟨0, 0, 0, ph⟩ child) (do
      killChild child.pid
      pure none) (Forked ph) := by
  refine killChild_safe.bind ?_
  rintro _ _ ⟨child', -, hreaped, rfl⟩
  exact .pure ⟨fun _ => ⟨some child', rfl, by simp [Phase.NoChild, hreaped]⟩, by simp⟩

theorem forkStopped_safe (args : List CString) (noAslr : Bool) (hnone : ph.child = none) :
    held.Safe ⟨0, 0, 0, ph⟩ (forkStopped args noAslr) (Forked ph) := by
  refine invoke_bind hnone fun (pid : Option Int32) _ => ?_
  change held.Safe ⟨0, 0, 0, { ph with child := (pid.map fun pid => { pid }) <|> ph.child }⟩ _ _
  rw [hnone]
  cases pid with
  | none => exact .pure ⟨fun _ => ⟨none, rfl, by simp [Phase.NoChild]⟩, by simp⟩
  | some pid =>
      change held.Safe (World.withChild ⟨0, 0, 0, ph⟩ { pid }) _ _
      refine invoke_bind (World.withChild_isChild trivial) fun (answer : WaitAnswer) _ => ?_
      have hnext : World.next _ (.waitpid pid .untraced) answer = World.withChild ⟨0, 0, 0, ph⟩ (Child.waited { pid } answer) :=
        next_waitpid { pid } .untraced answer
      rw [hnext]
      cases answer with
      | error => exact forkFailed_safe _
      | nothing => exact forkFailed_safe _
      | exited status => exact forkFailed_safe (Child.waited { pid } (.exited status))
      | stopped =>
          refine .pure ⟨by simp, ?_⟩
          rintro _ ⟨⟩
          rfl

/-- What the session holds in the polling loop of `exec`: the loop knows whether the child has been reaped. -/
def ExecHeld (ph : Phase) (file : Option Nat) (pid : Int32) (killed : Bool) (st : ExecLoop) (w : World) : Prop :=
  st.poll.ctx.Live ph ∧ ∃ child : Child, child.pid = pid ∧ child.reaped = st.childDone ∧
    (killed = true → st.childDone = true ∨ child.killed = true) ∧ w = (world st.poll.ctx file ph).withChild child

theorem checkChild_childDone (st : ExecLoop) (answer : WaitAnswer) :
    (st.checkChild answer).childDone = (st.childDone || answer.exits) := by
  cases answer <;> simp [ExecLoop.checkChild, WaitAnswer.exits]

@[simp] theorem checkChild_poll (st : ExecLoop) (answer : WaitAnswer) : (st.checkChild answer).poll = st.poll := by
  cases answer <;> rfl

/-- A poll error while the child is still running. -/
theorem pollError_safe {pid : Int32} {st : ExecLoop} (hheld : ExecHeld ph file pid false st w) :
    held.Safe w (pollError st pid) (ExecHeld ph file pid true) := by
  obtain ⟨hlive, child, rfl, -, -, rfl⟩ := hheld
  refine kill_safe.bind fun _ _ hw => ?_
  subst hw
  have hkilled : Child.killed { child with killed := true } = true ∨ child.reaped = true := .inl rfl
  refine (waitBlock_safe hkilled).bind ?_
  rintro answer _ ⟨child', hpid, hreaped, rfl⟩
  exact .pure ⟨hlive, child', hpid, hreaped, fun _ => .inl rfl, rfl⟩

theorem execDrain_safe (opts : SessionOpts) {pid : Int32} {st : ExecLoop} (hprints : ph.Prints)
    (hheld : ExecHeld ph file pid false st w) :
    held.Safe w (execDrain opts file pid st) fun r w =>
      r.elim (ExecHeld ph file pid false · w) (ExecHeld ph file pid true · w) := by
  obtain ⟨hlive, child, rfl, hreaped, -, rfl⟩ := hheld
  have hlive' : st.poll.ctx.Live { ph with child := some child } := hlive.congr rfl
  refine (hwtCtxPollRecords_safe pollMaxRecords hlive'.toReady).bind fun polled _ hw => ?_
  subst hw
  cases polled with
  | none =>
      dsimp only
      split
      · rename_i hdone
        exact .pure ⟨hlive, child, rfl, hreaped, fun _ => .inl hdone, rfl⟩
      · have hheld : ExecHeld ph file child.pid false st (world st.poll.ctx file { ph with child := some child }) :=
          ⟨hlive, child, rfl, hreaped, by simp, rfl⟩
        exact (pollError_safe hheld).bind fun _ _ h => .pure h
  | some recs =>
      refine (PollState.emit_safe opts recs (by exact hprints) hlive').bind ?_
      rintro poll _ ⟨hpoll, rfl⟩
      have hpoll : poll.ctx.Live ph := hpoll.congr rfl
      dsimp only
      split
      · rename_i hleft
        have hdone : st.childDone = true := by
          by_contra hdone
          simp [PollState.drain, hdone] at hleft
        refine .pure ⟨by simpa using hpoll, child, rfl, hreaped, fun _ => .inl hdone, ?_⟩
        dsimp only
        rw [PollState.drain_ctx]
        rfl
      · refine (pollSleep_safe recs.length).bind fun _ _ hw => .pure ?_
        refine ⟨by simpa using hpoll, child, rfl, hreaped, by simp, ?_⟩
        dsimp only
        rw [hw, PollState.drain_ctx]
        rfl

/-- One turn of the polling loop of `exec`. -/
theorem execTurn_safe (opts : SessionOpts) (start : Nat) {pid : Int32} {st : ExecLoop} (hprints : ph.Prints)
    (hheld : ExecHeld ph file pid false st w) :
    held.Safe w (execTurn opts file pid start st) fun r w =>
      r.elim (ExecHeld ph file pid false · w) (ExecHeld ph file pid true · w) := by
  obtain ⟨hlive, child, rfl, hreaped, -, rfl⟩ := hheld
  refine invoke_bind trivial fun (now : Nat) _ => ?_
  change held.Safe ((world st.poll.ctx file ph).withChild child) _ _
  split
  · refine kill_safe.bind fun _ _ hw => .pure ?_
    exact ⟨hlive, { child with killed := true }, rfl, hreaped, fun _ => .inr rfl, hw⟩
  · refine invoke_bind (World.withChild_isChild trivial) fun (answer : WaitAnswer) _ => ?_
    rw [next_waitpid]
    refine execDrain_safe opts hprints ⟨by rwa [checkChild_poll], child.waited answer, rfl, ?_, by simp, ?_⟩
    · rw [checkChild_childDone, Child.waited, hreaped]
    · rw [checkChild_poll]

theorem execReap_safe {pid : Int32} {st : ExecLoop} (hheld : ExecHeld ph file pid true st w) :
    held.Safe w (execReap st pid) fun st' w =>
      st'.poll.ctx.Live ph ∧ ∃ child : Child, child.reaped = true ∧ w = (world st'.poll.ctx file ph).withChild child := by
  obtain ⟨hlive, child, rfl, hreaped, hkilled, rfl⟩ := hheld
  unfold execReap
  split
  · rename_i hdone
    exact .pure ⟨hlive, child, hreaped.trans hdone, rfl⟩
  · rename_i hdone
    have hkilled : child.killed = true := (hkilled rfl).resolve_left hdone
    refine (waitBlock_safe (.inl hkilled)).bind ?_
    rintro answer _ ⟨child', -, hreaped', rfl⟩
    cases answer with
    | exited status => exact .pure ⟨hlive, child', hreaped', rfl⟩
    | error => exact .pure ⟨hlive, child', hreaped', rfl⟩
    | nothing => exact .pure ⟨hlive, child', hreaped', rfl⟩
    | stopped => exact .pure ⟨hlive, child', hreaped', rfl⟩

theorem execLoop_safe (opts : SessionOpts) (start : Nat) {pid : Int32} {st : ExecLoop} (hprints : ph.Prints)
    (hheld : ExecHeld ph file pid false st w) :
    held.Safe w (Prog.iterate (execTurn opts file pid start) st) (ExecHeld ph file pid true) :=
  Protocol.Safe.iterate (P := held) (ExecHeld ph file pid false) hheld fun _ _ hheld' =>
    execTurn_safe opts start hprints hheld'

/-- `cmd_exec` once tracing runs, with a child that has stopped itself. -/
theorem execRunning_safe (host : Host) (opts : SessionOpts) (pid : Int32) (hlive : ctx.Live ph)
    (hrunning : ph.running = true) :
    held.Safe ((world ctx none ph).withChild { pid, stopped := true }) (execRunning host opts pid ctx)
      fun _ w => w.Clean := by
  refine (openSidecar_safe _ pid opts.tid).bind ?_
  rintro ⟨file, ts⟩ _ rfl
  refine invoke_bind trivial fun _ _ => ?_
  refine invoke_bind ⟨{ pid, stopped := true }, rfl, rfl, rfl, hrunning⟩ fun _ _ => ?_
  have hcont : { (world ctx file { ph with sigpipe := true }).withChild { pid, stopped := true } with
      phase := ((world ctx file { ph with sigpipe := true }).withChild { pid, stopped := true }).phase.mapChild pid
        ({ · with stopped := false }) } = (world ctx file { ph with sigpipe := true }).withChild { pid } :=
    mapChild_withChild { pid, stopped := true } ({ · with stopped := false })
  change held.Safe { (world ctx file { ph with sigpipe := true }).withChild { pid, stopped := true } with
      phase := ((world ctx file { ph with sigpipe := true }).withChild { pid, stopped := true }).phase.mapChild pid
        ({ · with stopped := false }) } _ _
  rw [hcont]
  refine invoke_bind trivial fun (start : Nat) _ => ?_
  have hlive' : ctx.Live { ph with sigpipe := true } := hlive.congr rfl
  have hheld : ExecHeld { ph with sigpipe := true } file pid false { poll := { ctx, ts } }
      ((world ctx file { ph with sigpipe := true }).withChild { pid }) := ⟨hlive', { pid }, rfl, rfl, by simp, rfl⟩
  refine (execLoop_safe opts start (fun _ => rfl) hheld).bind fun st w hw => ?_
  refine (execReap_safe hw).bind ?_
  rintro st' _ ⟨hlive'', child, hreaped, rfl⟩
  have hfinal : st'.poll.ctx.Live { ph with sigpipe := true, child := some child } := hlive''.congr rfl
  refine (traceFinalize_safe host _ _ _ _ _ hfinal fun _ => rfl).bind fun total _ hw => .pure ?_
  subst hw
  refine ⟨rfl, rfl, rfl, rfl, ?_⟩
  rintro _ ⟨⟩
  exact hreaped

/-- What is left once the context is closed and the child reaped. -/
theorem killChild_clean {child : Child} (hidle : ph.running = false) {code : Int} :
    held.Safe (World.withChild ⟨0, 0, 0, ph⟩ child) (do
      killChild child.pid
      pure code) fun _ w => w.Clean := by
  refine killChild_safe.bind ?_
  rintro _ _ ⟨child', -, hreaped, rfl⟩
  refine .pure ⟨rfl, rfl, rfl, hidle, ?_⟩
  rintro _ ⟨⟩
  exact hreaped

theorem closeAndKill_clean {child : Child} (hlive : ctx.Live ph) {code : Int} :
    held.Safe ((world ctx none ph).withChild child) (do
      hwtCtxClose ctx
      killChild child.pid
      pure code) fun _ w => w.Clean := by
  have hlive' : ctx.Live { ph with child := some child } := hlive.congr rfl
  refine (hwtCtxClose_safe hlive'.toReady).bind fun _ _ hw => ?_
  subst hw
  have hidle : Phase.running { ph with running := false } = false := rfl
  exact killChild_clean hidle

theorem execSession_safe (host : Host) (opts : SessionOpts) (pid : Int32) (hlive : ctx.Live ph)
    (hconf : ph.configured = true) (hidle : ph.running = false) :
    held.Safe ((world ctx none ph).withChild { pid, stopped := true }) (execSession host opts pid ctx)
      fun _ w => w.Clean := by
  have hlive' : ctx.Live { ph with child := some { pid, stopped := true } } := hlive.congr rfl
  refine (hwtCtxStart_safe hlive'.toReady hconf hidle).bind fun started _ hw => ?_
  subst hw
  have hstarted : ctx.Live { ph with running := started } := hlive.congr rfl
  cases started with
  | true => exact execRunning_safe host opts pid hstarted rfl
  | false => exact closeAndKill_clean hstarted

theorem execConfigured_safe (host : Host) (opts : SessionOpts) (pid : Int32) (filter : List IpRange)
    (hlive : ctx.Live ph) (hidle : ph.running = false) :
    held.Safe ((world ctx none ph).withChild { pid, stopped := true }) (execConfigured host opts pid filter ctx)
      fun _ w => w.Clean := by
  have hchild : ctx.Live { ph with child := some { pid, stopped := true } } := hlive.congr rfl
  refine (applyOpts_safe opts filter hchild).bind ?_
  rintro (_ | ctx') _ ⟨hw, hctx'⟩
  · subst hw
    have hkill : held.Safe ((world ctx none ph).withChild { pid, stopped := true }) (killChild pid) fun _ w' =>
        ∃ child', child'.pid = pid ∧ child'.reaped = true ∧ w' = (world ctx none ph).withChild child' := killChild_safe
    refine hkill.bind ?_
    rintro _ _ ⟨child', -, hreaped, rfl⟩
    have hlive' : ctx.Live { ph with child := some child' } := hlive.congr rfl
    refine (hwtCtxClose_safe hlive'.toReady).bind fun _ _ hw => .pure ?_
    subst hw
    refine ⟨rfl, rfl, rfl, rfl, ?_⟩
    rintro _ ⟨⟩
    exact hreaped
  · obtain ⟨hlive', rfl⟩ := hctx' ctx' rfl
    refine (hwtCtxSetConfig_safe opts.pauseOnMmap hlive'.toReady hidle).bind fun configured _ hw => ?_
    subst hw
    have hlive'' : ctx'.Live { ph with configured := configured || ph.configured } := hlive'.congr rfl
    dsimp only
    split
    · rename_i hgo
      have hconf : configured = true := (Bool.and_eq_true_iff.mp hgo).1
      exact execSession_safe host opts pid hlive'' (by simp [hconf]) hidle
    · exact closeAndKill_clean hlive''

theorem execForked_safe (host : Host) (opts : SessionOpts) (pid : Int32) (filter : List IpRange)
    (backendName : CString) (hnone : ph.context = none) (hidle : ph.running = false) :
    held.Safe (World.withChild ⟨0, 0, 0, ph⟩ { pid, stopped := true }) (execForked host opts pid filter backendName)
      fun _ w => w.Clean := by
  have halloc : held.Safe (World.withChild ⟨0, 0, 0, ph⟩ { pid, stopped := true })
      (hwtCtxAlloc host pid opts.tid (parseSize opts.bufsizeStr) backendName)
      (Allocated { ph with child := some { pid, stopped := true } }) :=
    hwtCtxAlloc_safe host pid opts.tid _ backendName (by exact hidle) (by exact hnone)
  refine halloc.bind fun ctx w hw => ?_
  cases ctx with
  | none =>
      obtain ⟨context, rfl⟩ := hw.failed rfl
      have hfailed : Phase.running { ph with context } = false := hidle
      exact killChild_clean hfailed
  | some ctx =>
      obtain ⟨rfl, hopened, hready⟩ := hw.opened ctx rfl
      have hlive : ctx.Live { ph with context := some ctx.ident } := HwtCtx.Live.congr ⟨hready, hopened⟩ rfl
      exact execConfigured_safe host opts pid filter hlive hidle

theorem searchPath_safe (name : CString) (dirs : List CString) :
    held.Safe w (searchPath name dirs) fun _ w' => w' = w := by
  induction dirs with
  | nil => exact .pure rfl
  | cons dir dirs ih =>
      refine invoke_bind trivial fun found _ => ?_
      cases found with
      | false => exact ih
      | true => exact .pure rfl

theorem execFilter_safe (host : Host) (opts : SessionOpts) (name : CString) :
    held.Safe w (execFilter host opts name) fun _ w' => w' = w := by
  have hexe : held.Safe w (exeForSymbols name) fun _ w' => w' = w := by
    unfold exeForSymbols
    split
    · exact .pure rfl
    · refine invoke_bind trivial fun path _ => ?_
      exact (searchPath_safe name _).bind fun _ _ hw => .pure hw
  unfold execFilter
  split
  · exact hexe.bind fun _ _ hw => .pure hw
  · exact .pure rfl

/-! ## Whole sessions -/

theorem cmdTrace_released (host : Host) (opts : SessionOpts) (pid : Int32) {ph : Phase} (hnone : ph.context = none)
    (hidle : ph.running = false) :
    held.Safe ⟨0, 0, 0, ph⟩ (cmdTrace host opts pid) fun _ w => Released ph w := by
  have hempty : Released ph ⟨0, 0, 0, ph⟩ := ⟨ph, rfl, hidle, rfl⟩
  unfold cmdTrace
  split
  · exact .pure hempty
  refine invoke_bind trivial fun (there : Bool) _ => ?_
  cases there with
  | false => exact .pure hempty
  | true =>
      refine (resolveBackend_safe opts.backendName hidle).bind fun backend _ hw => ?_
      subst hw
      cases backend with
      | none => exact .pure hempty
      | some backend =>
          refine (checkHwtHooks_safe opts.dryrun).bind fun hooks _ hw => ?_
          subst hw
          cases hooks with
          | false => exact .pure hempty
          | true =>
              refine (traceFilter_safe host opts pid).bind fun filter _ hw => ?_
              subst hw
              cases filter with
              | none => exact .pure hempty
              | some filter =>
                  refine (hwtCtxAlloc_safe host pid opts.tid _ backend hidle hnone).bind fun ctx w hw => ?_
                  cases ctx with
                  | none =>
                      obtain ⟨context, rfl⟩ := hw.failed rfl
                      exact .pure ⟨_, rfl, hidle, rfl⟩
                  | some ctx =>
                      obtain ⟨rfl, hopened, hready⟩ := hw.opened ctx rfl
                      exact (traceConfigured_safe host opts pid filter ⟨hready, hopened⟩ hidle).mono
                        fun _ w ⟨ph', hw, hidle, hchild⟩ => ⟨ph', hw, hidle, hchild⟩

theorem cmdTrace_clean (host : Host) (opts : SessionOpts) (pid : Int32) :
    held.Safe {} (cmdTrace host opts pid) fun _ w => w.Clean := by
  refine (cmdTrace_released host opts pid rfl rfl).mono ?_
  rintro _ _ ⟨ph', rfl, hidle, hchild⟩
  exact ⟨rfl, rfl, rfl, hidle, by simp [hchild]⟩

theorem cmdExec_clean (host : Host) (opts : SessionOpts) (noAslr : Bool) (name : CString) (args : List CString) :
    held.Safe {} (cmdExec host opts noAslr name args) fun _ w => w.Clean := by
  have hempty : World.Clean {} := ⟨rfl, rfl, rfl, rfl, by simp⟩
  refine (execFilter_safe host opts name).bind fun filter _ hw => ?_
  subst hw
  cases filter with
  | none => exact .pure hempty
  | some filter =>
      refine (resolveBackend_safe opts.backendName rfl).bind fun backend _ hw => ?_
      subst hw
      cases backend with
      | none => exact .pure hempty
      | some backend =>
          refine (checkHwtHooks_safe opts.dryrun).bind fun hooks _ hw => ?_
          subst hw
          cases hooks with
          | false => exact .pure hempty
          | true =>
              have hfork : held.Safe {} (forkStopped (name :: args) (noAslr || filter.2)) (Forked {}) :=
                forkStopped_safe _ _ rfl
              refine hfork.bind fun child w hw => ?_
              cases child with
              | none =>
                  obtain ⟨child, rfl, hchild⟩ := hw.failed rfl
                  exact .pure ⟨rfl, rfl, rfl, rfl, hchild⟩
              | some pid =>
                  obtain rfl := hw.stopped pid rfl
                  exact execForked_safe host opts pid filter.1 backend rfl rfl

end ObservableBSD.Trace.Session
