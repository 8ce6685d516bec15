import ObservableBSD.Trace.Lemmas.Buffer
import ObservableBSD.Trace.Lemmas.Drain
import ObservableBSD.Trace.Lemmas.Exec
import ObservableBSD.Trace.Lemmas.State
import ObservableBSD.Trace.Lemmas.Threads

/-!
# Results about the trace commands
-/

namespace ObservableBSD.Trace

open Base

/-! ## The child of `exec` -/

/-- In a run of `cmd_exec`, every kill comes before the child is reaped, and when it returns the child has
been reaped once and, unless a poll has failed, its status gives the exit code. -/
structure ExecReaps (opts : ExecOpts) (rounds : List ExecRound) (awaited : WaitStatus) : Prop where
  unreaped : KillsUnreaped (execLoop opts rounds).1.calls
  returned : ∀ st, cmdExec opts rounds awaited = some st → KillsUnreaped st.calls ∧
    reapCount st.calls = 1 ∧
    (.pollFailed ∉ st.calls → ∃ status, .reap status ∈ st.calls ∧ st.exitcode = exitCodeOf status)

/-- This holds exactly of the runs in which no bound is reached in a round that starts behind the exit of
the child. -/
theorem execReaps_iff (opts : ExecOpts) (rounds : List ExecRound) (awaited : WaitStatus) :
    ExecReaps opts rounds awaited ↔ NoBoundAfterExit opts rounds := by
  obtain ⟨_, _, hiff⟩ := execLoop_ok opts rounds
  constructor
  · intro h
    exact hiff.mp h.unreaped
  · intro h
    refine ⟨hiff.mpr h, fun st hst => ?_⟩
    obtain ⟨hcount, hkills, hcode⟩ := cmdExec_ok hst
    exact ⟨hkills.mpr h, hcount, hcode⟩

/-- The child exits in the first round, and the second one starts behind the duration. -/
private def lateRounds : List ExecRound :=
  [⟨0, some (.exited 0), some [], .exited 0⟩, ⟨2000000000, none, some [], .exited 0⟩]

/-- The second round kills the child that the first has reaped. -/
theorem lateRounds_kill_reaped : ¬ ExecReaps { duration := 1000000000 } lateRounds (.exited 0) := by
  intro h
  have hcalls : (execLoop { duration := 1000000000 } lateRounds).1.calls =
      [.reap (.exited 0)] ++ .kill :: [] := by decide
  exact h.unreaped _ _ hcalls (.exited 0) (by simp)

/-! ## Pause on mmap -/

/-- With pause-on-mmap, every record that pauses the target is followed by a wakeup exactly when the drain
behind the stop takes none from the queue. -/
theorem drains_wake_iff {s : DrainSession} (hpause : s.pauseOnMmap = true) :
    WakesTarget s.run.ctx.calls ↔
      ∀ batch ∈ postStopBatches 0 s.postStopPolls, ∀ p ∈ batch, p.record.pausesTarget = false := by
  rw [s.run_calls]
  exact wakesTarget_stopped_iff (DrainSession.beforeStop_wakes hpause) _

/-- The drains leave the trace state of a session over the same records. -/
theorem drains_drained {s : DrainSession} {t : TraceSession} (hstart : s.ts = t.start)
    (hrecords : s.records = t.records) : s.run.ts = t.drained := by
  rw [s.run_ts, hstart, hrecords, TraceSession.drained]

/-- A session whose drain behind the stop meets these polls. -/
def lateSession (postStopPolls : List (Option Batch)) : DrainSession where
  tid := 0
  allThreads := false
  requestedTids := []
  pauseOnMmap := true
  mainPolls := [[⟨{ type := .executable, fullpath := cstr "/bin/a" }, true⟩]]
  finalPoll := some []
  postStopPolls

theorem lateSession_quiet_wakes : (lateSession [some []]).pauseOnMmap = true ∧
    WakesTarget (lateSession [some []]).run.ctx.calls :=
  ⟨rfl, (drains_wake_iff (s := lateSession [some []]) rfl).mpr (by
    intro batch hbatch p hp
    obtain rfl := List.mem_singleton.mp hbatch
    cases hp)⟩

/-- A library is mapped while the session stops: its record is the first one of the drain behind the stop. -/
theorem lateSession_mmap_stranded : ¬ WakesTarget (lateSession
    [some [⟨{ type := .mmap, fullpath := cstr "/lib/b" }, true⟩]]).run.ctx.calls := by
  intro h
  have hwakeup := h [.recordGet [{ type := .executable, fullpath := cstr "/bin/a" }], .wakeup, .recordGet [], .stop]
    _ [] rfl _ (List.mem_singleton.mpr rfl) rfl
  cases hwakeup

/-! ## Threads -/

/-- What is expected of the threads that are open behind a sequence of records of a session. -/
structure OpensRequested (s : DrainSession) (recs : List PolledRecord) (threads : List Int32) : Prop where
  distinct : threads.Nodup
  others : s.tid ∉ threads
  requested : ∀ t ∈ threads, (s.allThreads = true ∨ t ∈ s.requestedTids) ∧
    ∃ p ∈ recs, p.record.type = .threadCreate ∧ p.record.threadId = t ∧ p.opens = true
  ordered : threads <+: s.start.ctx.firstOpens recs
  bounded : threads.length ≤ maxThreads
  kept : ∀ front p back, recs = front ++ p :: back → s.start.ctx.opensThread p = true →
    (s.start.threadsAfter s.pauseOnMmap front).length < maxThreads → p.record.threadId ∈ threads

/-- The records of a session open the threads that it asks for, once each. -/
theorem emitAndProcess_opensRequested (s : DrainSession) (recs : List PolledRecord) :
    OpensRequested s recs (s.start.threadsAfter s.pauseOnMmap recs) := by
  have hspec : s.start.threadsAfter s.pauseOnMmap recs = (s.start.ctx.firstOpens recs).take maxThreads :=
    (foldl_emitAndProcess_spec rfl s.pauseOnMmap recs).2
  have hmem : ∀ t ∈ s.start.threadsAfter s.pauseOnMmap recs,
      ∃ p ∈ recs, s.start.ctx.opensThread p = true ∧ p.record.threadId = t := fun t ht =>
    HwtCtx.mem_firstOpens.mp (List.mem_of_mem_take (hspec ▸ ht))
  constructor
  · rw [hspec]
    exact (nodup_eraseDups _).sublist (List.take_sublist _ _)
  · intro htid
    obtain ⟨p, _, hopens, hp⟩ := hmem _ htid
    simp [HwtCtx.opensThread, HwtCtx.wantsThread, DrainSession.start, hp] at hopens
  · intro t ht
    obtain ⟨p, hp, hopens, rfl⟩ := hmem t ht
    simp only [HwtCtx.opensThread, HwtCtx.wantsThread, Bool.and_eq_true, Bool.or_eq_true, decide_eq_true_eq,
      List.contains_iff_mem] at hopens
    exact ⟨hopens.1.2, p, hp, hopens.1.1.1, rfl, hopens.2⟩
  · rw [hspec]
    exact List.take_prefix _ _
  · rw [hspec, List.length_take]
    exact Nat.min_le_left _ _
  · rintro front p back rfl hopens hroom
    exact mem_threadsAfter rfl hopens hroom back

/-! ## Positions of the trace buffers -/

/-- The buffer fields of a session are about single buffers: a wrap is a page that decreased within one
buffer, and the position is the last one of the primary buffer. -/
structure PerBuffer (s : TraceSession) (primary : Int) : Prop where
  wrapped : s.drained.bufWrapped = true → ∃ bufId, ¬ PagesAscend (bufferOf bufId s.records)
  position : (s.drained.lastBufPage, s.drained.lastBufOffset) = lastPosition (bufferOf primary s.records)

/-- They are exactly when a page below an earlier one, of any buffer, comes with a page that decreased within
one buffer, and the last BUFFER record of all has the position of the last one of the primary buffer. -/
theorem perBuffer_iff (s : TraceSession) (primary : Int) :
    PerBuffer s primary ↔
      ((∀ bufId, PagesAscend (bufferOf bufId s.records)) →
        (bufferRecords s.records).Pairwise fun a b => 0 ≤ a.curpage → a.curpage ≤ b.curpage) ∧
      lastPosition (bufferRecords s.records) = lastPosition (bufferOf primary s.records) := by
  have htracks : TracksBuffers s.drained (bufferRecords s.records) :=
    tracksBuffers_run (tracksBuffers_start s) s.records
  constructor
  · intro h
    refine ⟨fun hascend => htracks.wrapped.mp (eq_false_of_ne_true fun hwrapped => ?_),
      htracks.position.symm.trans h.position⟩
    obtain ⟨bufId, hnot⟩ := h.wrapped hwrapped
    exact hnot (hascend bufId)
  · rintro ⟨hascend, hlast⟩
    refine ⟨fun hwrapped => ?_, htracks.position.trans hlast⟩
    by_contra hno
    have hfalse := htracks.wrapped.mpr (hascend fun bufId => by_contra fun hb => hno ⟨bufId, hb⟩)
    rw [hfalse] at hwrapped
    cases hwrapped

/-- Two threads, with one BUFFER record each. -/
def twoBuffers : TraceSession where
  pid := 7
  tid := 0
  mtcFreq := 0
  cycThresh := 0
  seeds := none
  mainRecords := [{ type := .buffer, bufId := 0, curpage := 5 }, { type := .buffer, bufId := 1, curpage := 0 }]
  finalRecords := []
  postStopRecords := []
  osTrace := false
  kernBase := none

/-- The first page of the second thread's buffer counts as a wrap, and its position as the primary one. -/
theorem twoBuffers_mixed : ¬ (twoBuffers.drained.bufWrapped = true →
      ∃ bufId, ¬ PagesAscend (bufferOf bufId twoBuffers.records)) ∧
    (twoBuffers.drained.lastBufPage, twoBuffers.drained.lastBufOffset) ≠
      lastPosition (bufferOf 0 twoBuffers.records) := by
  refine ⟨fun h => ?_, by decide⟩
  obtain ⟨bufId, hnot⟩ := h (by decide)
  apply hnot
  by_cases h0 : bufId = 0
  · subst h0; decide
  · by_cases h1 : bufId = 1
    · subst h1; decide
    · simp [bufferOf, bufferRecords, twoBuffers, TraceSession.records, PagesAscend, Ne.symm h0, Ne.symm h1]

/-! ## The sidecar -/

/-- Sections whose paths need no escape and fit the buffer of the writer are read back. -/
theorem meta_roundtrip {sections : List PtImageInfo} (himage : ∀ sec ∈ sections, sec.type.isImage = true)
    (hexec : ∀ sec ∈ sections.tail, sec.type ≠ .executable) (hne : ∀ sec ∈ sections, sec.path ≠ [])
    (hpath : ∀ sec ∈ sections, Plain sec.path) (hlen : ∀ sec ∈ sections, sec.path.length ≤ 1017) :
    metaReadSections (metaWriterSections sections).flatten = sections := by
  rw [metaReadSections_metaWriterSections himage hexec hne hpath, map_kept hlen]

def mapping (path : CString) : PtImageInfo where
  path := path
  loadAddr := 4096
  baseAddr := 0
  type := .mmap

theorem meta_roundtrip_exec : metaReadSections (metaWriterSections
    [{ mapping (cstr "/bin/a") with type := .executable }, mapping (cstr "/lib/b")]).flatten =
      [{ mapping (cstr "/bin/a") with type := .executable }, mapping (cstr "/lib/b")] :=
  meta_roundtrip (by decide) (by decide) (by decide) (by decide +kernel) (by decide)

theorem meta_path_cut {path : CString} (hpath : Plain path) (hlen : 1017 < path.length) :
    metaReadSections (metaWriterSections [mapping path]).flatten ≠ [mapping path] := by
  have hne : path ≠ [] := by
    rintro rfl
    cases hlen
  rw [metaReadSections_metaWriterSections (List.forall_mem_singleton.mpr rfl) nofun
    (List.forall_mem_singleton.mpr hne) (List.forall_mem_singleton.mpr hpath)]
  intro heq
  have hcut : path.take 1017 = path := congrArg PtImageInfo.path (List.cons.inj heq).1
  have hshort := congrArg List.length hcut
  rw [List.length_take] at hshort
  omega

/-- A quote ends the path, a control character comes back as its escape, and the last of 1018 bytes is cut. -/
theorem meta_paths_changed :
    metaReadSections (metaWriterSections [mapping (cstr "/a\"b")]).flatten ≠ [mapping (cstr "/a\"b")] ∧
      metaReadSections (metaWriterSections [mapping [47, 1]]).flatten ≠ [mapping [47, 1]] ∧
      metaReadSections (metaWriterSections [mapping (List.replicate 1018 97)]).flatten ≠
        [mapping (List.replicate 1018 97)] := by
  refine ⟨by decide, by decide, meta_path_cut (fun c hc => ?_) ?_⟩
  · obtain rfl := List.eq_of_mem_replicate hc
    decide
  · rw [List.length_replicate]
    decide

/-- The sidecar and the live decoder's sections differ exactly by a kernel section that comes from the sysctl
and from no record. -/
theorem sidecar_agrees_iff {s : TraceSession} (h : s.PlainPaths) :
    metaReadSections s.finalize.metaLines.flatten = s.finalize.sections ↔
      (s.osTrace = false ∨ s.kernBase = none ∨ KernelKept s.records) := by
  have hfile := (s.inStep_drained h).file
  have hkernel : (∃ sec ∈ s.drained.sections, sec.type = .kernel) ↔ KernelKept s.records :=
    mem_kernel_records (s.inStep_start h).2
  rw [← hkernel]
  unfold TraceSession.finalize
  cases hos : s.osTrace with
  | false => simpa using hfile
  | true =>
      unfold traceStateEnsureKernel
      by_cases hany : ∃ sec ∈ s.drained.sections, sec.type = .kernel
      · have hfound : s.drained.sections.any (·.type = .kernel) = true := by simpa using hany
        simp only [if_true, hfound, hany, or_true, iff_true]
        exact hfile
      · have hmissing : s.drained.sections.any (·.type = .kernel) = false := by simpa using hany
        cases hbase : s.kernBase with
        | none => simpa [hmissing] using hfile
        | some kbase =>
            simp only [if_true, hmissing, Bool.false_eq_true, if_false, hany, reduceCtorEq, or_self, iff_false]
            -- The kernel's section is added in memory only.
            rw [traceStateAddSection, if_neg (by decide)]
            intro heq
            have hlength := congrArg List.length (hfile.symm.trans heq)
            simp at hlength

/-- `-K` with these records, on a kernel loaded at 2^21. -/
def kernelSession (records : List BsdtraceRecord) : TraceSession where
  pid := 7
  tid := 0
  mtcFreq := 3
  cycThresh := 0
  seeds := none
  mainRecords := records
  finalRecords := []
  postStopRecords := []
  osTrace := true
  kernBase := some 2097152

/-- With a kernel record nothing is left to the sysctl. -/
theorem kernelRecord_agrees :
    let s := kernelSession [{ type := .kernel, fullpath := cstr "/boot/kernel/kernel", addr := 2097152 }]
    metaReadSections s.finalize.metaLines.flatten = s.finalize.sections :=
  (sidecar_agrees_iff ⟨fun _ hseeds => (by cases hseeds), by decide +kernel⟩).mpr
    (Or.inr (Or.inr ⟨[], _, [], rfl, rfl, by decide, nofun⟩))

/-- On a kernel without kernel records the live decoder has a section that the sidecar lacks. -/
theorem kernelFallback_differs : (kernelSession []).PlainPaths ∧
    metaReadSections (kernelSession []).finalize.metaLines.flatten ≠ (kernelSession []).finalize.sections := by
  refine ⟨⟨fun _ hseeds => (by cases hseeds), nofun⟩, ?_⟩
  decide

end ObservableBSD.Trace
