import ObservableBSD.Trace.Lemmas.PartExec
import ObservableBSD.Trace.Lemmas.PartSnapshot

/-!
# Results about the parts of a session

What is proved of a part holds of the sessions that it is part of.
-/

namespace ObservableBSD.Trace.Session

open Base Elf Decode

variable {events : List SysEvent} {host : Host} {opts : SessionOpts}

/-! ## The drains -/

/-- The calls of a session on its context are those of the drains, as they are modelled. -/
theorem session_settled (h : SessionRun host opts events) :
    Trail.Settled opts ⟨calledOn events, decodedIn events⟩ := by
  have hopening : Trail.Opening {} := ⟨[], rfl⟩
  have hanswered : ∀ (events : List SysEvent) t, trail.Answered t events := by
    intro events
    induction events with
    | nil => exact fun _ => trivial
    | cons e events ih => exact fun t => ⟨trivial, ih _⟩
  have hafter : trail.after {} events = ⟨calledOn events, decodedIn events⟩ := after_trail {} events
  rw [← hafter]
  rcases h with ⟨pid, code, hruns⟩ | ⟨noAslr, name, args, code, hruns⟩
  · exact (cmdTrace_settled host opts pid hopening hruns (hanswered ..)).2 code rfl
  · exact (cmdExec_settled host opts noAslr name args hopening hruns (hanswered ..)).2 code rfl

/-- A session's decoder is only run on the sections that its trace state gets from the records that the kernel hands
over, in their order. -/
theorem session_decodes (h : SessionRun host opts events) :
    ∃ run : TraceSession, run.osTrace = opts.osTrace ∧ run.records = events.flatMap handedOver ∧
      ∀ sections ∈ decodedIn events, sections = run.finalize.sections := by
  rw [← calledOn_taken]
  rcases session_settled h with huntraced | ⟨ident, s, run, hdrains⟩
  · have hnone : decodedIn events = [] := huntraced.decoded
    have htaken : (calledOn events).flatMap ContextCall.taken = [] := huntraced.taken
    rw [hnone, htaken]
    exact ⟨freshRun opts { tid := 0, pid := 0 } 0 none, rfl, rfl, nofun⟩
  · exact ⟨run, hdrains.kernel, hdrains.taken.symm, hdrains.decoded⟩

/-- With pause-on-mmap, a session that has returned has woken its target behind every record that pauses it exactly
when the kernel has handed over no such record behind the stop. -/
theorem session_wakes_iff (hpause : opts.pauseOnMmap = true) (h : SessionRun host opts events) :
    Wakes handedOver (·.call.wakes = true) events ↔ ∀ rec ∈ handedOverLate events, rec.pausesTarget = false := by
  rcases session_settled h with huntraced | ⟨ident, s, run, hdrains⟩
  · have hnone : ∀ e ∈ events, handedOver e = [] := by
      rw [← List.flatMap_eq_nil_iff, ← calledOn_taken]
      exact huntraced.taken
    have hlate : handedOverLate events = [] :=
      List.flatMap_eq_nil_iff.mpr fun e he => hnone e ((List.dropWhile_sublist _).subset he)
    rw [hlate, ← List.append_nil events, wakes_append hnone]
    exact ⟨fun _ => nofun, fun _ => wakes_nil⟩
  · rw [← wakes_calledOn, ← calledOn_late]
    refine hdrains.wakes_iff.trans ?_
    rw [hdrains.late, s.run_calls, wakesTarget_stopped_iff (s.beforeStop_wakes (hdrains.pauses.trans hpause)),
      List.forall_mem_map, List.forall_mem_flatten]

/-! ## The loop of `exec` -/

section

variable {noAslr : Bool} {name : CString} {args : List CString} {code : Int}

/-- A session of `exec` does to its child what the loop does, as it is modelled. -/
theorem session_loops (hruns : (Session.cmdExec host opts noAslr name args).Runs events (some code))
    (hanswered : childLog.Answered {} events) : LoopsAs opts code (childLog.after {} events) :=
  (cmdExec_loops host opts noAslr name args rfl hruns hanswered).2 code rfl

/-- When a session of `exec` that has traced returns, its child has been reaped once and, unless a poll has failed, its
status gives the exit code. -/
theorem session_reaps (hruns : (Session.cmdExec host opts noAslr name args).Runs events (some code))
    (hanswered : childLog.Answered {} events) (hstarted : (childLog.after {} events).started = true) :
    reapCount (childLog.after {} events).calls = 1 ∧
      (.pollFailed ∉ (childLog.after {} events).calls →
        ∃ status, .reap status ∈ (childLog.after {} events).calls ∧ code = exitCodeOf status) := by
  rcases session_loops hruns hanswered with hidle | ⟨rounds, awaited, m, n, hm, hcode, hcalls⟩
  · rw [hstarted] at hidle
    cases hidle
  · obtain ⟨hcount, -, hstatus⟩ := cmdExec_ok hm
    rw [hcalls]
    refine ⟨(reapCount_append_polls m.calls n).trans hcount, fun hpolls => ?_⟩
    obtain ⟨status, hmem, heq⟩ := hstatus fun hfailed => hpolls (List.mem_append_left _ hfailed)
    exact ⟨status, List.mem_append_left _ hmem, hcode ▸ heq⟩

/-- Without a bound, a session of `exec` that has traced only kills a child that it has not reaped. -/
theorem session_kills (hduration : opts.duration = 0) (hmaxrecords : opts.maxrecords = 0)
    (hruns : (Session.cmdExec host opts noAslr name args).Runs events (some code))
    (hanswered : childLog.Answered {} events) (hstarted : (childLog.after {} events).started = true) :
    KillsUnreaped (childLog.after {} events).calls := by
  rcases session_loops hruns hanswered with hidle | ⟨rounds, awaited, m, n, hm, -, hcalls⟩
  · rw [hstarted] at hidle
    cases hidle
  · obtain ⟨-, hkills, -⟩ := cmdExec_ok hm
    rw [hcalls, killsUnreaped_append_polls, hkills]
    exact noBoundAfterExit_of_unbounded hduration hmaxrecords rounds

end

/-! ## The snapshot -/

section

variable {b : Buffers} {ctx ctx' : HwtCtx} {ts : TraceState} {out : CString} {fmt : BsdtraceFmt} {dopts : PtDecodeOpts}
  {saved : Int}

/-- A session saves and decodes its buffer as the model does. -/
theorem snapshot_saves
    (hruns : (Session.snapshotAndDecode host ctx ts out fmt dopts).Runs events (some (saved, ctx')))
    (hanswered : (saving b).Answered {} events) :
    ∃ file, Saving.Snapshots {} out (Trace.snapshotAndDecode host.probe (b.traceBuffer ctx) file (b.stop ctx) ts) saved
      ((saving b).after {} events) :=
  (snapshotAndDecode_saving host ctx ts out fmt dopts hruns hanswered).2 _ rfl

/-- A snapshot below 8 TiB that does not fail has the chosen extent in the file, and it is what is decoded first. -/
theorem snapshot_extent {buf : { bytes : List UInt8 // bytes.length = (b.traceBuffer ctx).bufsize }}
    (hmapped : (b.traceBuffer ctx).mapped = some buf)
    (hpos : 0 < snapshotLen host.probe (b.traceBuffer ctx) buf.val (b.stop ctx) ts)
    (hlt : snapshotLen host.probe (b.traceBuffer ctx) buf.val (b.stop ctx) ts < 2 ^ 43)
    (hruns : (Session.snapshotAndDecode host ctx ts out fmt dopts).Runs events (some (saved, ctx')))
    (hanswered : (saving b).Answered {} events) (hsaved : 0 ≤ saved) :
    let extent := buf.val.take (snapshotLen host.probe (b.traceBuffer ctx) buf.val (b.stop ctx) ts)
    [extent] <+: ((saving b).after {} events).decoded ∧ [(out, extent)] <:+ ((saving b).after {} events).files := by
  obtain ⟨file, h⟩ := snapshot_saves hruns hanswered
  have hworks : 0 ≤ (Trace.snapshotAndDecode host.probe (b.traceBuffer ctx) file (b.stop ctx) ts).snapshot.saved := by
    by_contra hneg
    exact hneg (h.failed (Int.not_le.mp hneg) ▸ hsaved)
  have hle : snapshotLen host.probe (b.traceBuffer ctx) buf.val (b.stop ctx) ts ≤ (b.traceBuffer ctx).bufsize :=
    Nat.le_trans (chooseSnapshotLen_sound host.probe buf.val _ ts.sections).le (Nat.le_of_eq buf.property)
  obtain ⟨⟨primary, hsaves, hextends⟩, -, -⟩ := h
  rw [snapshotAndDecode_of_pos file hmapped hpos] at hworks hsaves
  have hextent := hwtCtxSnapshotBuffer_of_saved hmapped hpos hle hlt hworks
  simp only [hextent, Int.toNat_natCast, if_pos (Int.natCast_pos.mpr hpos)] at hsaves
  constructor
  · have hdecoded : primary.decoded = [_] := hsaves.decoded
    exact hdecoded ▸ hextends.decoded
  · have hfile : primary.files = [(out, _)] := hsaves.file _ rfl
    exact hfile ▸ hextends.files

end

end ObservableBSD.Trace.Session
