import ObservableBSD.Base.Splits
import ObservableBSD.Trace.Exec

/-!
# The child of `exec`
-/

namespace ObservableBSD.Trace

open Base

def KillsUnreaped (calls : List ExecCall) : Prop :=
  ∀ pre post, calls = pre ++ .kill :: post → ∀ status, .reap status ∉ pre

def reapCount (calls : List ExecCall) : Nat :=
  calls.countP fun c => match c with
    | .reap _ => true
    | _ => false

theorem killsUnreaped_concat {calls : List ExecCall} {c : ExecCall} :
    KillsUnreaped (calls ++ [c]) ↔
      KillsUnreaped calls ∧ (c = .kill → ∀ status, .reap status ∉ calls) := by
  have hsplit : ∀ l : List ExecCall, KillsUnreaped l ↔
      ∀ pre d post, l = pre ++ d :: post → d = .kill → ∀ status, .reap status ∉ pre :=
    fun l => ⟨fun h pre d post he hd => h pre post (hd ▸ he), fun h pre post he => h pre _ post he rfl⟩
  rw [hsplit, hsplit]
  exact forall_split_concat

theorem killsUnreaped_nil : KillsUnreaped [] := by
  intro pre post he
  simp at he

/-- The log and the variables agree on whether the child has been reaped, and on its exit code while no
poll has failed. -/
structure ExecState.Ok (st : ExecState) : Prop where
  done : st.reaped = st.childDone
  count : reapCount st.calls = st.childDone.toNat
  code : st.childDone = true → .pollFailed ∉ st.calls → ∃ status, .reap status ∈ st.calls ∧
    st.exitcode = exitCodeOf status

theorem reapCount_concat (calls : List ExecCall) (c : ExecCall) :
    reapCount (calls ++ [c]) = reapCount calls + reapCount [c] := by
  simp [reapCount, List.countP_append]

theorem reapCount_eq_zero {calls : List ExecCall} (h : reapCount calls = 0) :
    ∀ status, .reap status ∉ calls := by
  intro status hmem
  exact absurd rfl ((List.countP_eq_zero.mp h) _ hmem)

theorem exists_reap {calls : List ExecCall} (h : reapCount calls = 1) :
    ∃ status, .reap status ∈ calls := by
  have hpos : 0 < reapCount calls := by omega
  obtain ⟨c, hmem, hc⟩ := List.countP_pos_iff.mp hpos
  cases c with
  | reap status => exact ⟨status, hmem⟩
  | _ => cases hc

theorem reapCount_append_polls (calls : List ExecCall) (n : Nat) :
    reapCount (calls ++ List.replicate n .pollFailed) = reapCount calls := by
  simp [reapCount, List.countP_append, List.countP_replicate]

theorem killsUnreaped_append_polls {calls : List ExecCall} (n : Nat) :
    KillsUnreaped (calls ++ List.replicate n .pollFailed) ↔ KillsUnreaped calls := by
  induction n with
  | zero => simp
  | succ n ih =>
      rw [List.replicate_succ', ← List.append_assoc, killsUnreaped_concat, ih]
      simp

/-! ## The calls -/

theorem ExecState.Ok.no_reap {st : ExecState} (h : st.Ok) (hd : st.childDone = false) :
    ∀ status, .reap status ∉ st.calls :=
  reapCount_eq_zero (by rw [h.count, hd]; rfl)

theorem ExecState.Ok.append {st : ExecState} (h : st.Ok) {c : ExecCall} (hc : reapCount [c] = 0) :
    ExecState.Ok { st with calls := st.calls ++ [c] } where
  done := h.done
  count := by rw [reapCount_concat, hc, h.count]; rfl
  code := by
    intro hd hp
    obtain ⟨status, hmem, hcode⟩ := h.code hd fun hin => hp (List.mem_append_left _ hin)
    exact ⟨status, List.mem_append_left _ hmem, hcode⟩

theorem ExecState.Ok.kill_unreaped {st : ExecState} (h : st.Ok) (hk : KillsUnreaped st.calls) :
    KillsUnreaped st.kill.calls ↔ st.childDone = false := by
  rw [ExecState.kill, killsUnreaped_concat]
  constructor
  · rintro ⟨_, hnot⟩
    cases hd : st.childDone with
    | false => rfl
    | true =>
        obtain ⟨status, hmem⟩ := exists_reap (by rw [h.count, hd]; rfl)
        exact absurd hmem (hnot rfl status)
  · intro hd
    exact ⟨hk, fun _ => h.no_reap hd⟩

theorem ExecState.Ok.waitpid {st : ExecState} (h : st.Ok) (hd : st.childDone = false)
    (status : WaitStatus) :
    st.waitpid status =
      (some status, { st with reaped := true, calls := st.calls ++ [.reap status] }) := by
  rw [ExecState.waitpid, if_neg (by rw [h.done, hd]; decide)]

theorem ExecState.Ok.reaped {st : ExecState} (h : st.Ok) (hd : st.childDone = false) (status : WaitStatus)
    (hp : .pollFailed ∈ st.calls ∨ st.exitcode = exitCodeOf status) :
    ExecState.Ok { st with childDone := true, reaped := true, calls := st.calls ++ [.reap status] } where
  done := rfl
  count := by rw [reapCount_concat, h.count, hd]; rfl
  code := by
    intro _ hnot
    rcases hp with hp | hp
    · exact absurd (List.mem_append_left _ hp) hnot
    · exact ⟨status, by simp, hp⟩

theorem KillsUnreaped.append {calls : List ExecCall} (h : KillsUnreaped calls) {c : ExecCall}
    (hc : c ≠ .kill) : KillsUnreaped (calls ++ [c]) :=
  killsUnreaped_concat.mpr ⟨h, fun he => absurd he hc⟩

/-! ## One round -/

theorem checkChild_ok {st : ExecState} (h : st.Ok) (hk : KillsUnreaped st.calls)
    (exited : Option WaitStatus) :
    (st.checkChild exited).Ok ∧ KillsUnreaped (st.checkChild exited).calls := by
  cases exited with
  | none => exact ⟨h, hk⟩
  | some status =>
      cases hd : st.childDone with
      | true =>
          have hskip : st.checkChild (some status) = st := by
            rw [ExecState.checkChild, ExecState.waitpid, if_pos (by rw [h.done, hd])]
          rw [hskip]
          exact ⟨h, hk⟩
      | false =>
          have hset : ExecState.Ok { st with exitcode := exitCodeOf status } :=
            ⟨h.done, h.count, fun hdone => by rw [hd] at hdone; cases hdone⟩
          rw [ExecState.checkChild, h.waitpid hd]
          exact ⟨hset.reaped hd status (Or.inr rfl), hk.append (by simp)⟩

theorem pollError_ok {st : ExecState} (h : st.Ok) (hk : KillsUnreaped st.calls)
    (hd : st.childDone = false) (hp : .pollFailed ∈ st.calls) (awaited : WaitStatus) :
    (st.pollError awaited).Ok ∧ KillsUnreaped (st.pollError awaited).calls := by
  have hkill : st.kill.Ok := h.append rfl
  have hset : ∀ code, ExecState.Ok { st.kill with exitcode := code } := fun code =>
    ⟨hkill.done, hkill.count, fun hdone => by rw [show st.kill.childDone = false from hd] at hdone; cases hdone⟩
  rw [ExecState.pollError, hkill.waitpid hd]
  exact ⟨(hset _).reaped hd awaited (Or.inl (List.mem_append_left _ hp)),
    ((h.kill_unreaped hk).mpr hd).append (by simp)⟩

theorem drain_ok {st : ExecState} (h : st.Ok) (hk : KillsUnreaped st.calls) (nrecs : Nat) :
    (st.drain nrecs).1.Ok ∧ KillsUnreaped (st.drain nrecs).1.calls := by
  unfold ExecState.drain
  split
  · split
    · exact ⟨⟨h.done, h.count, h.code⟩, hk⟩
    · exact ⟨⟨h.done, h.count, h.code⟩, hk⟩
  · exact ⟨h, hk⟩

theorem execRound_ok {opts : ExecOpts} {st : ExecState} (h : st.Ok) (hk : KillsUnreaped st.calls)
    {round : ExecRound} (hb : boundReached opts round st = false) :
    (execRound opts st round).1.Ok ∧ KillsUnreaped (execRound opts st round).1.calls := by
  obtain ⟨hok, hkok⟩ := checkChild_ok h hk round.exited
  rw [execRound, if_neg (by rw [hb]; decide)]
  cases hp : round.poll with
  | none =>
      have hok' := hok.append (c := .pollFailed) rfl
      have hkok' := hkok.append (c := .pollFailed) (by simp)
      simp only
      split
      · exact ⟨hok', hkok'⟩
      · rename_i hd
        exact pollError_ok hok' hkok' (eq_false_of_ne_true hd) (by simp) round.awaited
  | some records =>
      have hemit : ((st.checkChild round.exited).emit records).Ok := ⟨hok.done, hok.count, hok.code⟩
      exact drain_ok hemit hkok records.length

/-- A round keeps the kills safe just if it does not reach a bound behind the exit of the child. -/
theorem execRound_unreaped {opts : ExecOpts} {st : ExecState} (h : st.Ok) (hk : KillsUnreaped st.calls)
    (round : ExecRound) :
    (execRound opts st round).1.Ok ∧ (KillsUnreaped (execRound opts st round).1.calls ↔
      (st.childDone = true → boundReached opts round st = false)) := by
  cases hb : boundReached opts round st with
  | false =>
      obtain ⟨hok, hkok⟩ := execRound_ok h hk hb
      exact ⟨hok, fun _ _ => rfl, fun _ => hkok⟩
  | true =>
      have hround : execRound opts st round = (st.kill, true) := by rw [execRound, if_pos hb]
      rw [hround]
      refine ⟨h.append rfl, (h.kill_unreaped hk).trans ?_⟩
      cases st.childDone <;> simp

/-! ## The loop -/

/-- No round of the loop that starts behind the exit of the child reaches a bound. -/
def NoBoundAfterExit (opts : ExecOpts) (rounds : List ExecRound) : Prop :=
  ∀ pre round post, rounds = pre ++ round :: post → (execLoop opts pre).2 = false →
    (execLoop opts pre).1.childDone = true → boundReached opts round (execLoop opts pre).1 = false

theorem execLoop_concat (opts : ExecOpts) (rounds : List ExecRound) (round : ExecRound) :
    execLoop opts (rounds ++ [round]) = execNext opts (execLoop opts rounds) round := by
  simp [execLoop]

theorem noBoundAfterExit_concat {opts : ExecOpts} {rounds : List ExecRound} {round : ExecRound} :
    NoBoundAfterExit opts (rounds ++ [round]) ↔ NoBoundAfterExit opts rounds ∧
      ((execLoop opts rounds).2 = false → (execLoop opts rounds).1.childDone = true →
        boundReached opts round (execLoop opts rounds).1 = false) :=
  forall_split_concat

theorem execRound_bound {opts : ExecOpts} {st : ExecState} {round : ExecRound}
    (h : (execRound opts st round).2 = false) : boundReached opts round st = false := by
  cases hb : boundReached opts round st with
  | false => rfl
  | true => rw [execRound, if_pos hb] at h; cases h

/-- In every run of the loop, the log is consistent, and the kills are safe just if no bound is reached
behind the exit of the child; while the loop goes on they are. -/
theorem execLoop_ok (opts : ExecOpts) (rounds : List ExecRound) :
    (execLoop opts rounds).1.Ok ∧
      ((execLoop opts rounds).2 = false → KillsUnreaped (execLoop opts rounds).1.calls) ∧
      (KillsUnreaped (execLoop opts rounds).1.calls ↔ NoBoundAfterExit opts rounds) := by
  induction rounds using List.reverseRecOn with
  | nil =>
      refine ⟨⟨rfl, rfl, fun h => by cases h⟩, fun _ => killsUnreaped_nil, fun _ => ?_, fun _ => killsUnreaped_nil⟩
      intro pre round post he
      simp at he
  | append_singleton rounds round ih =>
      obtain ⟨hok, hrun, hiff⟩ := ih
      rw [execLoop_concat, noBoundAfterExit_concat, execNext]
      cases hleft : (execLoop opts rounds).2 with
      | true => simpa [hleft] using ⟨hok, hiff⟩
      | false =>
          have hk := hrun hleft
          obtain ⟨hok', hiff'⟩ : (execRound opts (execLoop opts rounds).1 round).1.Ok ∧ _ :=
            execRound_unreaped hok hk round
          rw [if_neg (by simp)]
          refine ⟨hok', fun hnext => ?_, ?_⟩
          · exact (execRound_ok hok hk (execRound_bound hnext)).2
          · rw [hiff']
            exact ⟨fun h => ⟨hiff.mp hk, fun _ => h⟩, fun h => h.2 rfl⟩

/-- Behind the loop the child has been reaped once, and the exit code is that of its status unless a
poll has failed. -/
theorem execReap_ok {st : ExecState} (h : st.Ok) (awaited : WaitStatus) :
    reapCount (execReap st awaited).calls = 1 ∧
      (KillsUnreaped (execReap st awaited).calls ↔ KillsUnreaped st.calls) ∧
      (.pollFailed ∉ (execReap st awaited).calls → ∃ status,
        .reap status ∈ (execReap st awaited).calls ∧ (execReap st awaited).exitcode = exitCodeOf status) := by
  cases hd : st.childDone with
  | true =>
      have hkeep : execReap st awaited = st := if_pos hd
      rw [hkeep]
      exact ⟨by rw [h.count, hd]; rfl, Iff.rfl, h.code hd⟩
  | false =>
      have hreap : execReap st awaited = { st with
          reaped := true, calls := st.calls ++ [.reap awaited], exitcode := exitCodeOf awaited } := by
        rw [execReap, if_neg (by rw [hd]; decide), h.waitpid hd]
      rw [hreap]
      refine ⟨by rw [reapCount_concat, h.count, hd]; rfl, ?_, fun _ => ⟨awaited, by simp, rfl⟩⟩
      rw [killsUnreaped_concat]
      simp

/-- What holds when `cmd_exec` returns. -/
theorem cmdExec_ok {opts : ExecOpts} {rounds : List ExecRound} {awaited : WaitStatus} {st : ExecState}
    (h : cmdExec opts rounds awaited = some st) :
    reapCount st.calls = 1 ∧ (KillsUnreaped st.calls ↔ NoBoundAfterExit opts rounds) ∧
      (.pollFailed ∉ st.calls → ∃ status, .reap status ∈ st.calls ∧ st.exitcode = exitCodeOf status) := by
  obtain ⟨hok, _, hiff⟩ := execLoop_ok opts rounds
  obtain ⟨hcount, hkills, hcode⟩ := execReap_ok hok awaited
  unfold cmdExec at h
  cases hleft : (execLoop opts rounds).2 with
  | false => simp [hleft] at h
  | true =>
      obtain rfl : execReap (execLoop opts rounds).1 awaited = st := by simpa [hleft] using h
      exact ⟨hcount, hkills.trans hiff, hcode⟩

theorem noBoundAfterExit_of_unbounded {opts : ExecOpts} (hduration : opts.duration = 0)
    (hmaxrecords : opts.maxrecords = 0) (rounds : List ExecRound) : NoBoundAfterExit opts rounds := by
  intro pre round post _ _ _
  simp [boundReached, hduration, hmaxrecords]

end ObservableBSD.Trace
