import ObservableBSD.Trace.Lemmas.ReplaySession
import ObservableBSD.Trace.Lemmas.Session
import ObservableBSD.Trace.Lemmas.SessionEvents

/-!
# Results about tracing sessions
-/

namespace ObservableBSD.Trace.Session

open Base Decode Elf

/-- Whatever the kernel answers, both commands make only calls that the protocol allows, up to any point, and
hold nothing when they return: no descriptor, mapping or file is open, a stop has been asked for since the last start,
and no child is left. -/
theorem sessions_safe (host : Host) (opts : SessionOpts) :
    (∀ pid, held.Safe {} (cmdTrace host opts pid) fun _ w => w.Clean) ∧
      ∀ noAslr name args, held.Safe {} (cmdExec host opts noAslr name args) fun _ w => w.Clean :=
  ⟨cmdTrace_clean host opts, cmdExec_clean host opts⟩

/-- A kernel whose target exits in the first turn, and whose buffers cannot be mapped; its state counts the calls. -/
def quietKernel (n : Nat) : (c : SysCall) → c.Answer × Nat
  | .openDevice path | .openOutput path => (some ⟨n, some path⟩, n + 1)
  | .kqueue => (some ⟨n, none⟩, n + 1)
  | .alloc .. => (some 0, n + 1)
  | .setConfig .. | .start _ | .stop _ | .wakeup _ | .kldfind _ | .kill .. => (true, n + 1)
  | .recordGet .. => (some [], n + 1)
  | .bufptrGet _ => (none, n + 1)
  | .mmap .. => (none, n + 1)
  | .load _ len => (⟨List.replicate len 0, List.length_replicate⟩, n + 1)
  | .write _ _ len => (some len, n + 1)
  | .fopen _ => (some n, n + 1)
  | .fork .. => (some 7, n + 1)
  | .waitpid _ .untraced => (.stopped, n + 1)
  | .waitpid .. => (.exited (.exited 3), n + 1)
  | .clockGettime => (n, n + 1)
  | .interrupted | .statExecutable _ => (false, n + 1)
  | .hwtHooks => (some true, n + 1)
  | .cpuidTiming => ((0, 0), n + 1)
  | .vmmap _ => (none, n + 1)
  | .exePath _ | .getenvPath => (none, n + 1)
  | .kernBase => (none, n + 1)
  | .close _ | .munmap .. | .decodePtInsn .. | .fprintf .. | .fclose _ | .print .. | .printThread _ | .signal ..
  | .usleep _ => ((), n + 1)

def bareHost : Host := ⟨256, fun _ _ => ⟨-1, {}, fun _ => rfl⟩, fun _ => none⟩

/-- The session then returns the status of the child. -/
example : ∃ events, (cmdExec bareHost {} false (cstr "true") []).Runs events (some 3) :=
  have hcode : (Prog.play (I := sys) quietKernel 400 (cmdExec bareHost {} false (cstr "true") []) 0).2.1 = some 3 := by
    decide +kernel
  ⟨_, hcode ▸ Prog.play_runs (I := sys) quietKernel 400 (cmdExec bareHost {} false (cstr "true") []) 0⟩

/-! ## The calls in their order -/

/-- What is expected of the calls of a session up to any point: a successful configuration in front of every
start, a child that is resumed only under the trace, a stop between a start and any close, and signals to no pid but
that of the child, which may have been reaped. -/
structure Ordered (events : List SysEvent) : Prop where
  configured : ∀ front fd ans back, events = front ++ ⟨.start fd, ans⟩ :: back →
    ∃ fd' config pauseOnMmap, (⟨.setConfig fd' config pauseOnMmap, true⟩ : SysEvent) ∈ front
  resumed : ∀ front pid ans back, events = front ++ ⟨.kill pid .cont, ans⟩ :: back →
    ∃ before mid fd, front = before ++ ⟨.start fd, true⟩ :: mid ∧ ∀ e ∈ mid, e.call.stops = false
  stopped : ∀ front fd mid fd' ans back, events = front ++ ⟨.start fd, true⟩ :: (mid ++ ⟨.close fd', ans⟩ :: back) →
    ∃ e ∈ mid, e.call.stops = true
  own : ∀ front pid sig ans back, events = front ++ ⟨.kill pid sig, ans⟩ :: back → sig ≠ .null →
    ∃ args noAslr, (⟨.fork args noAslr, some pid⟩ : SysEvent) ∈ front

/-- What is given back is what was acquired: no descriptor, mapping or file is leaked, or given back twice. -/
structure Balanced (events : List SysEvent) : Prop where
  fds : (events.map releasedFds).sum = (events.map acquiredFds).sum
  maps : (events.map releasedMaps).sum = (events.map acquiredMaps).sum
  files : (events.map releasedFiles).sum = (events.map acquiredFiles).sum

theorem ordered_of_obeyed {events : List SysEvent} (h : held.Obeyed {} events) : Ordered events where
  configured := by
    rintro front fd ans back rfl
    have hallows : World.Allows (held.after {} front) (.start fd) := h.allows
    exact after_configured rfl front hallows.2.1
  resumed := by
    rintro front pid ans back rfl
    have hallows : World.Allows (held.after {} front) (.kill pid .cont) := h.allows
    obtain ⟨child, -, -, -, hrunning⟩ := hallows
    exact after_running rfl front hrunning
  stopped := by
    rintro front fd mid fd' ans back rfl
    by_contra hnone
    have hmid : ∀ e ∈ mid, e.call.stops = false := by
      intro e he
      by_contra hstops
      exact hnone ⟨e, he, by simpa using hstops⟩
    have hsplit : front ++ ⟨.start fd, true⟩ :: (mid ++ ⟨.close fd', ans⟩ :: back) =
        (front ++ ⟨.start fd, true⟩ :: mid) ++ ⟨.close fd', ans⟩ :: back := by simp
    rw [hsplit] at h
    have hallows : World.Allows (held.after {} (front ++ ⟨.start fd, true⟩ :: mid)) (.close fd') := h.allows
    rw [Protocol.after_append] at hallows
    have hrunning := after_stays_running (w := World.next (held.after {} front) (.start fd) true) hmid rfl
    exact Bool.false_ne_true (hallows.2.symm.trans hrunning)
  own := by
    rintro front pid sig ans back rfl hsig
    have hallows : World.Allows (held.after {} front) (.kill pid sig) := h.allows
    have hchild : ∃ child, (held.after {} front).phase.child = some child ∧ child.pid = pid := by
      cases sig with
      | null => exact absurd rfl hsig
      | kill | cont =>
          obtain ⟨child, hchild, hpid, -⟩ := hallows
          exact ⟨child, hchild, hpid⟩
      | int | pipe => exact hallows.elim
    obtain ⟨child, hchild, rfl⟩ := hchild
    exact after_child rfl front hchild

theorem balanced_of_clean {events : List SysEvent} (h : held.Obeyed {} events) (hclean : (held.after {} events).Clean) :
    Balanced events where
  fds := by
    have hsum := Obeyed.balanced (fun _ e => next_fds e) h
    rwa [hclean.fds, zero_add, show World.fds {} = 0 from rfl, add_zero] at hsum
  maps := by
    have hsum := Obeyed.balanced (fun _ e => next_maps e) h
    rwa [hclean.maps, zero_add, show World.maps {} = 0 from rfl, add_zero] at hsum
  files := by
    have hsum := Obeyed.balanced (fun _ e => next_files e) h
    rwa [hclean.files, zero_add, show World.files {} = 0 from rfl, add_zero] at hsum

/-- Every run of a session is ordered, and balanced once it has returned. -/
def RunsInOrder (p : Prog sys Int) : Prop :=
  ∀ events out, p.Runs events out → held.Answered {} events → Ordered events ∧ (out.isSome = true → Balanced events)

theorem runsInOrder_of_safe {p : Prog sys Int} (h : held.Safe {} p fun _ w => w.Clean) : RunsInOrder p := by
  intro events out hruns hanswered
  obtain ⟨hobeyed, hclean⟩ := h hruns hanswered
  refine ⟨ordered_of_obeyed hobeyed, fun hout => ?_⟩
  obtain ⟨code, rfl⟩ := Option.isSome_iff_exists.mp hout
  exact balanced_of_clean hobeyed (hclean code rfl)

theorem sessions_runInOrder (host : Host) (opts : SessionOpts) :
    (∀ pid, RunsInOrder (cmdTrace host opts pid)) ∧
      ∀ noAslr name args, RunsInOrder (cmdExec host opts noAslr name args) :=
  ⟨fun pid => runsInOrder_of_safe (cmdTrace_clean host opts pid), fun noAslr name args =>
    runsInOrder_of_safe (cmdExec_clean host opts noAslr name args)⟩

/-!
## Sessions can be decoded again

`trace` and `exec` decode what they have recorded, and save it. `decode`, run on the saved files, gives the
decoder the same bytes, sections and settings.
-/

variable {mem : Nat → UInt8} {d : Disk}

end ObservableBSD.Trace.Session
