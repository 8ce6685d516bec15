import ObservableBSD.Trace.Lemmas.Drain
import ObservableBSD.Trace.Lemmas.SessionEvents
import ObservableBSD.Trace.Relay
import ObservableBSD.Trace.Replay

/-!
# The parts of a session

The drains, the loop of `exec` and the snapshot have models of their own, in which what comes from outside is an
argument. The protocols here follow the calls of a session in the terms of these models.
-/

namespace ObservableBSD.Trace.Session

open Base Elf Decode

/-! ## The drains -/

/-- A call on the context: a poll with the records that it hands over, the `open` of a device, or an ioctl. -/
inductive ContextCall where
  | recordGet (records : List BsdtraceRecord)
  | openDevice (path : CString)
  | wakeup
  | stop
deriving DecidableEq

/-- A call of the drains, on the context with this number. -/
def contextCall (ident : Int32) : HwtCall → ContextCall
  | .recordGet records => .recordGet records
  | .openThread threadId => .openDevice (devicePath ident threadId)
  | .wakeup => .wakeup
  | .stop => .stop

/-- The call on the context that a call of the session makes. A poll that fails is none. -/
def contextCalls : (c : SysCall) → c.Answer → List ContextCall
  | .recordGet .. => fun (ans : Option (List BsdtraceRecord)) =>
      (ans.map fun entries => .recordGet (entries.map recordOfEntry)).toList
  | .openDevice path => fun _ => [.openDevice path]
  | .wakeup _ => fun _ => [.wakeup]
  | .stop _ => fun _ => [.stop]
  | _ => fun _ => []

/-- The sections that a call runs the decoder on. -/
def decodedSections : SysCall → List (List PtImageInfo)
  | .decodePtInsn _ _ sections .. => [sections]
  | _ => []

/-- The calls on the context, and the sections of each run of the decoder. -/
structure Trail where
  calls : List ContextCall := []
  decoded : List (List PtImageInfo) := []

def Trail.next (t : Trail) (c : SysCall) (ans : c.Answer) : Trail :=
  ⟨t.calls ++ contextCalls c ans, t.decoded ++ decodedSections c⟩

/-- Every call is allowed, and every answer possible. -/
abbrev trail : Protocol sys where
  State := Trail
  allows := fun _ _ => True
  answers := fun _ _ _ => True
  next := Trail.next

/-- The context in the model of the drains, when these calls have been made on it. -/
def HwtCtx.drained (ctx : HwtCtx) (calls : List HwtCall) : Trace.HwtCtx where
  tid := ctx.tid
  allThreads := ctx.allThreads
  requestedTids := ctx.requestedTids
  threads := ctx.threads.map (·.threadId)
  calls

/-- The session is where the drains are. Since they began on the context `ctx₀`, behind the calls `front`, only the
threads of the context have changed. -/
structure Mirrors (ctx₀ : HwtCtx) (front : List ContextCall) (st : DrainState) (ctx : HwtCtx) (ts : TraceState)
    (t : Trail) : Prop where
  same : ctx = { ctx₀ with threads := ctx.threads }
  ctx : st.ctx = ctx.drained st.ctx.calls
  ts : st.ts = ts
  calls : t.calls = front ++ st.ctx.calls.map (contextCall ctx₀.ident)
  decoded : t.decoded = []

/-- A session whose drains are `s`, and whose trace state is that of `run`: the calls on its context are those of the
drains, between the devices opened in front of them and the stop of the cleanup, and its decoder is run on the sections
of the trace state only. -/
structure DrainsAs (opts : SessionOpts) (t : Trail) (ident : Int32) (s : DrainSession) (run : TraceSession) : Prop where
  threads : s.tid = opts.tid ∧ s.allThreads = opts.allThreads ∧ s.requestedTids = opts.requestedTids
  pauses : s.pauseOnMmap = opts.pauseOnMmap
  kernel : run.osTrace = opts.osTrace
  start : s.ts = run.start
  records : s.records = run.records
  calls : ∃ paths : List CString, t.calls = paths.map .openDevice ++ s.run.ctx.calls.map (contextCall ident) ++ [.stop]
  decoded : ∀ sections ∈ t.decoded, sections = run.finalize.sections

/-- No record was asked for, and nothing decoded. -/
structure Trail.Untraced (t : Trail) : Prop where
  calls : ∀ records, .recordGet records ∉ t.calls
  decoded : t.decoded = []

/-- What a session that has returned leaves: it never traced, or its drains are those of the model. -/
def Trail.Settled (opts : SessionOpts) (t : Trail) : Prop :=
  t.Untraced ∨ ∃ ident s run, DrainsAs opts t ident s run

/-! ## The loop of `exec` -/

/-- The calls of the loop since tracing was started. -/
structure ChildLog where
  started : Bool := false
  calls : List ExecCall := []

def ChildLog.Reaped (l : ChildLog) : Prop := ∃ status, .reap status ∈ l.calls

def ChildLog.add (l : ChildLog) (c : ExecCall) : ChildLog := { l with calls := l.calls ++ [c] }

/-- `waitpid` gives a status once only, and without `WNOHANG` it gives one then. -/
def ChildLog.Answers (l : ChildLog) : (c : SysCall) → c.Answer → Prop
  | .waitpid _ option => fun (ans : WaitAnswer) => match ans with
      | .exited _ => ¬ l.Reaped
      | _ => option = .block → l.Reaped
  | _ => fun _ => True

def ChildLog.next (l : ChildLog) : (c : SysCall) → c.Answer → ChildLog
  | .start _ => fun (ans : Bool) => if ans then { started := true } else l
  | .kill _ .kill => fun _ => l.add .kill
  | .waitpid .. => fun (ans : WaitAnswer) => match ans with
      | .exited status => l.add (.reap status)
      | _ => l
  | .recordGet .. => fun (ans : Option (List BsdtraceRecord)) => if ans.isSome then l else l.add .pollFailed
  | _ => fun _ => l

abbrev childLog : Protocol sys where
  State := ChildLog
  allows := fun _ _ => True
  answers := ChildLog.Answers
  next := ChildLog.next

/-- The loop of the session is where that of the model is. -/
structure LoopMirrors (l : ChildLog) (st : ExecLoop) (m : ExecState) : Prop where
  started : l.started = true
  device : st.poll.ctx.ctxFd.isSome = true
  calls : l.calls = m.calls
  reaped : l.Reaped ↔ m.reaped = true
  childDone : st.childDone = m.childDone
  exitcode : st.exitcode = m.exitcode
  totalrecords : st.poll.totalrecords = m.totalrecords
  emptyDrains : st.poll.emptyDrains = m.emptyDrains

def SessionOpts.loopOpts (opts : SessionOpts) : ExecOpts where
  duration := opts.duration
  maxrecords := opts.maxrecords

/-- A session of `exec` that has returned `code` never traced, or it ran the loop as it is modelled; only polls are left
behind the loop. -/
def LoopsAs (opts : SessionOpts) (code : Int) (l : ChildLog) : Prop :=
  l.started = false ∨ ∃ rounds awaited m n, Trace.cmdExec opts.loopOpts rounds awaited = some m ∧ m.exitcode = code ∧
    l.calls = m.calls ++ List.replicate n .pollFailed

/-! ## The snapshot -/

/-- The memory, where the buffer of a device is mapped to, and the position at which its trace ends. -/
structure Buffers where
  mem : Nat → UInt8
  mapping : Fd → Option Nat
  position : Fd → Option (Int32 × UInt64)

/-- The output files, the newest first, and what the decoder was run on. -/
structure Saving where
  files : List (CString × List UInt8) := []
  decoded : List (List UInt8) := []

/-- What is written goes to the file that was opened last, when the descriptor is open on its path. -/
def Saving.write (s : Saving) (path : Option CString) (bytes : List UInt8) : Saving :=
  match s.files with
  | [] => s
  | (newest, front) :: files => if path = some newest then { s with files := (newest, front ++ bytes) :: files } else s

/-- The buffers stay as they are, a descriptor is open on its path, and no write takes more than it was given. -/
def Buffers.Answers (b : Buffers) : (c : SysCall) → c.Answer → Prop
  | .mmap _ fd => fun (ans : Option Nat) => ans = b.mapping fd
  | .bufptrGet fd => fun (ans : Option (Int32 × UInt64)) => ans = b.position fd
  | .load addr len => fun (ans : { bytes : List UInt8 // bytes.length = len }) => ans.val = memBytes b.mem addr len
  | .openOutput path => fun (ans : Option Fd) => ∀ fd, ans = some fd → fd.path = some path
  | .write _ _ len => fun (ans : Option Nat) => ∀ n, ans = some n → n ≤ len
  | _ => fun _ => True

def Saving.next (b : Buffers) (s : Saving) : (c : SysCall) → c.Answer → Saving
  | .openOutput path => fun (ans : Option Fd) => if ans.isSome then { s with files := (path, []) :: s.files } else s
  | .write fd addr _ => fun (ans : Option Nat) => match ans with
      | some n => s.write fd.path (memBytes b.mem addr n)
      | none => s
  | .decodePtInsn addr len .. => fun _ => { s with decoded := s.decoded ++ [memBytes b.mem addr len] }
  | _ => fun _ => s

abbrev saving (b : Buffers) : Protocol sys where
  State := Saving
  allows := fun _ _ => True
  answers := fun _ => b.Answers
  next := Saving.next b

/-- The address of the context's buffer, when it is mapped or can be. -/
def Buffers.mapped (b : Buffers) (ctx : HwtCtx) : Option Nat :=
  match ctx.traceBuf with
  | some addr => some addr
  | none => ctx.ctxFd.bind b.mapping

/-- The context's buffer in the model. -/
def Buffers.traceBuffer (b : Buffers) (ctx : HwtCtx) : TraceBuffer where
  bufsize := ctx.bufsize.toNat
  mapped := (b.mapped ctx).map fun addr => ⟨memBytes b.mem addr ctx.bufsize.toNat, by simp [memBytes]⟩

/-- The position at which the trace of the context ends, when it can be read. -/
def Buffers.stop (b : Buffers) (ctx : HwtCtx) : Option (Int32 × UInt64) := ctx.ctxFd.bind b.position

/-- More was saved and decoded since, and no older file was written to. -/
structure Saving.Extends (s s' : Saving) : Prop where
  decoded : s.decoded <+: s'.decoded
  files : s.files <:+ s'.files

/-- What is saved and decoded is what the model saves and decodes. -/
structure Saving.SavesAs (s : Saving) (out : CString) (run : SnapshotRun) (s' : Saving) : Prop where
  decoded : s'.decoded = s.decoded ++ run.decoded.toList
  older : s.files <:+ s'.files
  file : ∀ bytes, run.snapshot.file = some bytes → s'.files = (out, bytes) :: s.files

/-- A snapshot saves and decodes the buffer of the context as the model does, and then what there is of other threads.
It fails when the model fails. -/
structure Saving.Snapshots (s : Saving) (out : CString) (run : SnapshotRun) (saved : Int) (s' : Saving) : Prop where
  first : ∃ primary, s.SavesAs out run primary ∧ primary.Extends s'
  atLeast : run.snapshot.saved ≤ saved
  failed : run.snapshot.saved < 0 → saved = run.snapshot.saved

/-! ## The calls of a run -/

/-- The calls of a session that has returned. -/
def SessionRun (host : Host) (opts : SessionOpts) (events : List SysEvent) : Prop :=
  (∃ pid code, (cmdTrace host opts pid).Runs events (some code)) ∨
    ∃ noAslr name args code, (cmdExec host opts noAslr name args).Runs events (some code)

/-- The calls on the context. -/
def calledOn (events : List SysEvent) : List ContextCall := events.flatMap fun e => contextCalls e.call e.answer

/-- The sections of each run of the decoder. -/
def decodedIn (events : List SysEvent) : List (List PtImageInfo) := events.flatMap fun e => decodedSections e.call

/-- The records that a call hands over. -/
def ContextCall.taken : ContextCall → List BsdtraceRecord
  | .recordGet records => records
  | _ => []

/-- A call that wakes the target. -/
def SysCall.wakes : SysCall → Bool
  | .wakeup _ => true
  | _ => false

/-- Every record that pauses the target is followed by a call that wakes it. -/
def Wakes {α : Type} (taken : α → List BsdtraceRecord) (wakes : α → Prop) (calls : List α) : Prop :=
  ∀ front c back, calls = front ++ c :: back → ∀ rec ∈ taken c, rec.pausesTarget = true → ∃ c' ∈ back, wakes c'

/-- The records that are handed over behind the first stop. -/
def handedOverLate (events : List SysEvent) : List BsdtraceRecord :=
  (events.dropWhile fun e => !e.call.stops).flatMap handedOver

end ObservableBSD.Trace.Session
