import Mathlib.Algebra.GroupWithZero.Nat
import Mathlib.Data.List.Basic
import ObservableBSD.Export.Otlp

/-!
# The exporter's threads

Callers of `emit` and of `flush`, the timer, the serial sender queue with its worker, and one call of
`shutdown`. Between its lock-protected section and its posts a call is in progress, so the steps of the
others come in between. The queue is first in, first out, and a cancelled timer fires no more. A post is
one step here: its tries and the waits between them, which need not end, are those of `post`.
-/

namespace ObservableBSD.Export

/-- What is put on the sender queue: the batch of an `asyncPost`, the handler of the timer, the empty
block of `shutdown`. -/
inductive Job where
  | post (records : List LogRecord) (drops : Nat)
  | timerFlush
  | barrier

/-- How far `shutdown` has come. The last phase holds the posts that calls of `flush` in progress have not
made when the session is invalidated. -/
inductive Phase where
  | running
  | cancelled
  | waiting
  | synced
  | flushing (posts : List Post)
  | invalidated (held : List Post)

def Phase.isRunning : Phase → Bool
  | .running => true
  | _ => false

def Phase.isLive : Phase → Bool
  | .invalidated _ => false
  | _ => true

/-- The exporter, the calls in progress, the queue, and the posts made before the session is
invalidated. `handoffs` are the batches that calls of `emit` have taken and not yet put on the queue,
`flushes` the posts left to calls of `flush`, `worker` those left to the running job. `overlap` says that
a call of `flush` was in progress after `shutdown` was called. -/
structure OtlpSystem where
  ledger : OtlpLedger := {}
  handoffs : List (List LogRecord × Nat) := []
  flushes : List (List Post) := []
  queue : List Job := []
  worker : Option (List Post) := none
  timerLive : Bool := false
  phase : Phase := .running
  posted : List Post := []
  overlap : Bool := false

/-- One step of one thread. -/
inductive OtlpSystem.Step (cfg : OtlpConfig) : OtlpSystem → OtlpSystem → Prop where
  /-- `start`, with a positive flush interval. -/
  | start {s} : s.phase.isRunning = true → Step cfg s { s with timerLive := true }
  | reportDrops {s} (count : Nat) : Step cfg s { s with ledger := s.ledger.reportDrops count }
  /-- The section of `emit(event:)`. -/
  | emitEvent {s} (event : ProbeEvent) : s.phase.isRunning = true →
      Step cfg s { s with
        ledger := (s.ledger.emitEvent cfg event).1
        handoffs := s.handoffs ++ (s.ledger.emitEvent cfg event).2.toList }
  /-- A caller of `emit(event:)` reaches `asyncPost`. -/
  | asyncPost {s pre t post} : s.handoffs = pre ++ t :: post →
      Step cfg s { s with handoffs := pre ++ post, queue := s.queue ++ [.post t.1 t.2] }
  | emitSnapshot {s} (snapshot : AggregationSnapshot) : s.phase.isRunning = true →
      Step cfg s { s with ledger := s.ledger.emitSnapshot snapshot }
  | flush {s} : Step cfg s { s with
      ledger := s.ledger.takeAll.1
      flushes := s.flushes ++ [s.ledger.takeAll.2]
      overlap := s.overlap || !s.phase.isRunning }
  | flushPost {s pre p posts post} : s.flushes = pre ++ (p :: posts) :: post →
      Step cfg s { s with
        flushes := pre ++ posts :: post
        posted := if s.phase.isLive then s.posted ++ [p] else s.posted }
  | flushReturn {s pre post} : s.flushes = pre ++ [] :: post → Step cfg s { s with flushes := pre ++ post }
  /-- The timer fires: its handler is put on the queue. -/
  | tick {s} : s.timerLive = true → Step cfg s { s with queue := s.queue ++ [.timerFlush] }
  /-- A handler that is still queued when the timer is cancelled may not run. -/
  | tickCancelled {s rest} : s.timerLive = false → s.worker = none → s.queue = .timerFlush :: rest →
      Step cfg s { s with queue := rest }
  | runPost {s records drops rest} : s.worker = none → s.queue = .post records drops :: rest →
      Step cfg s { s with queue := rest, worker := some [.logs records drops] }
  | runTimerFlush {s rest} : s.worker = none → s.queue = .timerFlush :: rest →
      Step cfg s { s with
        queue := rest
        ledger := s.ledger.takeAll.1
        worker := some s.ledger.takeAll.2 }
  | workerPost {s p posts} : s.worker = some (p :: posts) →
      Step cfg s { s with worker := some posts, posted := s.posted ++ [p] }
  | workerDone {s} : s.worker = some [] → Step cfg s { s with worker := none }
  /-- `flushTimer?.cancel()`: no call of `emit` is in progress, and none comes later. -/
  | shutdownCancel {s} : s.phase.isRunning = true → s.handoffs = [] →
      Step cfg s { s with
        phase := .cancelled
        timerLive := false
        overlap := s.overlap || !s.flushes.isEmpty }
  /-- `senderQueue.sync`. -/
  | shutdownSync {s} : s.phase = .cancelled →
      Step cfg s { s with phase := .waiting, queue := s.queue ++ [.barrier] }
  | shutdownSynced {s rest} : s.phase = .waiting → s.worker = none → s.queue = .barrier :: rest →
      Step cfg s { s with phase := .synced, queue := rest }
  /-- The section of the `flush` in `shutdown`. -/
  | shutdownFlush {s} : s.phase = .synced →
      Step cfg s { s with
        phase := .flushing s.ledger.takeAll.2
        ledger := s.ledger.takeAll.1 }
  | shutdownPost {s p posts} : s.phase = .flushing (p :: posts) →
      Step cfg s { s with phase := .flushing posts, posted := s.posted ++ [p] }
  /-- `session.invalidateAndCancel()`. -/
  | shutdownDone {s} : s.phase = .flushing [] →
      Step cfg s { s with phase := .invalidated s.flushes.flatten }

inductive OtlpSystem.Reachable (cfg : OtlpConfig) : OtlpSystem → Prop where
  | init : Reachable cfg {}
  | step {s s'} : Reachable cfg s → OtlpSystem.Step cfg s s' → Reachable cfg s'

/-- What is posted of the batches taken so far: the empty ones are not. -/
def OtlpLedger.posts (l : OtlpLedger) : List Post :=
  (l.taken.filter fun t => t.1 ≠ []).map (fun t => Post.logs t.1 t.2) ++
    (l.takenMetrics.filter fun m => m ≠ []).map Post.metrics

/-!
## One thread that calls the exporter

The run loop of a tool makes its calls one after the other, and `shutdown` last. The timer and the sender queue go on
at any time.
-/

/-- No call of `emit` or of `flush` is in progress. -/
structure OtlpSystem.Idle (s : OtlpSystem) : Prop where
  handoffs : s.handoffs = []
  flushes : s.flushes = []

/-- The first step of a call. -/
inductive OtlpSystem.Begins (cfg : OtlpConfig) (s : OtlpSystem) : OtlpCall → OtlpSystem → Prop where
  | reportDrops (count : Nat) : Begins cfg s (.reportDrops count) { s with ledger := s.ledger.reportDrops count }
  | emitEvent (event : ProbeEvent) : Begins cfg s (.emitEvent event)
      { s with
        ledger := (s.ledger.emitEvent cfg event).1
        handoffs := s.handoffs ++ (s.ledger.emitEvent cfg event).2.toList }
  | emitSnapshot (snapshot : AggregationSnapshot) : Begins cfg s (.emitSnapshot snapshot)
      { s with ledger := s.ledger.emitSnapshot snapshot }
  | flush : Begins cfg s .flush
      { s with
        ledger := s.ledger.takeAll.1
        flushes := s.flushes ++ [s.ledger.takeAll.2]
        overlap := s.overlap || !s.phase.isRunning }

/-- A step that begins no call; `shutdown` waits for the call of `flush` before it. -/
structure OtlpSystem.Goes (cfg : OtlpConfig) (s s' : OtlpSystem) : Prop where
  step : OtlpSystem.Step cfg s s'
  inner : ∀ c, ¬ OtlpSystem.Begins cfg s c s'
  last : s.phase.isRunning = true → s'.phase.isRunning = false → s.flushes = []

/-- The thread has begun these calls, each when the one before it had returned. -/
inductive OtlpSystem.Driven (cfg : OtlpConfig) : List OtlpCall → OtlpSystem → Prop where
  | init : Driven cfg [] {}
  | call {calls s c s'} : Driven cfg calls s → s.phase.isRunning = true → s.Idle → OtlpSystem.Begins cfg s c s' →
      Driven cfg (calls ++ [c]) s'
  | goes {calls s s'} : Driven cfg calls s → OtlpSystem.Goes cfg s s' → Driven cfg calls s'

/-! ## What the calls give -/

def OtlpCall.drops : OtlpCall → Nat
  | .reportDrops count => count
  | _ => 0

def OtlpCall.event? : OtlpCall → Option ProbeEvent
  | .emitEvent event => some event
  | _ => none

def OtlpCall.snapshot? : OtlpCall → Option AggregationSnapshot
  | .emitSnapshot snapshot => some snapshot
  | _ => none

/-- What the exporter was given is what the calls gave it, in their order. -/
structure OtlpLedger.GivenBy (l : OtlpLedger) (calls : List OtlpCall) : Prop where
  events : l.events = calls.filterMap OtlpCall.event?
  snapshots : l.snapshots = calls.filterMap OtlpCall.snapshot?
  reported : l.reported = (calls.map OtlpCall.drops).sum

end ObservableBSD.Export
