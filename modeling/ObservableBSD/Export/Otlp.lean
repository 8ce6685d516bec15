import ObservableBSD.Export.Event

/-!
# The OTLP exporter

`OTLPHTTPJSONExporter` collects log records, metric snapshots and dropped records under a lock. This file
has its lock-protected sections, and a ledger of what went in and what was taken out by them.
-/

namespace ObservableBSD.Export

/-- `AttributeValue`; a double is kept as its bits. -/
inductive AttributeValue where
  | string (s : Text)
  | int (n : Int64)
  | double (bits : UInt64)
deriving DecidableEq

structure LogRecord where
  timeUnixNano : UInt64
  severityNumber : Int
  body : Text
  attributes : List (Text × AttributeValue)
deriving DecidableEq

/-- The constants of an exporter that the sections read. -/
structure OtlpConfig where
  scopeName : Text
  profileName : Text
  batchSize : Int := 200

/-- The fields behind the lock. The addition to `pendingDrops` traps at 2^64. -/
structure OtlpExporter where
  batch : List LogRecord := []
  metricsBatch : List AggregationSnapshot := []
  pendingDrops : Nat := 0

/-- A call of `postBatch` or of `postMetrics`. -/
inductive Post where
  | logs (records : List LogRecord) (drops : Nat)
  | metrics (snapshots : List AggregationSnapshot)
deriving DecidableEq

def dateToUnixNano (date : Int) : UInt64 := if date < 0 then 0 else UInt64.ofNat date.toNat

def buildAttributes (cfg : OtlpConfig) (event : ProbeEvent) : List (Text × AttributeValue) :=
  [(cfg.scopeName ++ text ".profile", .string event.profileName),
    (cfg.scopeName ++ text ".probe", .string event.probeName),
    (text "process.pid", .int event.pid.toInt64),
    (text "process.executable.name", .string event.execname)]

/-- The record of an event; an event without a body has none. -/
def logRecord? (cfg : OtlpConfig) (event : ProbeEvent) : Option LogRecord :=
  let body := event.printfBody.getD []
  if body = [] then none
  else some
    { timeUnixNano := dateToUnixNano event.timestamp
      severityNumber := 9
      body
      attributes := buildAttributes cfg event }

/-! ## Lock-protected sections -/

def OtlpExporter.reportDrops (x : OtlpExporter) (count : Nat) : OtlpExporter :=
  { x with pendingDrops := x.pendingDrops + count }

/-- The section of `emit(event:)`, with the batch and the drops that are left to `asyncPost`. -/
def OtlpExporter.append (cfg : OtlpConfig) (x : OtlpExporter) (record : LogRecord) :
    OtlpExporter × Option (List LogRecord × Nat) :=
  let batch := x.batch ++ [record]
  if cfg.batchSize ≤ batch.length then
    ({ x with batch := [], pendingDrops := 0 }, some (batch, x.pendingDrops))
  else ({ x with batch }, none)

/-- The section of `emit(snapshot:)`. -/
def OtlpExporter.appendSnapshot (x : OtlpExporter) (snapshot : AggregationSnapshot) : OtlpExporter :=
  { x with metricsBatch := x.metricsBatch ++ [snapshot] }

/-- The section of `flush` and of `timerFlush`: everything is taken. -/
def OtlpExporter.takeAll (x : OtlpExporter) :
    OtlpExporter × List LogRecord × List AggregationSnapshot × Nat :=
  ({ batch := [], metricsBatch := [], pendingDrops := 0 }, x.batch, x.metricsBatch, x.pendingDrops)

/-- What `flush` and `timerFlush` post of what they have taken. -/
def takenPosts (logs : List LogRecord) (metrics : List AggregationSnapshot) (drops : Nat) : List Post :=
  (if logs = [] then [] else [.logs logs drops]) ++ (if metrics = [] then [] else [.metrics metrics])

/-! ## Runs of sections -/

/-- The calls whose sections interleave. -/
inductive OtlpCall where
  | reportDrops (count : Nat)
  | emitEvent (event : ProbeEvent)
  | emitSnapshot (snapshot : AggregationSnapshot)
  | timerFlush
  | flush

/-- The exporter, with what was given to it and what was taken from it. -/
structure OtlpLedger where
  exporter : OtlpExporter := {}
  reported : Nat := 0
  events : List ProbeEvent := []
  snapshots : List AggregationSnapshot := []
  taken : List (List LogRecord × Nat) := []
  takenMetrics : List (List AggregationSnapshot) := []

def OtlpLedger.reportDrops (l : OtlpLedger) (count : Nat) : OtlpLedger :=
  { l with exporter := l.exporter.reportDrops count, reported := l.reported + count }

/-- `emit(event:)` up to the end of its section. -/
def OtlpLedger.emitEvent (cfg : OtlpConfig) (l : OtlpLedger) (event : ProbeEvent) :
    OtlpLedger × Option (List LogRecord × Nat) :=
  let l := { l with events := l.events ++ [event] }
  match logRecord? cfg event with
  | none => (l, none)
  | some record =>
      let r := l.exporter.append cfg record
      ({ l with exporter := r.1, taken := l.taken ++ r.2.toList }, r.2)

/-- `emit(snapshot:)`. -/
def OtlpLedger.emitSnapshot (l : OtlpLedger) (snapshot : AggregationSnapshot) : OtlpLedger :=
  let l := { l with snapshots := l.snapshots ++ [snapshot] }
  if snapshot.dataPoints = [] then l
  else { l with exporter := l.exporter.appendSnapshot snapshot }

/-- `flush` and `timerFlush` up to the end of their section, with the posts that are left to make. -/
def OtlpLedger.takeAll (l : OtlpLedger) : OtlpLedger × List Post :=
  let (exporter, logs, metrics, drops) := l.exporter.takeAll
  ({ l with
      exporter
      taken := l.taken ++ [(logs, drops)]
      takenMetrics := l.takenMetrics ++ [metrics] },
    takenPosts logs metrics drops)

def OtlpLedger.call (cfg : OtlpConfig) (l : OtlpLedger) : OtlpCall → OtlpLedger
  | .reportDrops count => l.reportDrops count
  | .emitEvent event => (l.emitEvent cfg event).1
  | .emitSnapshot snapshot => l.emitSnapshot snapshot
  | .timerFlush | .flush => l.takeAll.1

def otlpRun (cfg : OtlpConfig) (calls : List OtlpCall) : OtlpLedger := calls.foldl (OtlpLedger.call cfg) {}

/-- The drops of the log batches handed to `postBatch` or to `asyncPost`: an empty batch is not. -/
def handedDrops : List (List LogRecord × Nat) → Nat
  | [] => 0
  | (logs, drops) :: taken => (if logs = [] then 0 else drops) + handedDrops taken

end ObservableBSD.Export
