import ObservableBSD.Base.Upsert
import ObservableBSD.Export.Collector
import ObservableBSD.Export.Envelope
import ObservableBSD.Instruments.KeyNames
import ObservableBSD.Instruments.Segments
import ObservableBSD.Instruments.WatchRunner

/-!
# Aggregations as snapshots

At the end of a session `runStructuredBackend` walks the records of the aggregations, and collects the points of one
name and one kind in one snapshot.
-/

namespace ObservableBSD.Instruments

open Base Export

/-- `DTraceHandle.AggregationAction`. -/
inductive AggregationAction where
  | count
  | sum
  | min
  | max
  | avg
  | stddev
  | quantize
  | lquantize
  | llquantize
deriving DecidableEq

/-- What `aggregateWalkTyped` hands over of a record. -/
structure AggregationRecord where
  name : Text
  action : AggregationAction
  keys : List Text
  value : Int64 := 0
  buckets : List HistogramBucket := []

def mapAction : AggregationAction → AggregationKind
  | .count => .count
  | .sum => .sum
  | .min => .min
  | .max => .max
  | .avg => .avg
  | .stddev => .stddev
  | .quantize => .quantize
  | .lquantize => .lquantize
  | .llquantize => .llquantize

def AggregationAction.isHistogram : AggregationAction → Bool
  | .quantize | .lquantize | .llquantize => true
  | _ => false

/-- The point of a record. The keys of a point with attributes are their values. -/
def dataPoint (aggKeyNames : Text → Option (List Text)) (record : AggregationRecord) : DataPoint :=
  let attrs := recordAttributes aggKeyNames record.name record.keys
  { keys := attrs.map (·.2)
    attributes := attrs
    value := if record.action.isHistogram then .histogram record.buckets else .scalar record.value }

/-- The key of the dictionary of snapshots. -/
def snapshotKey (name : Text) (kind : AggregationKind) : Text := name ++ ':' :: kind.rawValue

def AggregationRecord.key (record : AggregationRecord) : Text := snapshotKey record.name (mapAction record.action)

/-- The dictionary, and the readings of the clock. -/
structure AggregationWalk where
  dates : Nat
  snapshots : List (Text × AggregationSnapshot) := []

def addPoint (point : DataPoint) (entry : Text × AggregationSnapshot) : Text × AggregationSnapshot :=
  (entry.1, { entry.2 with dataPoints := entry.2.dataPoints ++ [point] })

/-- The entry of a record whose key is not there, without its point. -/
def newEntry (profileName : Text) (timestamp : Int) (record : AggregationRecord) : Text × AggregationSnapshot :=
  (record.key,
    { timestamp
      profileName
      aggregationName := record.name
      kind := mapAction record.action
      dataPoints := [] })

/-- The handler of `aggregateWalkTyped`: the point is added to the snapshot that is there, or to a new one. -/
def visitRecord (cfg : WatchConfig) (aggKeyNames : Text → Option (List Text)) (w : AggregationWalk)
    (record : AggregationRecord) : AggregationWalk where
  dates := if (lookupKey Prod.fst record.key w.snapshots).isSome then w.dates else w.dates + 1
  snapshots := upsert Prod.fst record.key (newEntry cfg.profileName (cfg.clock w.dates) record)
    (addPoint (dataPoint aggKeyNames record)) w.snapshots

/-- The snapshots of a walk, in the order in which they were begun. -/
def walkSnapshots (cfg : WatchConfig) (aggKeyNames : Text → Option (List Text)) (dates : Nat)
    (records : List AggregationRecord) : List AggregationSnapshot :=
  (records.foldl (visitRecord cfg aggKeyNames) { dates }).snapshots.map (·.2)

/-- Whether the point of a record belongs to a snapshot. -/
def AggregationRecord.isOf (name : Text) (kind : AggregationKind) (record : AggregationRecord) : Bool :=
  record.name = name && mapAction record.action = kind

/-- There is one snapshot for each name and kind in use, with the points of all its records, in order. -/
structure Grouped (profileName : Text) (aggKeyNames : Text → Option (List Text)) (records : List AggregationRecord)
    (snapshots : List AggregationSnapshot) : Prop where
  distinct : (snapshots.map fun s => (s.aggregationName, s.kind)).Nodup
  covered : ∀ record ∈ records, ∃ s ∈ snapshots, record.isOf s.aggregationName s.kind = true
  points : ∀ s ∈ snapshots, s.profileName = profileName ∧ s.dataPoints ≠ [] ∧
    s.dataPoints = (records.filter (AggregationRecord.isOf s.aggregationName s.kind)).map (dataPoint aggKeyNames)

/-!
## A structured session

The calls of the OTLP exporter that `runStructuredBackend` makes, and the `flush` of `run` behind them, for what
libdtrace delivers. libdtrace calls its handlers on the thread that polls.
-/

/-- What libdtrace calls back with: the handlers of `onDrop` and of `onBufferedOutput`. -/
inductive Callback where
  | drop (drops : UInt64)
  | output (data : BufferedOutput)

inductive PollStatus where
  | okay
  | done
  | error

/-- A turn of the poll loop: whether the stop flag is set in front of it, and what `pollBuffered` does. -/
structure PollTurn where
  stopSet : Bool := false
  callbacks : List Callback := []
  status : PollStatus := .okay

/-- The state of the handlers, and the calls of the exporter so far. -/
structure SessionState where
  watch : WatchState
  calls : List OtlpCall := []

/-- The events that were emitted on the way to the next state are given to the exporter. -/
def SessionState.advance (s : SessionState) (watch : WatchState) : SessionState where
  watch
  calls := s.calls ++ (watch.emitted.drop s.watch.emitted.length).map .emitEvent

def handleCallback (cfg : WatchConfig) (s : SessionState) : Callback → SessionState
  | .drop drops => { s with calls := s.calls ++ [.reportDrops drops.toNat] }
  | .output data => s.advance (onBufferedOutput cfg s.watch data)

/-- The poll loop; none as long as it goes on. -/
def pollLoop (cfg : WatchConfig) : List PollTurn → SessionState → Option SessionState
  | [], _ => none
  | turn :: turns, s =>
      if turn.stopSet then some s
      else
        let s := turn.callbacks.foldl (handleCallback cfg) s
        match turn.status with
        | .okay => pollLoop cfg turns s
        | .done | .error => some s

/-- The calls of a session whose loop ends. `walk` is none when the snapshot or the walk of the aggregations throws;
`values` is the order in which a dictionary gives its values. -/
def sessionCalls (cfg : WatchConfig) (aggKeyNames : Text → Option (List Text))
    (values : List AggregationSnapshot → List AggregationSnapshot) (turns : List PollTurn)
    (walk : Option (List AggregationRecord)) : Option (List OtlpCall) :=
  (pollLoop cfg turns { watch := watchInit cfg }).map fun s =>
    let s := s.advance (flushPending cfg s.watch)
    let snapshots := match walk with
      | none => []
      | some records => values (walkSnapshots cfg aggKeyNames s.watch.dates records)
    s.calls ++ snapshots.map .emitSnapshot ++ [.flush]

/-! ## What a session should deliver -/

/-- The callbacks up to the end of the loop. -/
def callbacksOf : List PollTurn → List Callback
  | [] => []
  | turn :: turns =>
      if turn.stopSet then []
      else turn.callbacks ++ match turn.status with
        | .okay => callbacksOf turns
        | .done | .error => []

def Callback.output? : Callback → Option BufferedOutput
  | .output data => some data
  | .drop _ => none

def Callback.drops : Callback → Nat
  | .drop drops => drops.toNat
  | .output _ => 0

def outputsOf (turns : List PollTurn) : List BufferedOutput := (callbacksOf turns).filterMap Callback.output?

def dropsOf (turns : List PollTurn) : Nat := ((callbacksOf turns).map Callback.drops).sum

/-- The body lines of the output, as they are logged. -/
def bodiesOf (boundary : CharacterBoundary) (calls : List BufferedOutput) : List Text :=
  ((calls.flatMap (·.lines)).filter (isBody boundary)).map trimmed

/-- What the collector has when a session is over: a record for each body line, of an event with the name and the pid
that `parseMetadata` reads from it; a metric for each aggregation, with a point for each of its records; and no drops
that there were not. -/
structure Delivered (ocfg : OtlpConfig) (cfg : WatchConfig) (aggKeyNames : Text → Option (List Text))
    (turns : List PollTurn) (walk : Option (List AggregationRecord)) (c : Collected) : Prop where
  logs : (c.logs.map (OtlpRecord.withoutDrops ocfg.scopeName)).Perm
    (((structuredEvents cfg (outputsOf turns)).filterMap (logRecord? ocfg)).map LogRecord.meant)
  own : (structuredEvents cfg (outputsOf turns)).map (fun e => (e.printfBody, e.execname, e.pid)) =
    (bodiesOf cfg.boundary (outputsOf turns)).map fun body => (some body, parseMetadata cfg.boundary cfg.isNumber body)
  bodies : (c.logs.map OtlpRecord.body).Perm (bodiesOf cfg.boundary (outputsOf turns))
  metrics : ∃ snapshots, Grouped cfg.profileName aggKeyNames (walk.getD []) snapshots ∧
    List.Forall₂ (MetricOf ocfg.scopeName) snapshots c.metrics
  drops : total (c.logs.map (OtlpRecord.reportedDrops ocfg.scopeName)) ≤ dropsOf turns

end ObservableBSD.Instruments
