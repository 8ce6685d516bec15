import Mathlib.Algebra.GroupWithZero.Nat
import ObservableBSD.Export.Meaning

/-!
# The collector

What the posts of the exporter say to a collector that parses the documents and stores what it finds in them.
-/

namespace ObservableBSD.Export

/-- The path and the document of a call of `postBatch` or `postMetrics`; none when an addition has trapped: that of the
drops, or that of the counts of a histogram. -/
def Post.request (doubleText : UInt64 → Text) (scopeName : Text) (resource : ResourceAttributes) :
    Post → Option (Text × Text)
  | .logs records drops =>
      if drops < 2 ^ 64 then
        some (text "v1/logs", buildEnvelope doubleText scopeName resource records (UInt64.ofNat drops))
      else none
  | .metrics snapshots => (buildMetricsEnvelope scopeName resource snapshots).map (text "v1/metrics", ·)

structure Collected where
  logs : List OtlpRecord := []
  metrics : List OtlpMetric := []

/-- A document is stored whole, or not at all. -/
def Collected.receive (c : Collected) (request : Text × Text) : Option Collected :=
  if request.1 = text "v1/logs" then
    (readLogs request.2).map fun document => { c with logs := c.logs ++ document.items }
  else if request.1 = text "v1/metrics" then
    (readMetrics request.2).map fun document => { c with metrics := c.metrics ++ document.items }
  else none

def collect (requests : List (Text × Text)) : Option Collected := requests.foldlM Collected.receive {}

/-! ## Drops -/

def OtlpValue.int? : OtlpValue → Option Int
  | .int v => some v
  | _ => none

/-- The drops that a record reports. -/
def OtlpRecord.reportedDrops (scopeName : Text) (record : OtlpRecord) : Int :=
  total ((record.attributes.filter fun attr => attr.1 = scopeName ++ text ".drops").filterMap fun attr => attr.2.int?)

/-- The record, but for the drops. -/
def OtlpRecord.withoutDrops (scopeName : Text) (record : OtlpRecord) : OtlpRecord :=
  { record with attributes := record.attributes.filter fun attr => attr.1 ≠ scopeName ++ text ".drops" }

/-- What a collector has of the events and the snapshots: a record for each event with a body, a metric for each
snapshot with points, and no more drops than there were. The order is that of the posts. -/
structure Holds (cfg : OtlpConfig) (events : List ProbeEvent) (snapshots : List AggregationSnapshot) (drops : Nat)
    (c : Collected) : Prop where
  logs : (c.logs.map (OtlpRecord.withoutDrops cfg.scopeName)).Perm
    ((events.filterMap (logRecord? cfg)).map LogRecord.meant)
  metrics : ∃ order, order.Perm (snapshots.filter fun snapshot => snapshot.dataPoints ≠ []) ∧
    List.Forall₂ (MetricOf cfg.scopeName) order c.metrics
  drops : total (c.logs.map (OtlpRecord.reportedDrops cfg.scopeName)) ≤ drops

end ObservableBSD.Export
