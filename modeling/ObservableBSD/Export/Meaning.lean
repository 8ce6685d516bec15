import ObservableBSD.Export.Json
import ObservableBSD.Export.Reader

/-!
# What the documents are to say

What a consumer is to read of the records, the snapshots and the events that an exporter was given.
-/

namespace ObservableBSD.Export

/-! ## Logs -/

/-- The attributes of the resource as a consumer reads them. -/
def resourceMeant (resource : ResourceAttributes) : List OtlpAttribute :=
  (resourceAttributes resource).map fun (k, v) => (k, .string v)

def OtlpValue.isDouble : OtlpValue → Bool
  | .double _ => true
  | _ => false

def AttributeValue.meant : AttributeValue → OtlpValue
  | .string s => .string s
  | .int n => .int n.toInt
  | .double bits => .double bits

def LogRecord.meant (record : LogRecord) : OtlpRecord :=
  { timeUnixNano := record.timeUnixNano.toNat
    observedTimeUnixNano := record.timeUnixNano.toNat
    severityNumber := record.severityNumber
    body := record.body
    attributes := record.attributes.map fun (k, v) => (k, v.meant) }

/-- The values of the attributes are strings and integers. -/
def LogRecord.NoDoubles (record : LogRecord) : Prop :=
  ∀ attr ∈ record.attributes, attr.2.meant.isDouble = false

instance (record : LogRecord) : Decidable record.NoDoubles :=
  inferInstanceAs (Decidable (∀ attr ∈ record.attributes, _))

/-- The attribute that reports the drops, when there are any. -/
def dropsAttributes (scopeName : Text) (drops : UInt64) : List OtlpAttribute :=
  if 0 < drops then [(scopeName ++ text ".drops", .int drops.toNat)] else []

/-- The drops are reported by a last attribute of the record. -/
def OtlpRecord.withDrops (scopeName : Text) (drops : UInt64) (record : OtlpRecord) : OtlpRecord :=
  { record with attributes := record.attributes ++ dropsAttributes scopeName drops }

/-- The drops are reported by the first record. -/
def withDrops (scopeName : Text) (drops : UInt64) : List OtlpRecord → List OtlpRecord
  | [] => []
  | record :: records => record.withDrops scopeName drops :: records

/-! ## Metrics -/

def dimensionsMeant (dp : DataPoint) : List OtlpAttribute :=
  if dp.attributes ≠ [] then dp.attributes.map fun (name, value) => (name, .string value)
  else dp.keys.zipIdx.map fun (k, i) => (text "key." ++ natText i, .string k)

def metricNameMeant (scopeName : Text) (snapshot : AggregationSnapshot) : Text :=
  scopeName ++ text "." ++ snapshot.profileName ++ text "." ++
    (if snapshot.aggregationName = [] then snapshot.kind.rawValue else snapshot.aggregationName)

def total (counts : List Int) : Int := counts.foldr (· + ·) 0

/-- The total of the counts of the buckets. -/
def countOf (buckets : List HistogramBucket) : Int := total (buckets.map fun b => b.count.toInt)

structure ScalarPointOf (timeNano : UInt64) (dp : DataPoint) (p : ScalarPoint) : Prop where
  time : p.timeUnixNano = timeNano.toNat
  value : ∃ v, dp.value = .scalar v ∧ p.value = v.toInt
  attributes : p.attributes = dimensionsMeant dp

/-- The point has a count for each bucket, and the bounds between them. -/
structure HistogramOf (buckets : List HistogramBucket) (p : HistogramPoint) : Prop where
  counts : p.bucketCounts.length = buckets.length
  bounds : p.bucketCounts.length = p.explicitBounds.length + 1 ∨
    (buckets = [] ∧ p.bucketCounts = [] ∧ p.explicitBounds = [])
  increasing : p.explicitBounds.Pairwise (· < ·)
  sum : total p.bucketCounts = p.count
  given : p.count = countOf buckets
  upperBounds : ∀ bound ∈ p.explicitBounds, ∃ b ∈ buckets, b.upperBound.toInt = bound
  cumulative : ∀ i bound, p.explicitBounds[i]? = some bound →
    total (p.bucketCounts.take (i + 1)) = countOf (buckets.filter fun b => b.upperBound.toInt ≤ bound)

structure HistogramPointOf (timeNano : UInt64) (dp : DataPoint) (p : HistogramPoint) : Prop where
  time : p.timeUnixNano = timeNano.toNat
  histogram : ∃ buckets, dp.value = .histogram buckets ∧ HistogramOf buckets p
  attributes : p.attributes = dimensionsMeant dp

/-- The data of a metric are the points of the snapshot, in the form that its kind asks for. -/
def DataOf (snapshot : AggregationSnapshot) (data : OtlpData) : Prop :=
  let timeNano := dateToUnixNano snapshot.timestamp
  match snapshot.kind with
  | .count | .sum => ∃ points, data = .sum points 2 true ∧
      List.Forall₂ (ScalarPointOf timeNano) snapshot.dataPoints points
  | .min | .max | .avg | .stddev => ∃ points, data = .gauge points ∧
      List.Forall₂ (ScalarPointOf timeNano) snapshot.dataPoints points
  | .quantize | .lquantize | .llquantize => ∃ points, data = .histogram points 2 ∧
      List.Forall₂ (HistogramPointOf timeNano) snapshot.dataPoints points

structure MetricOf (scopeName : Text) (snapshot : AggregationSnapshot) (metric : OtlpMetric) : Prop where
  name : metric.name = metricNameMeant scopeName snapshot
  data : DataOf snapshot metric.data

/-- The totals of the counts, added up in the order of the bounds, are values of `Int64`. -/
def TotalsFit (buckets : List HistogramBucket) : Prop :=
  ∀ k, -9223372036854775808 ≤ countOf ((sortBuckets buckets).take k) ∧
    countOf ((sortBuckets buckets).take k) < 9223372036854775808

/-- Buckets with bounds of their own and totals that fit. -/
structure GoodBuckets (buckets : List HistogramBucket) : Prop where
  distinct : (buckets.map HistogramBucket.upperBound).Nodup
  totals : TotalsFit buckets

/-- The data points have the values that the kind asks for. -/
def AggregationSnapshot.Matches (snapshot : AggregationSnapshot) : Prop :=
  ∀ dp ∈ snapshot.dataPoints, match snapshot.kind with
    | .count | .sum | .min | .max | .avg | .stddev => ∃ v, dp.value = .scalar v
    | .quantize | .lquantize | .llquantize =>
        ∃ buckets, dp.value = .histogram buckets ∧ GoodBuckets buckets

/-! ## Lines -/

/-- The frames of a stack, when there are any. -/
def framesMeant : Option (List StackFrame) → Option (List Text)
  | none | some [] => none
  | some frames => some (frames.map StackFrame.formatted)

/-- The line of an event with a body. -/
def ProbeEvent.meant (timestampFormatter : Int → Text) (event : ProbeEvent) : Option JsonlEvent :=
  let body := event.printfBody.getD []
  if body = [] then none
  else some
    { time := timestampFormatter event.timestamp
      profile := event.profileName
      body
      stack := framesMeant event.stack
      ustack := framesMeant event.ustack }

/-- The text has no control character. -/
def Clean (s : Text) : Prop := ∀ c ∈ s, 0x20 ≤ c.toNat

/-- What is written for an event: nothing without a body, else one line that says it. -/
def LineOf (timestampFormatter : Int → Text) (event : ProbeEvent) (written : Text) : Prop :=
  match event.meant timestampFormatter with
  | none => written = []
  | some said => ∃ line, written = line ++ text "\n" ∧ Clean line ∧ readEvent line = some said

end ObservableBSD.Export
