import Mathlib.Data.List.Sort
import ObservableBSD.Export.Json
import ObservableBSD.Export.Otlp

/-!
# OTLP envelopes

The documents that the OTLP exporter posts. They are put together from pieces of text.
-/

namespace ObservableBSD.Export

/-- `ResourceAttributes`; a dictionary is its list of entries, in the order of its iteration. -/
structure ResourceAttributes where
  serviceName : Text
  serviceInstanceId : Option Text := none
  hostName : Text
  hostArch : Text := []
  osName : Text
  osVersion : Text
  serviceVersion : Text
  custom : List (Text × Text) := []

def resourceAttributes (resource : ResourceAttributes) : List (Text × Text) :=
  [(text "service.name", resource.serviceName),
    (text "service.version", resource.serviceVersion),
    (text "host.name", resource.hostName),
    (text "host.arch", resource.hostArch),
    (text "os.type", resource.osName),
    (text "os.version", resource.osVersion),
    (text "telemetry.sdk.name", text "observablebsd"),
    (text "telemetry.sdk.language", text "swift"),
    (text "telemetry.sdk.version", resource.serviceVersion)] ++
  (resource.serviceInstanceId.map fun id => (text "service.instance.id", id)).toList ++
  resource.custom

def resourceAttributesJSON (resource : ResourceAttributes) : Text :=
  joined ((resourceAttributes resource).map fun (k, v) => stringAttributeJSON k v)

/-- The text between the resource attributes and the name of the list of records or metrics. -/
def scopeJSON (scopeName : Text) (resource : ResourceAttributes) : Text :=
  text "[\x7b\"scope\":\x7b\"name\":\"" ++ escapeJSON scopeName ++ text "\",\"version\":\"" ++
    escapeJSON resource.serviceVersion ++ text "\"\x7d,"

/-! ## Logs -/

/-- `doubleText` is how a double is printed. -/
def attributeJSON (doubleText : UInt64 → Text) (attr : Text × AttributeValue) : Text :=
  text "\x7b\"key\":\"" ++ escapeJSON attr.1 ++ text "\",\"value\":\x7b" ++
    (match attr.2 with
      | .string s => text "\"stringValue\":\"" ++ escapeJSON s ++ text "\""
      | .int n => text "\"intValue\":\"" ++ intText n.toInt ++ text "\""
      | .double bits => text "\"doubleValue\":" ++ doubleText bits) ++
    text "\x7d\x7d"

def buildRecordJSON (doubleText : UInt64 → Text) (scopeName : Text) (record : LogRecord)
    (drops : UInt64) : Text :=
  text "\x7b" ++
    (text "\"timeUnixNano\":\"" ++ natText record.timeUnixNano.toNat ++ text "\",") ++
    (text "\"observedTimeUnixNano\":\"" ++ natText record.timeUnixNano.toNat ++ text "\",") ++
    (text "\"severityNumber\":" ++ intText record.severityNumber ++ text ",") ++
    (text "\"body\":\x7b\"stringValue\":\"" ++ escapeJSON record.body ++ text "\"\x7d,") ++
    text "\"attributes\":[" ++
    enumerated (fun _ attr => attributeJSON doubleText attr) record.attributes ++
    (if 0 < drops then
      (if record.attributes = [] then [] else text ",") ++
        (text "\x7b\"key\":\"" ++ escapeJSON scopeName ++
          text ".drops\",\"value\":\x7b\"intValue\":\"" ++ natText drops.toNat ++ text "\"\x7d\x7d")
    else []) ++
    text "]\x7d"

def buildEnvelope (doubleText : UInt64 → Text) (scopeName : Text) (resource : ResourceAttributes)
    (records : List LogRecord) (drops : UInt64) : Text :=
  text "\x7b\"resourceLogs\":[\x7b\"resource\":\x7b\"attributes\":[" ++
    resourceAttributesJSON resource ++
    text "]\x7d,\"scopeLogs\":" ++ scopeJSON scopeName resource ++
    text "\"logRecords\":[" ++
    enumerated (fun i record => buildRecordJSON doubleText scopeName record
      (if i = 0 ∧ 0 < drops then drops else 0)) records ++
    text "]\x7d]\x7d]\x7d"

/-! ## Metrics -/

/-- `rawValue`. -/
def AggregationKind.rawValue : AggregationKind → Text
  | .count => text "count"
  | .sum => text "sum"
  | .min => text "min"
  | .max => text "max"
  | .avg => text "avg"
  | .stddev => text "stddev"
  | .quantize => text "quantize"
  | .lquantize => text "lquantize"
  | .llquantize => text "llquantize"

def buildDimensionAttributes (dp : DataPoint) : Text :=
  if dp.attributes ≠ [] then
    joined (dp.attributes.map fun (name, value) => stringAttributeJSON name value)
  else
    joined (dp.keys.zipIdx.map fun (k, i) =>
      text "\x7b\"key\":\"key." ++ natText i ++ text "\",\"value\":\x7b\"stringValue\":\"" ++
        escapeJSON k ++ text "\"\x7d\x7d")

def buildScalarDataPoint (timeNano : UInt64) (dp : DataPoint) : Text :=
  text "\x7b\"timeUnixNano\":\"" ++ natText timeNano.toNat ++ text "\"" ++
    (match dp.value with
      | .scalar v => text ",\"asInt\":\"" ++ intText v.toInt ++ text "\""
      | .histogram _ => []) ++
    text ",\"attributes\":[" ++ buildDimensionAttributes dp ++ text "]\x7d"

def buildScalarDataPoints (snapshot : AggregationSnapshot) (timeNano : UInt64) : Text :=
  joined (snapshot.dataPoints.map (buildScalarDataPoint timeNano))

/-- `$0.upperBound < $1.upperBound` sorts; equal bounds keep their order. -/
def sortBuckets (buckets : List HistogramBucket) : List HistogramBucket :=
  buckets.insertionSort fun a b => a.upperBound ≤ b.upperBound

/-- The addition of `Int64`, which traps when the sum does not fit. -/
def int64Add? (a b : Int64) : Option Int64 :=
  if -9223372036854775808 ≤ a.toInt + b.toInt ∧ a.toInt + b.toInt < 9223372036854775808 then some (a + b)
  else none

/-- The total of the counts; `none` when the addition traps. -/
def totalCount? (buckets : List HistogramBucket) : Option Int64 :=
  buckets.foldlM (fun acc b => int64Add? acc b.count) 0

def histogramDataPoint? (timeNano : UInt64) (dp : DataPoint) (buckets : List HistogramBucket) :
    Option Text :=
  let sortedBuckets := sortBuckets buckets
  (totalCount? sortedBuckets).map fun total =>
    text "\x7b\"timeUnixNano\":\"" ++ natText timeNano.toNat ++ text "\"" ++
      (text ",\"count\":\"" ++ intText total.toInt ++ text "\"") ++
      (text ",\"explicitBounds\":[" ++
        joined (sortedBuckets.dropLast.map fun b => intText b.upperBound.toInt) ++ text "]") ++
      (text ",\"bucketCounts\":[" ++
        joined (sortedBuckets.map fun b => text "\"" ++ intText b.count.toInt ++ text "\"") ++
        text "]") ++
      (text ",\"attributes\":[" ++ buildDimensionAttributes dp ++ text "]\x7d")

/-- The points of the histograms; a data point with a scalar has none. -/
def histogramDataPoints? (timeNano : UInt64) : List DataPoint → Option (List Text)
  | [] => some []
  | dp :: dps => match dp.value with
      | .scalar _ => histogramDataPoints? timeNano dps
      | .histogram buckets => do
          let json ← histogramDataPoint? timeNano dp buckets
          let parts ← histogramDataPoints? timeNano dps
          return json :: parts

def buildHistogramDataPoints? (snapshot : AggregationSnapshot) (timeNano : UInt64) : Option Text :=
  (histogramDataPoints? timeNano snapshot.dataPoints).map joined

def metricName (scopeName : Text) (snapshot : AggregationSnapshot) : Text :=
  if snapshot.aggregationName = [] then
    escapeJSON scopeName ++ text "." ++ escapeJSON snapshot.profileName ++ text "." ++
      snapshot.kind.rawValue
  else
    escapeJSON scopeName ++ text "." ++ escapeJSON snapshot.profileName ++ text "." ++
      escapeJSON snapshot.aggregationName

/-- The metric of a snapshot; `none` when the addition of its counts traps. -/
def metricJSON? (scopeName : Text) (snapshot : AggregationSnapshot) : Option Text :=
  let snapshotTimeNano := dateToUnixNano snapshot.timestamp
  let name := text "\x7b\"name\":\"" ++ metricName scopeName snapshot ++ text "\","
  match snapshot.kind with
  | .count | .sum =>
      some (name ++ (text "\"sum\":\x7b\"dataPoints\":[" ++
        buildScalarDataPoints snapshot snapshotTimeNano ++
        text "],\"aggregationTemporality\":2,\"isMonotonic\":true\x7d\x7d"))
  | .min | .max | .avg | .stddev =>
      some (name ++ (text "\"gauge\":\x7b\"dataPoints\":[" ++
        buildScalarDataPoints snapshot snapshotTimeNano ++ text "]\x7d\x7d"))
  | .quantize | .lquantize | .llquantize =>
      (buildHistogramDataPoints? snapshot snapshotTimeNano).map fun points =>
        name ++ (text "\"histogram\":\x7b\"dataPoints\":[" ++ points ++
          text "],\"aggregationTemporality\":2\x7d\x7d")

def buildMetricsEnvelope (scopeName : Text) (resource : ResourceAttributes)
    (snapshots : List AggregationSnapshot) : Option Text :=
  (snapshots.mapM (metricJSON? scopeName)).map fun metrics =>
    text "\x7b\"resourceMetrics\":[\x7b\"resource\":\x7b\"attributes\":[" ++
      resourceAttributesJSON resource ++
      text "]\x7d,\"scopeMetrics\":" ++ scopeJSON scopeName resource ++
      text "\"metrics\":[" ++
      enumerated (fun _ metric => metric) metrics ++
      text "]\x7d]\x7d]\x7d"

end ObservableBSD.Export
