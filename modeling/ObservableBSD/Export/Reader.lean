import ObservableBSD.Export.Envelope
import ObservableBSD.Json.Parser

/-!
# What a consumer reads

A consumer parses a document and looks the members of its objects up by name. It knows nothing of how the
document was put together.
-/

namespace ObservableBSD.Export

open Json

/-! ## Members -/

def textField? (name : Text) (v : Value) : Option Text := (v.field? name).bind Value.string?

/-- A 64-bit integer is the text of its decimal digits. -/
def intStringField? (name : Text) (v : Value) : Option Int := (textField? name v).bind intOfChars?

def listField? {α : Type} (read : Value → Option α) (name : Text) (v : Value) : Option (List α) := do
  let elems ← (← v.field? name).array?
  elems.mapM read

/-! ## Attributes -/

inductive OtlpValue where
  | string (s : Text)
  | int (v : Int)
  | double (bits : UInt64)
deriving DecidableEq

abbrev OtlpAttribute := Text × OtlpValue

/-- An attribute with a string or an integer as its value. -/
def readAttribute (v : Value) : Option OtlpAttribute := do
  let key ← textField? (text "key") v
  let value ← v.field? (text "value")
  match textField? (text "stringValue") value with
  | some s => return (key, .string s)
  | none => return (key, .int (← intStringField? (text "intValue") value))

/-! ## Envelopes -/

/-- The attributes of the resource, the scope, and what was recorded in it. -/
structure Envelope (α : Type) where
  resource : List OtlpAttribute
  scopeName : Text
  scopeVersion : Text
  items : List α
deriving DecidableEq

/-- An envelope with one resource and one scope; the arguments name the members that hold them. -/
def readEnvelope {α : Type} (read : Value → Option α) (resources scopes items : Text) (v : Value) :
    Option (Envelope α) := do
  let [resource] ← (← v.field? resources).array? | none
  let attributes ← listField? readAttribute (text "attributes") (← resource.field? (text "resource"))
  let [scope] ← (← resource.field? scopes).array? | none
  let header ← scope.field? (text "scope")
  let scopeName ← textField? (text "name") header
  let scopeVersion ← textField? (text "version") header
  let items ← listField? read items scope
  return { resource := attributes, scopeName, scopeVersion, items }

/-! ## Logs -/

structure OtlpRecord where
  timeUnixNano : Int
  observedTimeUnixNano : Int
  severityNumber : Int
  body : Text
  attributes : List OtlpAttribute
deriving DecidableEq

def readRecord (v : Value) : Option OtlpRecord := do
  let timeUnixNano ← intStringField? (text "timeUnixNano") v
  let observedTimeUnixNano ← intStringField? (text "observedTimeUnixNano") v
  let severityNumber ← (← v.field? (text "severityNumber")).int?
  let body ← textField? (text "stringValue") (← v.field? (text "body"))
  let attributes ← listField? readAttribute (text "attributes") v
  return { timeUnixNano, observedTimeUnixNano, severityNumber, body, attributes }

def readLogs (document : Text) : Option (Envelope OtlpRecord) := do
  readEnvelope readRecord (text "resourceLogs") (text "scopeLogs") (text "logRecords")
    (← parse document)

/-! ## Metrics -/

/-- A data point of a sum or of a gauge. -/
structure ScalarPoint where
  timeUnixNano : Int
  value : Int
  attributes : List OtlpAttribute
deriving DecidableEq

structure HistogramPoint where
  timeUnixNano : Int
  count : Int
  explicitBounds : List Int
  bucketCounts : List Int
  attributes : List OtlpAttribute
deriving DecidableEq

inductive OtlpData where
  | sum (points : List ScalarPoint) (temporality : Int) (isMonotonic : Bool)
  | gauge (points : List ScalarPoint)
  | histogram (points : List HistogramPoint) (temporality : Int)
deriving DecidableEq

structure OtlpMetric where
  name : Text
  data : OtlpData
deriving DecidableEq

def readScalarPoint (v : Value) : Option ScalarPoint := do
  let timeUnixNano ← intStringField? (text "timeUnixNano") v
  let value ← intStringField? (text "asInt") v
  let attributes ← listField? readAttribute (text "attributes") v
  return { timeUnixNano, value, attributes }

def readHistogramPoint (v : Value) : Option HistogramPoint := do
  let timeUnixNano ← intStringField? (text "timeUnixNano") v
  let count ← intStringField? (text "count") v
  let explicitBounds ← listField? Value.int? (text "explicitBounds") v
  let bucketCounts ← listField? (fun v => v.string?.bind intOfChars?) (text "bucketCounts") v
  let attributes ← listField? readAttribute (text "attributes") v
  return { timeUnixNano, count, explicitBounds, bucketCounts, attributes }

def readSum (v : Value) : Option OtlpData := do
  let points ← listField? readScalarPoint (text "dataPoints") v
  let temporality ← (← v.field? (text "aggregationTemporality")).int?
  let isMonotonic ← (← v.field? (text "isMonotonic")).bool?
  return .sum points temporality isMonotonic

def readGauge (v : Value) : Option OtlpData := do
  let points ← listField? readScalarPoint (text "dataPoints") v
  return .gauge points

def readHistogram (v : Value) : Option OtlpData := do
  let points ← listField? readHistogramPoint (text "dataPoints") v
  let temporality ← (← v.field? (text "aggregationTemporality")).int?
  return .histogram points temporality

/-- A metric has its data in the member that its kind names. -/
def readMetric (v : Value) : Option OtlpMetric := do
  let name ← textField? (text "name") v
  let data ← match v.field? (text "sum"), v.field? (text "gauge"), v.field? (text "histogram") with
    | some sum, none, none => readSum sum
    | none, some gauge, none => readGauge gauge
    | none, none, some histogram => readHistogram histogram
    | _, _, _ => none
  return { name, data }

def readMetrics (document : Text) : Option (Envelope OtlpMetric) := do
  readEnvelope readMetric (text "resourceMetrics") (text "scopeMetrics") (text "metrics")
    (← parse document)

/-! ## Lines -/

/-- The members of a line of the JSONL exporter. -/
structure JsonlEvent where
  time : Text
  profile : Text
  body : Text
  stack : Option (List Text)
  ustack : Option (List Text)
deriving DecidableEq

/-- A member that may be missing. -/
def optionalField? {α : Type} (read : Value → Option α) (name : Text) (v : Value) : Option (Option α) :=
  match v.field? name with
  | none => some none
  | some value => (read value).map some

def readFrames (v : Value) : Option (List Text) := do (← v.array?).mapM Value.string?

def readEvent (line : Text) : Option JsonlEvent := do
  let v ← parse line
  let time ← textField? (text "time") v
  let profile ← textField? (text "profile") v
  let body ← textField? (text "body") v
  let stack ← optionalField? readFrames (text "stack") v
  let ustack ← optionalField? readFrames (text "ustack") v
  return { time, profile, body, stack, ustack }

/-- The lines of an output; what stands behind the last newline is left out. -/
def splitLines : Text → List Text
  | [] => []
  | c :: cs =>
      if c = '\n' then [] :: splitLines cs
      else match splitLines cs with
        | [] => []
        | line :: lines => (c :: line) :: lines

end ObservableBSD.Export
