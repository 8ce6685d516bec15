/-!
# Events and snapshots

The values that a tool's run loop hands to an exporter. A date is the number of nanoseconds since the
Unix epoch.
-/

namespace ObservableBSD.Export

/-- `String`, as its list of characters. -/
abbrev Text := List Char

/-- A string literal of the source. -/
def text (s : String) : Text := s.toList

structure StackFrame where
  address : UInt64
  module : Option Text := none
  symbol : Option Text := none
  offset : Option UInt64 := none
deriving DecidableEq, Repr

structure ProbeEvent where
  timestamp : Int
  profileName : Text
  probeName : Text
  pid : Int32
  execname : Text
  printfBody : Option Text
  stack : Option (List StackFrame) := none
  ustack : Option (List StackFrame) := none
deriving DecidableEq

inductive AggregationKind where
  | count
  | sum
  | min
  | max
  | avg
  | stddev
  | quantize
  | lquantize
  | llquantize
deriving DecidableEq, Repr

structure HistogramBucket where
  upperBound : Int64
  count : Int64
deriving DecidableEq

inductive AggregationValue where
  | scalar (v : Int64)
  | histogram (buckets : List HistogramBucket)
deriving DecidableEq

structure DataPoint where
  keys : List Text
  attributes : List (Text × Text)
  value : AggregationValue
deriving DecidableEq

structure AggregationSnapshot where
  timestamp : Int
  profileName : Text
  aggregationName : Text
  kind : AggregationKind
  dataPoints : List DataPoint
deriving DecidableEq

end ObservableBSD.Export
