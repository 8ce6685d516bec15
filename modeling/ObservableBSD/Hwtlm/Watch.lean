import ObservableBSD.Base.Word
import ObservableBSD.Export.Event
import ObservableBSD.Hwtlm.RaplSampler

/-!
# hwtlm watch

The command up to its sampling loop, with the pause that the loop makes. Seconds are exact fractions, and so are their
products: the rounding of `Double` and nan are left out.
-/

namespace ObservableBSD.Hwtlm

open Base Export

inductive HWOutputFormat where
  | text
  | json
  | otel
deriving DecidableEq, Repr

/-- The options of the command that come before the loop; `duration` only makes the deadline. -/
structure WatchCommand where
  interval : ℚ := 1
  duration : Option ℚ := none
  format : HWOutputFormat := .text
  endpoint : Text := text "http://localhost:4318"

/-- What the command meets: `scheme` is that of `URL(string:)`, if it makes a URL, and `rapl` the microarchitecture,
if the CPU has RAPL. -/
structure WatchHost where
  scheme : Text → Option Text
  otelEndpoint : Option Text := none
  rapl : Option IntelMicroarch := none
  now : Date := 0
  device : CpuctlDevice

def WatchHost.isHTTP (host : WatchHost) (url : Text) : Bool :=
  host.scheme url = some (text "http") || host.scheme url = some (text "https")

inductive WatchError where
  | validation (message : Text)
  | failure (error : HWError)
deriving DecidableEq

def WatchCommand.validate (c : WatchCommand) (host : WatchHost) : Except WatchError Unit :=
  if c.interval ≤ 0 then .error (.validation (text "--interval must be positive"))
  else if c.duration.any fun d => d ≤ 0 then .error (.validation (text "--duration must be positive"))
  else if c.format = .otel ∧ ¬ host.isHTTP c.endpoint then
    .error (.validation (text "--endpoint must be an http:// or https:// URL"))
  else .ok ()

/-- `OTLPHTTPJSONExporter.start`: the nanoseconds between two calls of the timer, if there is one. -/
def exporterStart (flushInterval : ℚ) : Option (Option Int64) :=
  if 0 < flushInterval then do
    let interval ← uint64Of? (flushInterval * 1000000000)
    let nanos ← int64OfUInt64? interval
    some (some nanos)
  else some none

/-- The exporter that `run` makes and starts, when the format asks for one. -/
def WatchCommand.startExporter (c : WatchCommand) (host : WatchHost) : Option (Except WatchError Unit) :=
  if c.format = .otel then
    let cliIsDefault := c.endpoint = text "http://localhost:4318"
    let endpoint := (if cliIsDefault then host.otelEndpoint else none).getD c.endpoint
    if host.isHTTP endpoint then (exporterStart c.interval).map fun _ => .ok ()
    else some (.error (.validation
      (text "OTLP endpoint must be an http:// or https:// URL, got: '" ++ endpoint ++ text "'")))
  else some (.ok ())

/-- `RAPLSampler.run` up to its loop: the microseconds that it sleeps before each sample. -/
def RAPLSampler.run (s : RAPLSampler) (now : Date) (device : CpuctlDevice) (intervalSeconds : ℚ) :
    Option (Except HWError UInt32) := do
  match ← s.sampleOnce now device with
  | (.error e, _) => some (.error e)
  | (.ok _, _) =>
      let intervalMicros ← uint32Of? (intervalSeconds * 1000000)
      some (.ok intervalMicros)

/-- The microseconds that the sampling loop sleeps before each sample. -/
def WatchCommand.run (c : WatchCommand) (host : WatchHost) : Option (Except WatchError UInt32) := do
  match ← c.startExporter host with
  | .error e => some (.error e)
  | .ok () => match host.rapl with
      | some microarch => (RAPLSampler.run { microarch } host.now host.device c.interval).map (·.mapError .failure)
      | none =>
          let intervalMicros ← uint32Of? (c.interval * 1000000)
          some (.ok intervalMicros)

end ObservableBSD.Hwtlm
