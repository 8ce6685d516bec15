import Mathlib.Logic.Function.Basic
import ObservableBSD.Hwtlm.Cpuctl

/-!
# The RAPL sampler

The arithmetic of Swift traps on overflow, which ends the process: `none`. Joules and seconds are
floating-point numbers; a sample holds here the raw counter delta and the two times they are computed from.
-/

namespace ObservableBSD.Hwtlm

/-- A point in time, in ticks of the wall clock. -/
abbrev Date := Int

def checkedSub (a b : UInt64) : Option UInt64 := if b ≤ a then some (a - b) else none

def checkedAdd (a b : UInt64) : Option UInt64 :=
  if a.toNat + b.toNat < UInt64.size then some (a + b) else none

def raplCounterDelta (cur prev : UInt64) : Option UInt64 :=
  if prev ≤ cur then checkedSub cur prev
  else do
    let rest ← checkedSub 0x100000000 prev
    checkedAdd rest cur

structure RAPLSample where
  cpu : Int
  domain : RAPLDomain
  timestamp : Date
  rawDelta : UInt64
  prevTime : Date
deriving DecidableEq, Repr

structure RAPLSnapshot where
  timestamp : Date
  samples : List RAPLSample
deriving DecidableEq, Repr

/-- A dictionary `[RAPLDomain: UInt64]`. -/
abbrev Counters := RAPLDomain → Option UInt64

structure RAPLSampler where
  microarch : IntelMicroarch
  previous : Counters := fun _ => none
  previousTime : Option Date := none

def RAPLSampler.domains (s : RAPLSampler) : List RAPLDomain := s.microarch.supportedDomains

def packageCPU : Int := 0

/-- The loop of `readCounters`. -/
def readDomains (reader : CpuctlReader) : List RAPLDomain → Counters → Except HWError Counters
  | [], counters => .ok counters
  | domain :: ds, counters => do
      let raw ← reader.readMSR domain.energyMSR
      readDomains reader ds (Function.update counters domain (some (raw &&& 0xFFFFFFFF)))

def RAPLSampler.readCounters (s : RAPLSampler) (device : CpuctlDevice) : Except HWError Counters := do
  let reader ← CpuctlReader.open packageCPU device
  readDomains reader s.domains fun _ => none

/-- The loop of `sampleOnce`. A domain that either reading lacks is skipped. -/
def sampleDomains (now prevTime : Date) (counters previous : Counters) :
    List RAPLDomain → Option (List RAPLSample)
  | [] => some []
  | domain :: ds =>
      match counters domain, previous domain with
      | some cur, some prev => do
          let delta ← raplCounterDelta cur prev
          let samples ← sampleDomains now prevTime counters previous ds
          some ({ cpu := packageCPU, domain, timestamp := now, rawDelta := delta, prevTime } :: samples)
      | _, _ => sampleDomains now prevTime counters previous ds

/-- What a call of `sampleOnce` does when it does not trap: it throws or returns, and leaves a sampler. -/
abbrev SampleResult := Except HWError (Option RAPLSnapshot)

/-- `sampleOnce`. The `defer` stands behind the `try`: a reading that throws is not stored. -/
def RAPLSampler.sampleOnce (s : RAPLSampler) (now : Date) (device : CpuctlDevice) :
    Option (SampleResult × RAPLSampler) :=
  match s.readCounters device with
  | .error e => some (.error e, s)
  | .ok counters =>
      let stored := { s with previous := counters, previousTime := some now }
      match s.previousTime with
      | none => some (.ok none, stored)
      | some prevTime => do
          let samples ← sampleDomains now prevTime counters s.previous s.domains
          some (.ok (some { timestamp := now, samples }), stored)

/-- One call of `sampleOnce`: when, what the device answers, and the energy that each domain has consumed
by then, counted without end. -/
structure SampleCall where
  now : Date
  device : CpuctlDevice
  energy : RAPLDomain → Nat

def sampleRun (s : RAPLSampler) : List SampleCall → Option (List SampleResult × RAPLSampler)
  | [] => some ([], s)
  | c :: cs => do
      let (result, s') ← s.sampleOnce c.now c.device
      let (results, last) ← sampleRun s' cs
      some (result :: results, last)

/-- The raw deltas that a call reports for a domain. -/
def rawDeltas (d : RAPLDomain) : SampleResult → List Nat
  | .ok (some snapshot) => (snapshot.samples.filter fun x => x.domain = d).map fun x => x.rawDelta.toNat
  | _ => []

/-!
## hwtlm exec

`ExecCommand.run` reads the counters before and behind the child process.
-/

/-- The loop over the domains in `ExecCommand.run`, with raw deltas in place of joules and watts. -/
def execDeltas (before after : Counters) : List RAPLDomain → Option (List (RAPLDomain × UInt64))
  | [] => some []
  | domain :: ds =>
      match before domain, after domain with
      | some b, some a => do
          let delta ← raplCounterDelta a b
          let rest ← execDeltas before after ds
          some ((domain, delta) :: rest)
      | _, _ => execDeltas before after ds

/-- `powerResults` of `ExecCommand.run`, from what the device answers before and after the child ran. -/
def execPower (rapl : Option RAPLSampler) (before after : CpuctlDevice) :
    Option (List (RAPLDomain × UInt64)) :=
  match rapl with
  | none => some []
  | some s =>
      match s.readCounters before, s.readCounters after with
      | .ok b, .ok a => execDeltas b a s.domains
      | _, _ => some []

/-- The raw deltas behind the lines that the report has for a domain. -/
def execRawDeltas (d : RAPLDomain) (power : List (RAPLDomain × UInt64)) : List Nat :=
  (power.filter fun x => x.1 = d).map fun x => x.2.toNat

end ObservableBSD.Hwtlm
