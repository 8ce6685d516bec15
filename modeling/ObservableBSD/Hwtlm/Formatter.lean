import Mathlib.Data.List.AList
import Mathlib.Data.List.Sort
import ObservableBSD.Export.Json
import ObservableBSD.Hwtlm.CState
import ObservableBSD.Hwtlm.RaplSampler

/-!
# The per-core output

The text block and the JSON line of a system snapshot. How numbers and dates are printed, and how the characters of a
string are counted, is left to Foundation.
-/

namespace ObservableBSD.Hwtlm

open Export

variable {D : Type}

/-! ## Snapshots -/

/-- A dictionary `[Int: V]`. -/
abbrev CpuTable (V : Type) := AList fun _ : Int => V

structure CoreSnapshot (D : Type) where
  cpu : Int
  temperatureC : Option D
  frequencyMHz : Option Int
  cstate : Option (CStateInfo D)

/-- The fields that the per-core output is made of. -/
structure SystemSnapshot (D : Type) where
  timestamp : Date
  temperatures : CpuTable D
  frequencies : CpuTable Int
  cstates : CpuTable (CStateInfo D)

def SystemSnapshot.cores (sys : SystemSnapshot D) : List (CoreSnapshot D) :=
  let cpuIDs := (sys.temperatures.keys ++ sys.frequencies.keys ++ sys.cstates.keys).dedup.insertionSort (· ≤ ·)
  cpuIDs.map fun cpu =>
    { cpu
      temperatureC := sys.temperatures.lookup cpu
      frequencyMHz := sys.frequencies.lookup cpu
      cstate := sys.cstates.lookup cpu }

/-! ## HWFormatter -/

/-- `String(format:)`, the date formatters, `watts` of a sample and `count` of a string. -/
structure Printing (D : Type) where
  double : String → D → Text
  int : String → Int → Text
  timeStr : Date → Text
  iso8601 : Date → Text
  watts : RAPLSample → D
  count : Text → Nat

def RAPLDomain.rawValue : RAPLDomain → Text
  | .package => text "package"
  | .pp0 => text "pp0"
  | .pp1 => text "pp1"
  | .dram => text "dram"
  | .platform => text "platform"

variable (P : Printing D)

def pad (s : Text) (width : Nat) : Text :=
  if width ≤ P.count s then s else s ++ List.replicate (width - P.count s) ' '

/-- The names of the columns: those of the first core that has C-states. -/
def cstateNames (cores : List (CoreSnapshot D)) : List Text :=
  match cores.find? fun core => core.cstate.isSome with
  | some first => match first.cstate with
      | some cstate => cstate.supported.map CStateLevel.name
      | none => []
  | none => []

/-- What a core has in each column. -/
def cstateCells (names : List Text) (core : CoreSnapshot D) : List (Option D) :=
  match core.cstate.bind CStateInfo.residency with
  | some residency => names.zipIdx.map fun (_, i) => residency.percentages[i]?
  | none => names.map fun _ => none

def perCoreHeader (names : List Text) : Text :=
  pad P (text "CPU") 4 ++ text "  " ++ pad P (text "TEMP") 5 ++ text "  " ++ pad P (text "FREQ") 5 ++
    (names.flatMap fun name => text "  " ++ pad P (name ++ text "%") 7) ++ text "\n"

def perCoreRow (names : List Text) (core : CoreSnapshot D) : Text :=
  pad P (P.int "%3d" core.cpu) 4 ++
    text "  " ++ pad P (match core.temperatureC with
      | some temp => P.double "%4.0f" temp
      | none => text "  --") 5 ++
    text "  " ++ pad P (match core.frequencyMHz with
      | some freq => P.int "%5d" freq
      | none => text "   --") 5 ++
    ((cstateCells names core).flatMap fun cell => text "  " ++ pad P (match cell with
      | some pct => P.double "%5.1f" pct
      | none => text "   --") 7) ++ text "\n"

def perCoreTextBlock (rapl : Option RAPLSnapshot) (sys : SystemSnapshot D) : Text :=
  let names := cstateNames sys.cores
  text "── " ++ P.timeStr sys.timestamp ++ text " " ++ List.replicate 50 '─' ++ text "\n" ++ perCoreHeader P names ++
    sys.cores.flatMap (perCoreRow P names) ++
    match rapl with
    | some rapl => text "\n" ++ (rapl.samples.flatMap fun sample =>
        text "  " ++ sample.domain.rawValue ++ text ": " ++ P.double "%.1f" (P.watts sample) ++ text "W") ++ text "\n"
    | none => []

def jsonPart (key value : Text) : Text := text "\"" ++ key ++ text "\":" ++ value

/-- The object of a core. The loop over its levels is the one of `emitOTLP`. -/
def perCoreObject (core : CoreSnapshot D) : Text :=
  let cpu := [jsonPart (text "cpu") (intText core.cpu)]
  let temp := (core.temperatureC.map fun temp => jsonPart (text "temp") (P.double "%.1f" temp)).toList
  let freq := (core.frequencyMHz.map fun freq => jsonPart (text "freq_mhz") (intText freq)).toList
  let cstate := (core.cstate.bind fun cstate => cstate.residency.map fun _ =>
    let csParts := (emitResidencies cstate).map fun (name, pct) => jsonPart (escapeJSON name) (P.double "%.2f" pct)
    jsonPart (text "cstate") (text "\x7b" ++ joined csParts ++ text "\x7d")).toList
  text "\x7b" ++ joined (cpu ++ temp ++ freq ++ cstate) ++ text "\x7d"

def perCoreJsonLine (rapl : Option RAPLSnapshot) (sys : SystemSnapshot D) : Text :=
  let time := [jsonPart (text "time") (text "\"" ++ P.iso8601 sys.timestamp ++ text "\"")]
  let cores := [jsonPart (text "cores") (text "[" ++ joined (sys.cores.map (perCoreObject P)) ++ text "]")]
  let watts := rapl.toList.flatMap fun rapl => rapl.samples.map fun sample =>
    jsonPart (escapeJSON sample.domain.rawValue ++ text "_watts") (P.double "%.6f" (P.watts sample))
  text "\x7b" ++ joined (time ++ cores ++ watts) ++ text "\x7d"

end ObservableBSD.Hwtlm
