import ObservableBSD.Base.Separated
import ObservableBSD.Instruments.Text

/-!
# C-states

The two strings of the kernel about the C-states of a CPU, and the pairs that are reported of them. The kernel writes
them in ASCII, so that each scalar is a Character. The numbers of the percentages are those of `Double(_:)`.
-/

namespace ObservableBSD.Hwtlm

open Base Export Instruments

variable {D : Type}

structure CStateLevel where
  name : Text
  type : Int
  latencyUs : Int
deriving DecidableEq

structure CStateResidency (D : Type) where
  percentages : List D := []
  lastDuration : Option Text := none

structure CStateInfo (D : Type) where
  cpu : Nat
  supported : List CStateLevel
  residency : Option (CStateResidency D)
  transitionCounts : Option (List UInt64)
  lowestAllowed : Option Text

/-! ## CStateParser -/

/-- The pieces of a string between spaces. -/
def tokens (s : Text) : List Text :=
  let trimmed := trimmingCharacters whitespacesAndNewlines s
  if trimmed = [] then [] else split ' ' none trimmed

def int? : Text → Option Int := integer? 10 (-9223372036854775808) 9223372036854775807

/-- `name/type/latency_us`. -/
def parseLevel (token : Text) : Option CStateLevel :=
  match split '/' none token with
  | [name, type, latency] => do
      let type ← int? type
      let latencyUs ← int? latency
      some { name, type, latencyUs }
  | _ => none

def parseSupported (s : Text) : List CStateLevel := (tokens s).filterMap parseLevel

/-- The loop of `parseUsage`. `skip` is set where the next token is the duration behind `last`. -/
def parseUsageLoop (double : Text → Option D) : Bool → List Text → CStateResidency D → CStateResidency D
  | _, [], r => r
  | true, _ :: rest, r => parseUsageLoop double false rest r
  | false, token :: rest, r =>
      if token.getLast? = some '%' then
        match double token.dropLast with
        | some pct => parseUsageLoop double false rest { r with percentages := r.percentages ++ [pct] }
        | none => parseUsageLoop double false rest r
      else match if token = text "last" then rest.head? else none with
        | some duration => parseUsageLoop double true rest { r with lastDuration := some duration }
        | none => parseUsageLoop double false rest r

def parseUsage (double : Text → Option D) (s : Text) : CStateResidency D := parseUsageLoop double false (tokens s) {}

def parseUsageCounters (s : Text) : List UInt64 :=
  (tokens s).filterMap fun token => (integer? 10 0 18446744073709551615 token).map fun v => UInt64.ofNat v.toNat

/-! ## Reading and reporting -/

/-- `dev.cpu.N.` and a name. -/
def cpuSysctl (cpu : Nat) (name : String) : Text := text "dev.cpu." ++ Nat.toDigits 10 cpu ++ '.' :: text name

/-- `cstateInfo` for one CPU; `getString` gives the strings that can be read. -/
def cstateInfo (double : Text → Option D) (getString : Text → Option Text) (cpu : Nat) : Option (CStateInfo D) :=
  (getString (cpuSysctl cpu "cx_supported")).map fun s =>
    { cpu
      supported := parseSupported s
      residency := (getString (cpuSysctl cpu "cx_usage")).map (parseUsage double)
      transitionCounts := (getString (cpuSysctl cpu "cx_usage_counters")).map parseUsageCounters
      lowestAllowed := (getString (cpuSysctl cpu "cx_lowest")).map (trimmingCharacters whitespacesAndNewlines) }

/-- The pairs of a level's name and a residency in the loop of `emitOTLP`. What it reports of each is the `Int64` of the
value, under the lowercased name. -/
def emitResidencies (cstate : CStateInfo D) : List (Text × D) :=
  match cstate.residency with
  | none => []
  | some residency => cstate.supported.zipIdx.filterMap fun (level, i) =>
      residency.percentages[i]?.map fun pct => (level.name, pct)

end ObservableBSD.Hwtlm
