import Mathlib.Logic.Function.Basic
import ObservableBSD.Base.Separated
import ObservableBSD.Base.Word
import ObservableBSD.Instruments.Parameters
import ObservableBSD.Instruments.Text

/-!
# Keys and values

The arguments `--param key=value` and the pairs `key=value` in the environment.
-/

namespace ObservableBSD.Instruments

open Base Export

/-- What one text adds to a dictionary. -/
def setPair (boundary : CharacterBoundary) (pairs : Text → Option Text) (raw : Text) : Text → Option Text :=
  match split ('=', true) (some 1) (scalars boundary raw) with
  | [key, value] => Function.update pairs (key.map Prod.fst) (some (value.map Prod.fst))
  | _ => pairs

def parseParams (boundary : CharacterBoundary) (paramArgs : List Text) : Text → Option Text :=
  paramArgs.foldl (setPair boundary) fun _ => none

/-- The arguments of `watch` that `validate` looks at. -/
structure WatchCommand where
  profile : Option Text := none
  file : Option Text := none
  paramArgs : List Text := []

def WatchCommand.validate (c : WatchCommand) (boundary : CharacterBoundary) : Except Text Unit :=
  if c.profile = none ∧ c.file = none then .error (text "provide a profile name or `-f /path/to/script.d`.")
  else if c.profile ≠ none ∧ c.file ≠ none then .error (text "pass either a profile name or `-f`, not both.")
  else match c.paramArgs.find? fun raw => !standsIn (· = '=') (scalars boundary raw) with
    | some raw => .error (text "--param expects key=value, got '" ++ raw ++ text "'")
    | none => .ok ()

structure OTelEnvironment where
  serviceName : Option Text
  resourceAttributes : Text → Option Text
  endpoint : Option Text
  headers : Text → Option Text
  compression : Option Text
  timeoutMs : Option Int

/-- The dictionary of a variable that holds pairs. -/
def environmentPairs (boundary : CharacterBoundary) : Option Text → Text → Option Text
  | none => fun _ => none
  | some raw => ((split (',', true) none (scalars boundary raw)).map fun pair => pair.map Prod.fst).foldl
      (setPair boundary) fun _ => none

def OTelEnvironment.init (boundary : CharacterBoundary) (env : Text → Option Text) : OTelEnvironment where
  serviceName := env (text "OTEL_SERVICE_NAME")
  endpoint := env (text "OTEL_EXPORTER_OTLP_ENDPOINT")
  compression := env (text "OTEL_EXPORTER_OTLP_COMPRESSION")
  timeoutMs := (env (text "OTEL_EXPORTER_OTLP_TIMEOUT")).bind
    (integer? 10 (-9223372036854775808) 9223372036854775807)
  resourceAttributes := environmentPairs boundary (env (text "OTEL_RESOURCE_ATTRIBUTES"))
  headers := environmentPairs boundary (env (text "OTEL_EXPORTER_OTLP_HEADERS"))

/-! ## The first equals sign -/

/-- The text on both sides of the first equals sign. -/
def firstEquals? (boundary : CharacterBoundary) (raw : Text) : Option (Text × Text) := cutFirst? boundary (· = '=') raw

/-- Each text with a key in front of its first equals sign gives the rest to that key, unless a later one does. -/
def LastValues (boundary : CharacterBoundary) (raws : List Text) (d : Text → Option Text) : Prop :=
  ∀ key value, d key = some value ↔ key ≠ [] ∧
    ∃ before raw after, raws = before ++ raw :: after ∧ firstEquals? boundary raw = some (key, value) ∧
      ∀ other ∈ after, ∀ v, firstEquals? boundary other ≠ some (key, v)

/-- The pairs of a variable that are not empty. -/
def pairsOf (boundary : CharacterBoundary) (raw : Option Text) : List Text :=
  (((scalars boundary (raw.getD [])).splitOn (',', true)).filter (· ≠ [])).map fun pair => pair.map Prod.fst

/-- Whether a text has its key at its start or behind equals signs, and the value, which may be empty at the start. -/
def about? (boundary : CharacterBoundary) (key raw : Text) : Option (Bool × Text) :=
  let direct : Bool := (scalars boundary raw).head? ≠ some ('=', true)
  match splitFirst (· = ('=', true)) ((scalars boundary raw).dropWhile (· = ('=', true))) with
  | some (k, value) =>
      if k.map Prod.fst = key ∧ (direct ∨ value ≠ []) then some (direct, value.map Prod.fst) else none
  | none => none

/-- What stands behind a key and its equals sign at the start of a text. -/
def direct? (boundary : CharacterBoundary) (key raw : Text) : Option Text :=
  ((about? boundary key raw).filter (·.1)).map (·.2)

/-- The last text about a key has a value, which is also that of the last one with the key at its start. -/
def LastAgree (boundary : CharacterBoundary) (raws : List Text) : Prop :=
  ∀ key direct value, raws.reverse.findSome? (about? boundary key) = some (direct, value) →
    value ≠ [] ∧ raws.reverse.findSome? (direct? boundary key) = some value

/-!
## The duration of a run

`watch` and `generate` of bsdinstruments pass `--duration` on to `Profile.render`. Seconds are exact fractions, and so
are their products: the rounding of `Double` and nan are left out.
-/

/-- `watch` or `generate`, with the option group for the duration. `validate` is the same for both, and of the
arguments of `watch` only. -/
structure TimedCommand extends WatchCommand where
  durationSeconds : Option ℚ := none

/-- The conversion in `Profile.render`. The product is exact: the rounding of `Double` and nan are left out. -/
def durationNanos? : Option ℚ → Option (Option Nat)
  | none => some none
  | some d =>
      if 0 < d then (int64Of? (d * 1000000000)).map fun nanos => some nanos.toNatClampNeg
      else some none

/-- `Profile.render` with a duration in seconds. The duration comes last. -/
def Profile.renderTimed (boundary : CharacterBoundary) (p : Profile) (parameters : Text → Option Text) (i : Injection)
    (durationSeconds : Option ℚ) : Option (Except ProfileError Text) :=
  match p.render boundary parameters i none with
  | .error e => some (.error e)
  | .ok _ => (durationNanos? durationSeconds).map fun nanos => p.render boundary parameters i nanos

end ObservableBSD.Instruments
