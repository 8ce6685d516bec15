import Mathlib.Data.Rat.Defs
import ObservableBSD.Base.FirstHit
import ObservableBSD.Export.Envelope
import ObservableBSD.Json.Value

/-!
# Posts

`post` of the OTLP exporter sends one request until it is answered for good. Time does not pass in the model: a sleep
comes back at once, or never when it is infinite.
-/

namespace ObservableBSD.Export

open Base Json

abbrev Data := List UInt8

/-- What `Double(_:)` reads. -/
inductive Seconds where
  | finite (s : ℚ)
  | infinity
  | negativeInfinity
  | nan
deriving DecidableEq

def Seconds.isPositive : Seconds → Bool
  | .finite s => 0 < s
  | .infinity => true
  | .negativeInfinity | .nan => false

/-- What `post` uses of the libraries: URLs and requests, zlib, JSON, and the reading of numbers. -/
structure Foundation where
  appendingPathComponent : Text → Text → Text
  setValue : List (Text × Text) → Text → Text → List (Text × Text)
  deflate : Data → Option Data
  jsonObject : Data → Option Value
  asInt : Value → Option Int
  double : Text → Option Seconds

structure URLRequest where
  url : Text
  httpMethod : Text
  allHTTPHeaderFields : List (Text × Text)
  httpBody : Data
deriving DecidableEq

/-- The constants of an exporter that `post` reads. The dictionary of headers is the list of its entries. -/
structure PostConfig where
  endpoint : Text
  serviceVersion : Text
  headers : List (Text × Text) := []
  useGzip : Bool := true
  maxRetries : Nat := 2

/-- What the completion handler is called with. -/
inductive Response where
  | error (localizedDescription : Text)
  | http (statusCode : Int) (retryAfter : Option Text) (body : Option Data)
  | other

structure PostResultBox where
  error : Option Text := none
  retryable : Bool := false
  retryAfterSeconds : Option Seconds := none

/-- How a call of `post` ends. -/
inductive PostEnd where
  | returned
  | trapped
  | asleep
deriving DecidableEq

structure PostRun where
  sent : List URLRequest := []
  stderr : List Text := []
  ending : PostEnd := .returned
deriving DecidableEq

/-- The run with a request sent before it. -/
def PostRun.after (request : URLRequest) (run : PostRun) : PostRun := { run with sent := request :: run.sent }

@[simp] theorem PostRun.after_sent (request : URLRequest) (run : PostRun) :
    (run.after request).sent = request :: run.sent := rfl

@[simp] theorem PostRun.after_ending (request : URLRequest) (run : PostRun) :
    (run.after request).ending = run.ending := rfl

def retryableStatusCodes : List Int := [429, 502, 503, 504]

section

variable (F : Foundation) (cfg : PostConfig) (path : Text)

def gzip (data : Data) : Option Data := if data.isEmpty then none else F.deflate data

/-- The request of a call of `post`. -/
def postRequest (data : Data) : URLRequest :=
  let fields := F.setValue [] (text "User-Agent") (text "OTel-OTLP-Exporter-Swift/" ++ cfg.serviceVersion)
  let fields := cfg.headers.foldl (fun fields header => F.setValue fields header.1 header.2) fields
  let fields' := F.setValue fields (text "Content-Type") (text "application/json")
  let request : URLRequest :=
    { url := F.appendingPathComponent cfg.endpoint path
      httpMethod := text "POST"
      allHTTPHeaderFields := fields'
      httpBody := data }
  match if cfg.useGzip then gzip F data else none with
  | some compressed =>
      { request with
        allHTTPHeaderFields := F.setValue fields' (text "Content-Encoding") (text "gzip")
        httpBody := compressed }
  | none => request

/-- The warning about records that were rejected. -/
def checkPartialSuccess (data : Option Data) : Option Text := do
  let data ← data.filter fun data => !data.isEmpty
  let json ← F.jsonObject data
  let success ← json.field? (text "partialSuccess")
  let count (name : Text) : Option Int := (success.field? name).bind F.asInt
  let rejected := ((count (text "rejectedLogRecords")).or (count (text "rejectedDataPoints"))).getD 0
  if 0 < rejected then
    let msg := ((success.field? (text "errorMessage")).bind Value.string?).getD []
    some (text "otlp: /" ++ path ++ text " partial success: " ++ intText rejected ++ text " records rejected" ++
      (if msg.isEmpty then [] else text " (" ++ msg ++ text ")") ++ text "\n")
  else none

/-- The completion handler, with what it writes. -/
def complete : Response → PostResultBox × Option Text
  | .error description =>
      ({ error := some (text "otlp: POST /" ++ path ++ text " failed: " ++ description), retryable := true }, none)
  | .http statusCode retryAfter body =>
      if 200 ≤ statusCode ∧ statusCode < 300 then ({}, checkPartialSuccess F path body)
      else
        ({ error := some (text "otlp: POST /" ++ path ++ text " returned " ++ intText statusCode)
           retryable := statusCode ∈ retryableStatusCodes
           retryAfterSeconds := retryAfter.bind F.double }, none)
  | .other => ({}, none)

/-- `1 << n` on an `Int` of 64 bits. -/
def shiftedOne (n : Nat) : Int := Int.bmod (2 ^ n) (2 ^ 64)

/-- The milliseconds to wait before a retry, without jitter. The jitter is taken from a range that must not be empty. -/
def backoff? (attempt : Nat) : Option Int :=
  let baseMs := 100 * shiftedOne (attempt - 1)
  if 0 ≤ baseMs then some baseMs else none

/-- The attempts from number `attempt` on, when `left` of them are left. -/
def postFrom (request : URLRequest) (responses : Nat → Response) : Nat → Nat → PostRun
  | 0, _ => {}
  | left + 1, attempt =>
      if 0 < attempt ∧ backoff? attempt = none then { ending := .trapped }
      else
        let (resultBox, warning) := complete F path (responses attempt)
        match resultBox.error with
        | none => { sent := [request], stderr := warning.toList }
        | some error =>
            if !resultBox.retryable then { sent := [request], stderr := [error ++ text " (non-retryable)\n"] }
            else if attempt = cfg.maxRetries then
              { sent := [request]
                stderr := [error ++ text " (after " ++ natText (cfg.maxRetries + 1) ++ text " attempts)\n"] }
            else if (resultBox.retryAfterSeconds.filter Seconds.isPositive) = some .infinity then
              { sent := [request], ending := .asleep }
            else (postFrom request responses left (attempt + 1)).after request

/-- `post(data:path:)`; response `i` answers attempt `i`. -/
def post (data : Data) (responses : Nat → Response) : PostRun :=
  postFrom F cfg path (postRequest F cfg path data) responses (cfg.maxRetries + 1) 0

end

/-! ## The retry protocol -/

def Response.Retryable : Response → Prop
  | .error _ => True
  | .http statusCode _ _ => statusCode ∈ [429, 502, 503, 504]
  | .other => False

/-- The server asks to wait without end. -/
def Response.Endless (F : Foundation) : Response → Prop
  | .http _ retryAfter _ => retryAfter.bind F.double = some .infinity
  | .error _ | .other => False

/-- One request for each response up to the first one that is not to be retried, and at most `maxRetries` retries. -/
structure FollowsRetries (request : URLRequest) (maxRetries : Nat) (responses : Nat → Response) (run : PostRun) :
    Prop where
  same : run.sent = List.replicate run.sent.length request
  count : (run.sent.length : ℕ∞) = min (firstHit fun i => ¬ (responses i).Retryable) ((maxRetries + 1 : Nat) : ℕ∞)
  final : ∀ i, ¬ (responses i).Retryable → run.sent.length ≤ i + 1
  again : ∀ i < run.sent.length, i + 1 < run.sent.length ↔ (responses i).Retryable ∧ i < maxRetries

/-- The waits before the retries that are due come to an end, and retry 64, whose wait has no length, is not due. -/
def WaitsEnd (F : Foundation) (maxRetries : Nat) (responses : Nat → Response) : Prop :=
  ∀ i < maxRetries, (∀ j ≤ i, (responses j).Retryable) → ¬ (responses i).Endless F ∧ i + 1 ≠ 64

end ObservableBSD.Export
