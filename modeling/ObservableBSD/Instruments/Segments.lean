import ObservableBSD.Instruments.Firing

/-!
# What stands behind a body line

The handler's lines, cut at the lines that it takes for bodies. What stands in front of the first of them belongs to
no firing.
-/

namespace ObservableBSD.Instruments

open Base Export

/-- How the handler takes a line. -/
inductive LineKind where
  | blank
  | frame
  | marker
  | body
deriving DecidableEq, Repr

def lineKind (boundary : CharacterBoundary) (raw : Text) : LineKind :=
  if trimmed raw = [] then .blank
  else if isStackFrame boundary raw then .frame
  else if trimmed raw = ustackMarker then .marker
  else .body

def isBody (boundary : CharacterBoundary) (raw : Text) : Bool := lineKind boundary raw = .body

def isMarker (boundary : CharacterBoundary) (raw : Text) : Bool := lineKind boundary raw = .marker

def frameLines (boundary : CharacterBoundary) (lines : List Text) : List Text := lines.filter (isStackFrame boundary)

/-- A body line, and the lines between it and the next one. -/
structure Segment where
  body : Text
  rest : List Text

def Segment.lines (g : Segment) : List Text := g.body :: g.rest

/-- The frames in front of the marker. -/
def Segment.kernel (g : Segment) (boundary : CharacterBoundary) : List Text :=
  frameLines boundary (g.rest.takeWhile fun line => !isMarker boundary line)

/-- The frames behind the marker. -/
def Segment.user (g : Segment) (boundary : CharacterBoundary) : List Text :=
  frameLines boundary (g.rest.dropWhile fun line => !isMarker boundary line)

def segments (boundary : CharacterBoundary) : List Text → List Segment
  | [] => []
  | line :: lines =>
      if isBody boundary line then ⟨line, lines.takeWhile fun l => !isBody boundary l⟩ :: segments boundary lines
      else segments boundary lines

/-- The lines in front of the first body line. -/
def orphans (boundary : CharacterBoundary) (lines : List Text) : List Text :=
  lines.takeWhile fun line => !isBody boundary line

def withoutOrphans (boundary : CharacterBoundary) (lines : List Text) : List Text :=
  lines.dropWhile fun line => !isBody boundary line

/-- The kernel frames and the user frames of an event. -/
def eventFrames (e : ProbeEvent) : List StackFrame := e.stack.getD [] ++ e.ustack.getD []

/-- The calls deliver a text that is divided at ends of lines, in front of the newline or behind it. In between there
may be fragments of aggregations. A newline that is one `Character` with a carriage return ends no line. -/
inductive Divides : Text → List BufferedOutput → Prop where
  | nil : Divides [] []
  | last (s : Text) : Divides s [{ output := s }]
  | behind {front s : Text} {calls : List BufferedOutput} : front.getLast? ≠ some '\r' → Divides s calls →
      Divides (front ++ '\n' :: s) ({ output := front ++ ['\n'] } :: calls)
  | before {front s : Text} {calls : List BufferedOutput} : front.getLast? ≠ some '\r' → Divides ('\n' :: s) calls →
      Divides (front ++ '\n' :: s) ({ output := front } :: calls)
  | fragment {s : Text} {data : BufferedOutput} {calls : List BufferedOutput} : data.isAggregation = true →
      Divides s calls → Divides s (data :: calls)

/-- One event for each body line, with the frames up to the next one, however the text is divided into calls, whatever
blank lines there are, and whatever stands in front of the first body line. -/
structure FramesOwn (cfg : WatchConfig) (calls : List BufferedOutput) : Prop where
  events : (structuredEvents cfg calls).map (fun e => (e.printfBody, eventFrames e)) =
    (segments cfg.boundary (calls.flatMap (·.lines))).map fun g =>
      (some (trimmed g.body), framesOf cfg.boundary (frameLines cfg.boundary g.rest))
  splitting : ∀ text calls', Divides text calls → Divides text calls' →
    structuredEvents cfg calls' = structuredEvents cfg calls
  blanks : ∀ calls', (calls'.flatMap (·.lines)).filter (fun line => trimmed line ≠ []) =
      (calls.flatMap (·.lines)).filter (fun line => trimmed line ≠ []) →
    structuredEvents cfg calls' = structuredEvents cfg calls
  orphans : ∀ calls', calls'.flatMap (·.lines) = withoutOrphans cfg.boundary (calls.flatMap (·.lines)) →
    structuredEvents cfg calls' = structuredEvents cfg calls

/-- No frame stands in front of the first body line, and when a marker does, no frame stands between that body line and
the marker behind it. Without a body line there is no event. -/
def OrphansHarmless (boundary : CharacterBoundary) (lines : List Text) : Prop :=
  segments boundary lines = [] ∨ (frameLines boundary (orphans boundary lines) = [] ∧
    ((orphans boundary lines).any (isMarker boundary) = true →
      ∀ g ∈ (segments boundary lines).head?, g.kernel boundary = []))

end ObservableBSD.Instruments
