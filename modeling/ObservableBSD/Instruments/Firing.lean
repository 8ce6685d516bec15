import ObservableBSD.Instruments.WatchRunner

/-!
# What a firing delivers

A probe firing prints its body, and then each action behind it prints its lines. libdtrace may hand these
over in any number of calls, with blank lines and fragments of aggregations in between.
-/

namespace ObservableBSD.Instruments

open Base Export

/-- The lines of one firing: its body, its kernel frames, its user frames. -/
structure Firing where
  body : Text
  kernel : List Text
  user : List Text

def Action.lines (f : Firing) : Action → List Text
  | .stack => f.kernel
  | .printLine line => [line]
  | .ustack => f.user

def Firing.lines (withStack withUstack : Bool) (f : Firing) : List Text :=
  f.body :: (renderedActions withStack withUstack).flatMap (·.lines f)

/-- The handler takes the body for a body and each frame for a frame. -/
structure Firing.Classified (f : Firing) (boundary : CharacterBoundary) : Prop where
  body_ne : trimmed f.body ≠ []
  body_not_frame : isStackFrame boundary f.body = false
  body_ne_marker : trimmed f.body ≠ ustackMarker
  kernel : ∀ line ∈ f.kernel, isStackFrame boundary line = true
  user : ∀ line ∈ f.user, isStackFrame boundary line = true

/-- These calls of the handler deliver the lines of the firings. -/
def Delivers (withStack withUstack : Bool) (firings : List Firing) (calls : List BufferedOutput) : Prop :=
  (calls.flatMap (·.lines)).filter (fun line => trimmed line ≠ []) =
    firings.flatMap (·.lines withStack withUstack)

def framesOf (boundary : CharacterBoundary) (lines : List Text) : List StackFrame :=
  lines.map fun line => parseStackFrame boundary (trimmed line)

def stacksOf (event : ProbeEvent) : Option Text × Option (List StackFrame) × Option (List StackFrame) :=
  (event.printfBody, event.stack, event.ustack)

/-- The kernel frames are the `stack` of the firing's event and the user frames its `ustack`. -/
def Firing.stacks (boundary : CharacterBoundary) (withStack withUstack : Bool) (f : Firing) :
    Option Text × Option (List StackFrame) × Option (List StackFrame) :=
  (some (trimmed f.body), framesOrNil (framesOf boundary (if withStack then f.kernel else [])),
    framesOrNil (framesOf boundary (if withUstack then f.user else [])))

/-- The events are those of the firings, with their frames where they belong. -/
def FramesKept (boundary : CharacterBoundary) (withStack withUstack : Bool) (firings : List Firing)
    (events : List ProbeEvent) : Prop :=
  events.map stacksOf = firings.map (·.stacks boundary withStack withUstack)

end ObservableBSD.Instruments
