import Mathlib.Data.Char
import Mathlib.Data.List.Lex
import ObservableBSD.Base.Tally
import ObservableBSD.Export.Json

/-!
# Folded stacks

`CollapsedStackExporter` counts the stacks of the events and prints them when it shuts down. Its lock makes each `emit`
one step. A count is below 2^64; adding to the largest one stops the program. Strings are keys up to canonical
equivalence, so a text is here the normal form of a string; nothing combines with a `;`, and texts joined by it are in
normal form again.
-/

namespace ObservableBSD.Export

open Base

def isPresent (stack : Option (List StackFrame)) : Bool := stack ≠ none && stack ≠ some []

/-- The frames of a stack, root first. -/
def rootFirst (stack : Option (List StackFrame)) : List Text := (stack.getD []).reverse.map StackFrame.formatted

def buildStackString (event : ProbeEvent) : Text :=
  let hasKStack := isPresent event.stack
  let hasUStack := isPresent event.ustack
  if !(hasKStack || hasUStack) then []
  else
    let parts := [event.execname]
    let parts := parts ++ rootFirst event.stack
    let parts := if hasKStack && hasUStack then parts ++ [text "--"] else parts
    let parts := parts ++ rootFirst event.ustack
    [';'].intercalate parts

structure CollapsedStackExporter where
  folded : List (Text × Nat) := []

namespace CollapsedStackExporter

/-- `emit(event:)`. There is no result when the count is as large as it gets. -/
def emit (x : CollapsedStackExporter) (event : ProbeEvent) : Option CollapsedStackExporter :=
  let stack := buildStackString event
  if stack.isEmpty then some x
  else if countIn x.folded stack + 1 < 2 ^ 64 then some { x with folded := bump x.folded stack }
  else none

def emitAll (x : CollapsedStackExporter) (events : List ProbeEvent) : Option CollapsedStackExporter :=
  events.foldlM emit x

/-- The lines that `shutdown` writes when it finds the entries of the dictionary in the order of `snapshot`. -/
def shutdown (snapshot : List (Text × Nat)) : List Text :=
  (snapshot.mergeSort fun a b => a.1 ≤ b.1).map fun (stack, count) => stack ++ text " " ++ natText count ++ text "\n"

end CollapsedStackExporter

/-! ## Stacks with their counts -/

/-- What one event shows of its process: the name and the formatted frames of both stacks, the root last. -/
structure Sample where
  execname : Text
  kernel : List Text
  user : List Text
deriving DecidableEq

def ProbeEvent.sample (event : ProbeEvent) : Sample where
  execname := event.execname
  kernel := (event.stack.getD []).map StackFrame.formatted
  user := (event.ustack.getD []).map StackFrame.formatted

def Sample.HasFrames (s : Sample) : Prop := s.kernel ≠ [] ∨ s.user ≠ []

instance (s : Sample) : Decidable s.HasFrames := inferInstanceAs (Decidable (_ ∨ _))

/-- The samples of the events with at least one frame. -/
def samples (events : List ProbeEvent) : List Sample := (events.map ProbeEvent.sample).filter fun s => s.HasFrames

/-- Frames that stand in one line can be told apart. -/
structure Sample.Plain (s : Sample) : Prop where
  execname : ';' ∉ s.execname ∧ '\n' ∉ s.execname
  frames : ∀ f ∈ s.kernel ++ s.user, ';' ∉ f ∧ '\n' ∉ f ∧ f ≠ text "--"

/-- The same sample, or the same frames once in the kernel and once in the process. -/
def Sample.Shares (s t : Sample) : Prop :=
  s.execname = t.execname ∧ (s.kernel = t.kernel ∧ s.user = t.user ∨
    s.kernel = t.user ∧ s.user = [] ∧ t.kernel = [] ∨ s.user = t.kernel ∧ s.kernel = [] ∧ t.user = [])

instance (s t : Sample) : Decidable (s.Shares t) := inferInstanceAs (Decidable (_ ∧ _))

/-- The name, the kernel frames and the user frames, from the root on. -/
def Sample.parts (s : Sample) : List Text :=
  s.execname :: (s.kernel.reverse ++ (if s.kernel ≠ [] ∧ s.user ≠ [] then [text "--"] else []) ++ s.user.reverse)

def Sample.line (s : Sample) (count : Nat) : Text :=
  [';'].intercalate s.parts ++ text " " ++ natText count ++ text "\n"

/-- One sample for each line, with the count: those that are counted in it are the ones that share the line. -/
structure FoldedInto (ss : List Sample) (lines : List (Sample × Nat)) : Prop where
  member : ∀ l ∈ lines, l.1 ∈ ss
  count : ∀ l ∈ lines, l.2 = ss.countP fun s => l.1.Shares s
  one : ∀ s ∈ ss, (lines.countP fun l => s.Shares l.1) = 1
  sum : (lines.map (·.2)).sum = ss.length

/-- The printed texts are lines, and no two are the same. -/
structure PrintsFolded (ss : List Sample) (printed : List Text) : Prop where
  folded : ∃ lines, FoldedInto ss lines ∧ printed = lines.map fun l => l.1.line l.2
  ended : ∀ t ∈ printed, ∃ body, t = body ++ ['\n'] ∧ '\n' ∉ body
  distinct : printed.Nodup

end ObservableBSD.Export
