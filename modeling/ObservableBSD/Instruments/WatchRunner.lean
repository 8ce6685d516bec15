import ObservableBSD.Export.Json
import ObservableBSD.Instruments.Profile
import ObservableBSD.Instruments.Text

/-!
# The structured backend

`WatchRunner` collects the lines that libdtrace delivers into events, one for each firing. The `emit` of
each exporter in this repository throws nothing, so `errorBox` stays empty and the handler returns `true`.
-/

namespace ObservableBSD.Instruments

open Base Export

def parseStackFrame (boundary : CharacterBoundary) (line : Text) : StackFrame :=
  let s := trimmingCharacters whitespaces line
  match cutFirst? boundary (canonical · = '`') s with
  | some (module, rest) =>
      match cutLast? boundary (canonical · = '+') rest with
      | some (symbol, tail) =>
          if hasPrefix boundary tail ['0', 'x'] then
            { address := 0, module, symbol, offset := (uint64OfHex? (tail.drop 2)).getD 0 }
          else { address := 0, module, symbol := rest }
      | none => { address := 0, module, symbol := rest }
  | none =>
      match if hasPrefix boundary s ['0', 'x'] then uint64OfHex? (s.drop 2) else none with
      | some address => { address }
      | none => { address := 0, symbol := s }

/-- The loop that collects the `Character`s up to the first that is no number. `front` was collected, and `isNumber`
looks at the first scalar of a `Character`. -/
def leadingNumbers (boundary : CharacterBoundary) (isNumber : Char → Bool) : Text → Text → Text
  | _, [] => []
  | front, c :: s =>
      if boundary front (c :: s) && !isNumber c then []
      else c :: leadingNumbers boundary isNumber (front ++ [c]) s

/-- `parseMetadata`. `isNumber` is `Character.isNumber`. -/
def parseMetadata (boundary : CharacterBoundary) (isNumber : Char → Bool) (body : Text) : Text × Int32 :=
  match cutFirst? boundary (canonical · = '[') body with
  | none => ([], 0)
  | some (execname, afterBracket) =>
      (execname, (int32? (leadingNumbers boundary isNumber [] afterBracket)).getD 0)

/-- What a call of the `onBufferedOutput` handler receives. `isAggregation` is the disjunction of the four
flags it looks at. -/
structure BufferedOutput where
  output : Text
  isAggregation : Bool := false

/-- What the handler's calls share: the parameters. `clock` gives the successive values of `Date()`. -/
structure WatchConfig where
  profileName : Text
  joining : Joining
  isNumber : Char → Bool
  clock : Nat → Int

abbrev WatchConfig.boundary (cfg : WatchConfig) : CharacterBoundary := cfg.joining.boundary

/-- What the handler's calls share: the captured variables, the readings of the clock, and the events
emitted. -/
structure WatchState where
  pendingBody : Option Text := none
  pendingKStack : List StackFrame := []
  pendingUStack : List StackFrame := []
  pendingTimestamp : Int
  inUStack : Bool := false
  dates : Nat
  emitted : List ProbeEvent := []

def watchInit (cfg : WatchConfig) : WatchState where
  pendingTimestamp := cfg.clock 0
  dates := 1

/-- A stack for an event, `nil` without frames. -/
def framesOrNil (frames : List StackFrame) : Option (List StackFrame) := if frames = [] then none else some frames

def WatchState.event (cfg : WatchConfig) (s : WatchState) (body : Text) : ProbeEvent :=
  let (execname, pid) := parseMetadata cfg.boundary cfg.isNumber body
  { timestamp := s.pendingTimestamp
    profileName := cfg.profileName
    probeName := []
    pid
    execname
    printfBody := some body
    stack := framesOrNil s.pendingKStack
    ustack := framesOrNil s.pendingUStack }

def flushPending (cfg : WatchConfig) (s : WatchState) : WatchState :=
  match s.pendingBody with
  | none => s
  | some body =>
      { s with
        pendingBody := none
        pendingKStack := []
        pendingUStack := []
        inUStack := false
        emitted := s.emitted ++ [s.event cfg body] }

/-- The text of a line, without what surrounds it. -/
def trimmed (raw : Text) : Text := trimmingCharacters whitespacesAndNewlines raw

def isStackFrame (boundary : CharacterBoundary) (raw : Text) : Bool :=
  raw.head?.any isWhitespace && (standsIn (canonical · = '`') (scalars boundary (trimmed raw)) ||
    hasPrefix boundary (trimmed raw) ['0', 'x'])

/-- The body of the handler's loop over the lines. -/
def handleLine (cfg : WatchConfig) (s : WatchState) (raw : Text) : WatchState :=
  if trimmed raw = [] then s
  else if isStackFrame cfg.boundary raw then
    let frame := parseStackFrame cfg.boundary (trimmed raw)
    if s.inUStack then { s with pendingUStack := s.pendingUStack ++ [frame] }
    else { s with pendingKStack := s.pendingKStack ++ [frame] }
  else if trimmed raw = ustackMarker then { s with inUStack := true }
  else
    let s := flushPending cfg s
    { s with pendingBody := some (trimmed raw), pendingTimestamp := cfg.clock s.dates, dates := s.dates + 1 }

/-- The lines of a call; there are none in a fragment of an aggregation. -/
def BufferedOutput.lines (data : BufferedOutput) : List Text :=
  if data.isAggregation then [] else splitNewlines data.output

/-- The `onBufferedOutput` handler. -/
def onBufferedOutput (cfg : WatchConfig) (s : WatchState) (data : BufferedOutput) : WatchState :=
  data.lines.foldl (handleLine cfg) s

/-- The events of `runStructuredBackend`, whose poll loop makes these calls of the handler. -/
def structuredEvents (cfg : WatchConfig) (calls : List BufferedOutput) : List ProbeEvent :=
  (flushPending cfg (calls.foldl (onBufferedOutput cfg) (watchInit cfg))).emitted

/-!
## Texts that can be read back

When the text of a body shows where the name ends, and the text of a frame where its parts do.
-/

/-- The bracket behind a name is a `Character` of its own, and the first one. -/
structure BracketEnds (boundary : CharacterBoundary) (execname : Text) : Prop where
  first : standsIn (canonical · = '[') (scalars boundary execname) = false
  front : boundary execname ['['] = true

/-- A frame of one of the three forms that `formatted` writes, which trimming does not change: a module and a symbol
with or without an offset, or an address. -/
inductive Readable : StackFrame → Prop where
  | offset {module symbol : Text} (offset : UInt64) : (∀ d ∈ module.head?, whitespaces d = false) →
      Readable { address := 0, module, symbol, offset }
  | symbol {module symbol : Text} : (∀ d ∈ module.head?, whitespaces d = false) →
      (∀ d ∈ symbol.getLast?, whitespaces d = false) → Readable { address := 0, module, symbol }
  | address (address : UInt64) : Readable { address }

/-- The backtick behind a module is a `Character` of its own, and the first one. -/
structure ModuleEnds (boundary : CharacterBoundary) (module behind : Text) : Prop where
  first : standsIn (canonical · = '`') (scalars boundary module) = false
  front : boundary module ['`'] = true
  behind : boundary (module ++ ['`']) behind = true

/-- Behind the last `Character` of a symbol that is a plus, the text goes on with `0x`. -/
def HasOffset (boundary : CharacterBoundary) (symbol : Text) : Prop :=
  ∃ front tail, cutLast? boundary (canonical · = '+') symbol = some (front, tail) ∧
    hasPrefix boundary tail ['0', 'x'] = true

/-- The text of a frame shows where the module and the symbol end. -/
def Shown (boundary : CharacterBoundary) : StackFrame → Prop
  | { module := some module, symbol := some symbol, offset := some _, .. } =>
      ModuleEnds boundary module (symbol ++ ['+']) ∧ boundary symbol ['+'] = true
  | { module := some module, symbol := some symbol, offset := none, .. } =>
      ModuleEnds boundary module symbol ∧ ¬ HasOffset boundary symbol
  | _ => True

end ObservableBSD.Instruments
