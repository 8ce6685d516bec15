import ObservableBSD.Trace.Lemmas.SessionEvents

/-!
# The relay of the records

A session hands on the records that it gets from the kernel: each one is printed while tracing runs, and its lines
go to the sidecar. The state is what is still to be handed on. No record may be asked for while one waits.
-/

namespace ObservableBSD.Trace.Session

open Base Elf Decode

/-- `sidecar` is the answer of the first `fopen`. -/
structure Relay where
  sidecar : Option (Option Nat) := none
  polled : Bool := false
  stopped : Bool := false
  printing : List BsdtraceRecord := []
  writing : List CString := []

/-- The formats that print the records. -/
def printsRecords (fmt : BsdtraceFmt) : Bool := fmt = .json ∨ fmt = .text

/-- What is to be printed of the records of a poll. -/
def toPrint (fmt : BsdtraceFmt) (stopped : Bool) (recs : List BsdtraceRecord) : List BsdtraceRecord :=
  if printsRecords fmt && !stopped then recs else []

/-- What is to be written of the records of a poll. -/
def toWrite (file : Option Nat) (recs : List BsdtraceRecord) : List CString :=
  if file.isSome then recs.flatMap metaWriterRecord else []

def polledRecords (ans : Option (List BsdtraceRecord)) : List BsdtraceRecord := (ans.getD []).map recordOfEntry

/-- Records are printed and written in their order, and nothing else is. In front of the first poll, the sidecar gets
its first lines. -/
def Relay.Allows (r : Relay) : SysCall → Prop
  | .recordGet .. => r.sidecar.isSome = true ∧ r.printing = [] ∧ r.writing = []
  | .print rec _ => r.printing.head? = some rec
  | .fprintf file line => r.sidecar = some (some file) → r.polled = true → r.writing.head? = some line
  | _ => True

/-- A file that is opened is not the sidecar, which is open up to the end. -/
def Relay.Answers (r : Relay) : (c : SysCall) → c.Answer → Prop
  | .fopen _ => fun (ans : Option Nat) => ∀ file, ans = some file → r.sidecar ≠ some (some file)
  | _ => fun _ => True

def Relay.next (fmt : BsdtraceFmt) (r : Relay) : (c : SysCall) → c.Answer → Relay
  | .fopen _ => fun (ans : Option Nat) => { r with sidecar := some (r.sidecar.getD ans) }
  | .stop _ => fun _ => { r with stopped := true }
  | .recordGet .. => fun (ans : Option (List BsdtraceRecord)) =>
      { r with
        polled := true
        printing := toPrint fmt r.stopped (polledRecords ans)
        writing := toWrite r.sidecar.join (polledRecords ans) }
  | .print .. => fun _ => { r with printing := r.printing.tail }
  | .fprintf file _ => fun _ =>
      if r.sidecar = some (some file) ∧ r.polled = true then { r with writing := r.writing.tail } else r
  | _ => fun _ => r

abbrev relay (fmt : BsdtraceFmt) : Protocol sys where
  State := Relay
  allows := Relay.Allows
  answers := Relay.Answers
  next := Relay.next fmt

/-- Nothing waits to be handed on. -/
structure Relay.Idle (r : Relay) : Prop where
  printing : r.printing = []
  writing : r.writing = []

/-! ## The calls of a run -/

/-- The records that the kernel hands over. -/
def handedOver : SysEvent → List BsdtraceRecord
  | ⟨.recordGet .., ans⟩ => polledRecords ans
  | _ => []

def printedRecords (events : List SysEvent) : List BsdtraceRecord :=
  events.filterMap fun e => match e.call with
    | .print rec _ => some rec
    | _ => none

/-- The lines that are written to a file. -/
def writtenLines (file : Nat) (events : List SysEvent) : List CString :=
  events.filterMap fun e => match e.call with
    | .fprintf f line => if f = file then some line else none
    | _ => none

/-- A call that opens a file of the standard I/O library. -/
def SysCall.isFopen : SysCall → Bool
  | .fopen _ => true
  | _ => false

/-- The records to be printed: those from in front of the first stop, with a format that prints them. -/
def shownRecords (fmt : BsdtraceFmt) (events : List SysEvent) : List BsdtraceRecord :=
  if printsRecords fmt then (events.takeWhile fun e => !e.call.stops).flatMap handedOver else []

/-- One list is the other up to some point, and all of it once the session has returned. -/
structure UpTo {α : Type} (returned : Bool) (xs ys : List α) : Prop where
  isPrefix : xs <+: ys
  whole : returned = true → xs = ys

/-- Every record that the kernel hands over in front of the stop is printed, once and in order, and nothing else is.
The lines of every record are written to the sidecar, once and in order, and from the first poll on nothing else is. -/
structure RelaysRecords (fmt : BsdtraceFmt) (returned : Bool) (events : List SysEvent) : Prop where
  printed : UpTo returned (printedRecords events) (shownRecords fmt events)
  written : ∀ front path file mid fd n ans back,
    events = front ++ ⟨.fopen path, some file⟩ :: (mid ++ ⟨.recordGet fd n, ans⟩ :: back) →
    (∀ e ∈ front, e.call.isFopen = false) → (∀ e ∈ mid, handedOver e = []) →
    UpTo returned (writtenLines file back)
      (((⟨.recordGet fd n, ans⟩ :: back).flatMap handedOver).flatMap metaWriterRecord)

end ObservableBSD.Trace.Session
