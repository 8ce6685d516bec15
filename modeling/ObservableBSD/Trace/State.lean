import ObservableBSD.Elf.Resolve
import ObservableBSD.Trace.Meta

/-!
# The trace state of a session

`struct trace_state` collects the image sections while the sidecar is written; at the end its sections go
to the live decoder.
-/

namespace ObservableBSD.Trace

open Base Elf

/-- `struct trace_state`. `metaLines` is what has been written to its sidecar, which is open. -/
structure TraceState where
  sections : List PtImageInfo := []
  metaLines : List CString := []
  lastBufPage : Int := -1
  maxBufPage : Int := -1
  lastBufOffset : UInt64 := 0
  bufWrapped : Bool := false
  overflowCount : Nat := 0

def traceStateAddSection (ts : TraceState) (path : CString) (loadAddr baseAddr : UInt64)
    (type : HwtRecordType) : TraceState :=
  if path = [] then ts
  else { ts with sections := ts.sections ++ [{ path := strlcpy maxPathLen path, loadAddr, baseAddr, type }] }

def traceStateResetSections (ts : TraceState) : TraceState := { ts with sections := [] }

/-- The extent of the buffer in `trace_state_process`. -/
def traceStateBuffer (ts : TraceState) (rec : BsdtraceRecord) : TraceState :=
  { ts with
    bufWrapped := ts.bufWrapped || (0 ≤ ts.maxBufPage && rec.curpage < ts.maxBufPage)
    maxBufPage := if ts.maxBufPage < rec.curpage then rec.curpage else ts.maxBufPage
    lastBufPage := rec.curpage
    lastBufOffset := rec.offset }

def BsdtraceRecord.givesSection (rec : BsdtraceRecord) : Bool :=
  (rec.type = .executable || rec.type = .mmap || rec.type = .kernel) && rec.fullpath ≠ []

def traceStateProcess (ts : TraceState) (rec : BsdtraceRecord) : TraceState :=
  let ts := { ts with metaLines := ts.metaLines ++ metaWriterRecord rec }
  let ts := if rec.type = .buffer then traceStateBuffer ts rec else ts
  let ts := if rec.type = .overflow then { ts with overflowCount := ts.overflowCount + 1 } else ts
  if rec.givesSection then
    let ts := if rec.type = .executable then traceStateResetSections ts else ts
    traceStateAddSection ts rec.fullpath rec.addr rec.baseaddr rec.type
  else ts

def traceStateSeedProcessMmaps (ts : TraceState) (vmmap : Option (List KinfoVmentry)) : TraceState :=
  match processExecMmaps vmmap with
  | none => ts
  | some sections =>
      let ts := { ts with metaLines := ts.metaLines ++ metaWriterSections sections }
      sections.foldl (fun ts sec => traceStateAddSection ts sec.path sec.loadAddr sec.baseAddr sec.type) ts

/-- `trace_state_ensure_kernel`. `kernBase` is what the sysctl gives, when it does. -/
def traceStateEnsureKernel (ts : TraceState) (kernBase : Option UInt64) : TraceState :=
  if ts.sections.any (·.type = .kernel) then ts
  else match kernBase with
    | none => ts
    | some kbase => traceStateAddSection ts (cstr "/boot/kernel/kernel") kbase 0 .kernel

/-- A run of `exec` or `trace`: the arguments of the sidecar's first lines, the map that seeds the sections
in `trace` mode, the records of the main loop, of the final drain and of the drain behind the stop, and `-K`
with the outcome of its sysctl. -/
structure TraceSession where
  pid : Int32
  tid : Int32
  mtcFreq : UInt8
  cycThresh : UInt8
  seeds : Option (Option (List KinfoVmentry))
  mainRecords : List BsdtraceRecord
  finalRecords : List BsdtraceRecord
  postStopRecords : List BsdtraceRecord
  osTrace : Bool
  kernBase : Option UInt64

def TraceSession.records (s : TraceSession) : List BsdtraceRecord :=
  s.mainRecords ++ s.finalRecords ++ s.postStopRecords

def TraceSession.start (s : TraceSession) : TraceState :=
  let ts : TraceState := { metaLines := metaWriterHeader s.pid s.tid ++ metaWriterTiming s.mtcFreq s.cycThresh }
  match s.seeds with
  | none => ts
  | some vmmap => traceStateSeedProcessMmaps ts vmmap

def TraceSession.drained (s : TraceSession) : TraceState := s.records.foldl traceStateProcess s.start

/-- The state whose sections `trace_finalize` passes to the live decoder. -/
def TraceSession.finalize (s : TraceSession) : TraceState :=
  if s.osTrace then traceStateEnsureKernel s.drained s.kernBase else s.drained

end ObservableBSD.Trace
