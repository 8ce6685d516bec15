import ObservableBSD.Decode.Insn
import ObservableBSD.Trace.State

/-!
# The snapshot of the trace buffer

The PT extent is chosen between two candidates, and the buffer is saved and decoded up to it. The part of
`snapshot_and_decode` behind the primary buffer, for additional threads, is left out.
-/

namespace ObservableBSD.Trace

open Base Elf Decode

/-- `PAGE_SIZE`. -/
def pageBytes : Nat := 4096

/-- What `decode_pt_probe` returns, and its result, which counts nothing when the probe fails. -/
structure ProbeOutcome where
  rc : Int
  result : DecodeProbeResult
  failed : rc ≠ 0 → result = {}

/-- The probe of a stretch of the buffer with the image sections. -/
abbrev Probe := List UInt8 → List PtImageInfo → ProbeOutcome

/-! ## The extent -/

/-- The loop of `pt_scan_last_nonzero`. -/
def ptScanLastNonzero (buf : List UInt8) : Nat → Nat
  | 0 => 0
  | len + 1 => if buf.getD len 0 = 0 then ptScanLastNonzero buf len else len + 1

def probeResultBetter (a b : DecodeProbeResult) : Bool :=
  if a.execHits ≠ b.execHits then b.execHits < a.execHits else b.total < a.total

/-- `choose_snapshot_len` between two different candidates, up to the page-size case. -/
def chooseCandidate (probe : Probe) (buf : List UInt8) (baseLen scanEnd : Nat) (sections : List PtImageInfo) : Nat :=
  if 0 < sections.length then
    let baseProbe := probe (buf.take baseLen) sections
    let scanProbe := probe (buf.take scanEnd) sections
    if scanProbe.rc = 0 ∧ (baseProbe.rc ≠ 0 ∨ probeResultBetter scanProbe.result baseProbe.result) then scanEnd
    else if baseProbe.rc ≠ 0 ∧ scanProbe.rc ≠ 0 ∧ scanEnd < baseLen then scanEnd
    else baseLen
  else if scanEnd < baseLen then scanEnd
  else baseLen

/-- `choose_snapshot_len`; `bufsz` is the length of the buffer. -/
def chooseSnapshotLen (probe : Probe) (buf : List UInt8) (baseLen : Nat) (sections : List PtImageInfo) : Nat :=
  if buf.length = 0 then 0
  else
    let baseLen := if buf.length < baseLen then buf.length else baseLen
    let scanEnd := ptScanLastNonzero buf buf.length
    if baseLen = 0 then scanEnd
    else if scanEnd = 0 ∨ scanEnd = baseLen then baseLen
    else
      let chosen := chooseCandidate probe buf baseLen scanEnd sections
      -- the stop pointer may have lost its page index
      if chosen = baseLen ∧ baseLen < pageBytes ∧ baseLen < scanEnd then scanEnd else chosen

/-! ## The file -/

/-- An open file: what `write` makes of the bytes that it is given at an offset, `none` when it fails. It
takes at least one of them. -/
structure OutputFile where
  write : Nat → List UInt8 → Option Nat
  progress : ∀ off bytes n, bytes ≠ [] → write off bytes = some n → 0 < n ∧ n ≤ bytes.length

/-- The loop of `hwt_ctx_snapshot_buffer` behind `off` bytes, with the bytes that are left: what the file holds
of them in the end, `none` when a write fails. -/
def writeLoop (file : OutputFile) (off : Nat) (bytes : List UInt8) : Option (List UInt8) :=
  if _hbytes : bytes = [] then some []
  else match _hn : file.write off bytes with
    | none => none
    | some n => (writeLoop file (off + n) (bytes.drop n)).map (bytes.take n ++ ·)
termination_by bytes.length
decreasing_by
  have := file.progress off bytes n _hbytes _hn
  rw [List.length_drop]
  omega

/-- `(size_t)page * PAGE_SIZE + offset`. -/
def bufferPosition (page : Int) (offset : UInt64) : UInt64 := UInt64.ofInt page * UInt64.ofNat pageBytes + offset

/-- A trace buffer of `bufsize` bytes, when it can be mapped. -/
structure TraceBuffer where
  bufsize : Nat
  mapped : Option { buf : List UInt8 // buf.length = bufsize }

/-- The return value of the snapshot, and what the file holds when it was written. -/
structure Snapshot where
  saved : Int
  file : Option (List UInt8) := none
deriving DecidableEq

/-- `hwt_ctx_snapshot_buffer`; `file` is the output file, when it can be opened. -/
def hwtCtxSnapshotBuffer (ctx : TraceBuffer) (file : Option OutputFile) (lastPage : Int32) (lastOffset : UInt64) :
    Snapshot :=
  if lastPage < 0 then ⟨0, none⟩
  else match ctx.mapped with
    | none => ⟨-1, none⟩
    | some buf =>
        let total := (bufferPosition lastPage.toInt lastOffset).toNat
        let total := if ctx.bufsize < total then ctx.bufsize else total
        if total = 0 then ⟨0, none⟩
        else match file with
          | none => ⟨-1, none⟩
          | some file => match writeLoop file 0 (buf.val.take total) with
            | none => ⟨-1, none⟩
            | some bytes => ⟨total, some bytes⟩

/-! ## `snapshot_and_decode` -/

/-- The extent that the kernel reports: where the trace stopped, when that can be read, or the position of the
last BUFFER record. -/
def knownEnd (bufsize : Nat) (stop : Option (Int32 × UInt64)) (ts : TraceState) : Nat :=
  let stopLen := match stop with
    | none => 0
    | some (page, offset) => (bufferPosition page.toInt offset).toNat
  let recordLen := if 0 ≤ ts.lastBufPage then (bufferPosition ts.lastBufPage ts.lastBufOffset).toNat else 0
  let stopLen := if bufsize < stopLen then 0 else stopLen
  let recordLen := if bufsize < recordLen then 0 else recordLen
  if stopLen = 0 ∨ (0 < recordLen ∧ stopLen < recordLen) then recordLen else stopLen

/-- What the session saves, and the bytes that it decodes. -/
structure SnapshotRun where
  snapshot : Snapshot
  decoded : Option (List UInt8) := none
deriving DecidableEq

/-- `(int)(len / PAGE_SIZE)`. -/
def snapshotPage (len : Nat) : Int32 := Int32.ofNat (len / pageBytes)

def snapshotOffset (len : Nat) : UInt64 := UInt64.ofNat (len % pageBytes)

def snapshotAndDecode (probe : Probe) (ctx : TraceBuffer) (file : Option OutputFile) (stop : Option (Int32 × UInt64))
    (ts : TraceState) : SnapshotRun :=
  match ctx.mapped with
  | none => ⟨⟨-1, none⟩, none⟩
  | some buf =>
      let actualLen := chooseSnapshotLen probe buf.val (knownEnd ctx.bufsize stop ts) ts.sections
      if actualLen = 0 then ⟨⟨0, none⟩, none⟩
      else
        let snapshot := hwtCtxSnapshotBuffer ctx file (snapshotPage actualLen) (snapshotOffset actualLen)
        ⟨snapshot, if 0 < snapshot.saved then some (buf.val.take snapshot.saved.toNat) else none⟩

end ObservableBSD.Trace
