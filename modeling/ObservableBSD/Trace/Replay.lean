import ObservableBSD.Trace.Session

/-!
# The files of a session

What a session writes, and what `decode` reads of it later. The protocol here follows the contents of the files
and the runs of the live decoder.
-/

namespace ObservableBSD.Trace.Session

open Base Elf Decode

/-! ## Offline -/

/-- What the decoder is run on. -/
structure DecodeInput where
  bytes : List UInt8
  sections : List PtImageInfo
  tid : Int
  mtcFreq : UInt8
  cycThresh : UInt8
deriving DecidableEq

/-- What `cmd_decode` runs the decoder on for a `.pt` file with its sidecar, when both can be read. -/
def cmdDecode (files : CString → Option (List UInt8)) (ptPath : CString) : Option DecodeInput :=
  match files (deriveMetaPath ptPath), files ptPath with
  | some sidecar, some bytes =>
      if bytes = [] then none
      else some
        { bytes
          sections := metaReadSections sidecar
          tid := (metaReadTid sidecar).toInt
          mtcFreq := (metaReadMtcFreq sidecar).toUInt32.toUInt8
          cycThresh := (metaReadCycThresh sidecar).toUInt32.toUInt8 }
  | _, _ => none

/-! ## The disk -/

/-- The files by their paths, the paths of the open streams, and what the live decoder was run on. -/
structure Disk where
  files : CString → Option (List UInt8)
  streams : Nat → Option CString := fun _ => none
  decoded : List DecodeInput := []

def Disk.put (d : Disk) (path : CString) (bytes : List UInt8) : Disk :=
  { d with files := fun p => if p = path then some bytes else d.files p }

def Disk.append (d : Disk) (path : CString) (bytes : List UInt8) : Disk :=
  d.put path ((d.files path).getD [] ++ bytes)

def Disk.setStream (d : Disk) (file : Nat) (path : Option CString) : Disk :=
  { d with streams := fun f => if f = file then path else d.streams f }

/-- The bytes of a buffer. -/
def memBytes (mem : Nat → UInt8) (addr len : Nat) : List UInt8 := (List.range len).map fun i => mem (addr + i)

def Disk.next (mem : Nat → UInt8) (d : Disk) : (c : SysCall) → c.Answer → Disk
  | .openOutput path => fun (ans : Option Fd) => if ans.isSome then d.put path [] else d
  | .write fd addr _ => fun (ans : Option Nat) => match fd.path, ans with
      | some path, some n => d.append path (memBytes mem addr n)
      | _, _ => d
  | .decodePtInsn addr len sections _ opts => fun _ =>
      { d with decoded := d.decoded ++
          [⟨memBytes mem addr len, sections, opts.tid, opts.mtcFreq, opts.cycThresh⟩] }
  | .fopen path => fun (ans : Option Nat) => match ans with
      | some file => (d.put path []).setStream file (some path)
      | none => d
  | .fprintf file text => fun _ => match d.streams file with
      | some path => d.append path text
      | none => d
  | .fclose file => fun _ => d.setStream file none
  | _ => fun _ => d

/-- A path that the sidecar keeps: nothing to escape, and short enough for its buffer. -/
def KeptPath (path : CString) : Prop := Plain path ∧ path.length ≤ 1017

/-- A descriptor is open on its path, no write takes more than it was given, every sidecar can be opened, the
kernel's paths are kept by it, and the kernel's base comes from a record or not at all. -/
def Disk.Answers (d : Disk) : (c : SysCall) → c.Answer → Prop
  | .openOutput path => fun (ans : Option Fd) => ∀ fd, ans = some fd → fd.path = some path
  | .write _ _ len => fun (ans : Option Nat) => ∀ n, ans = some n → n ≤ len
  | .fopen _ => fun (ans : Option Nat) => ∃ file, ans = some file ∧ d.streams file = none
  | .recordGet .. => fun (ans : Option (List BsdtraceRecord)) =>
      ∀ recs, ans = some recs → ∀ rec ∈ recs, KeptPath rec.fullpath
  | .vmmap _ => fun (ans : Option (List KinfoVmentry)) => ∀ entries, ans = some entries → ∀ kve ∈ entries, KeptPath kve.path
  | .kernBase => fun (ans : Option UInt64) => ans = none
  | _ => fun _ => True

/-- Every call is allowed; `mem` is the memory that the trace buffers are mapped to. -/
abbrev disk (mem : Nat → UInt8) : Protocol sys where
  State := Disk
  allows := fun _ _ => True
  answers := Disk.Answers
  next := Disk.next mem

end ObservableBSD.Trace.Session
