import ObservableBSD.Base.Memory

/-!
# HWT records and image sections

The records the kernel reports while a process is traced, flattened as in `struct bsdtrace_record`,
and the image sections that are collected from them.
-/

namespace ObservableBSD.Trace

open Base

/-- `enum hwt_record_type`, with the values no header names. -/
inductive HwtRecordType where
  | mmap
  | munmap
  | executable
  | kernel
  | threadCreate
  | threadSetName
  | buffer
  | overflow
  | unknown (code : Nat)
deriving DecidableEq, Repr

structure BsdtraceRecord where
  type : HwtRecordType
  fullpath : CString := []
  addr : UInt64 := 0
  baseaddr : UInt64 := 0
  bufId : Int := 0
  curpage : Int := 0
  offset : UInt64 := 0
  threadId : Int32 := 0
deriving DecidableEq, Repr

/-- `struct pt_image_info`: a binary image section collected from EXEC / MMAP records. -/
structure PtImageInfo where
  path : CString
  loadAddr : UInt64
  baseAddr : UInt64
  type : HwtRecordType
deriving DecidableEq, Repr

end ObservableBSD.Trace
