import Mathlib.Data.List.ReduceOption
import ObservableBSD.Elf.Resolve

/-!
# Image sections, and the ranges of the traced binaries

Which of the collected sections are loaded, and the interpreter that a main image asks for. An address that no symbol
covers is named by the binary whose segment it lies in.
-/

namespace ObservableBSD.Elf

open Base Trace

/-! ## Image sections -/

def isUserAddr (addr : UInt64) : Bool :=
  if addr = 0 then false
  else if 0x0000800000000000 ≤ addr then false
  else true

/-- A section of this type with this path. -/
def sectionIs (type : HwtRecordType) (path : CString) (sec : PtImageInfo) : Bool :=
  sec.type = type && sec.path = path

/-- A mapping of the path, at index `i`, that stands in for the one at `idx`: it lies lower, or as low
and in front. -/
def lowerMmap (sec : PtImageInfo) (idx : Nat) (other : PtImageInfo × Nat) : Bool :=
  other.2 ≠ idx && sectionIs .mmap sec.path other.1 &&
    (other.1.loadAddr < sec.loadAddr || (other.1.loadAddr = sec.loadAddr && other.2 < idx))

def sectionShouldUse (sections : List PtImageInfo) (idx : Nat) : Bool :=
  match sections[idx]? with
  | none => false
  | some sec =>
      if sec.path = [] then false
      else match sec.type with
        | .executable => !(sections.take idx).any (sectionIs .executable sec.path)
        | .mmap =>
            !sections.any (sectionIs .executable sec.path) && !sections.zipIdx.any (lowerMmap sec idx)
        | _ => true

/-- What `lseek` and `read` return of a file at an offset, when they return as many bytes as asked
for. -/
abbrev FileBytes := CString → UInt64 → UInt64 → Option (List UInt8)

/-- `elf_get_interp` into a buffer of `interpsz` bytes. -/
def elfGetInterp (files : Files) (bytes : FileBytes) (path : CString) (interpsz : UInt64) :
    Option CString :=
  match files path with
  | none => none
  | some elf => match elf.phdrs with
      | none => none
      | some phdrs => match phdrs.reduceOption.find? fun phdr => phdr.type = .interp with
          | none => none
          | some phdr =>
              if phdr.filesz = 0 ∨ interpsz ≤ phdr.filesz then none
              else (bytes path phdr.offset phdr.filesz).map fun buf => buf.takeWhile (· ≠ 0)

/-! ## Ranges -/

/-- `struct bin_range`: the base name of a binary and the runtime addresses of one of its segments. -/
structure BinRange where
  name : CString
  lo : UInt64
  hi : UInt64
  base : UInt64
deriving DecidableEq

def maxBinRanges : Nat := 256

/-- The size of `name`. -/
def binNameSize : Nat := 64

/-- `basename` of the C library. -/
def basename (path : CString) : CString :=
  let trimmed := (path.reverse.dropWhile (· = 47)).reverse
  if path = [] then cstr "."
  else if trimmed = [] then cstr "/"
  else afterLastSlash trimmed

section

variable (files : Files) (bytes : FileBytes) (maxranges : Nat)

/-- The loop over the program headers of one file. -/
def addBinRanges (name : CString) (base : UInt64) (slide : Int64) :
    List (Option GElfPhdr) → List BinRange → List BinRange
  | [], ranges => ranges
  | phdr :: phdrs, ranges =>
      if maxranges ≤ ranges.length then ranges
      else match phdr with
        | none => addBinRanges name base slide phdrs ranges
        | some phdr =>
            if phdr.execLoad then
              addBinRanges name base slide phdrs
                (ranges ++ [{ name := strlcpy binNameSize name
                              lo := slideAddr phdr.vaddr slide
                              hi := slideAddr phdr.vaddr slide + phdr.filesz
                              base }])
            else addBinRanges name base slide phdrs ranges

/-- The ranges of the interpreter that an `EXEC` record was loaded with. -/
def binRangesInterp (ranges : List BinRange) (interp : CString) (baseAddr : UInt64) : List BinRange :=
  match files interp with
  | none => ranges
  | some elf => match elfBaseVaddr elf, elf.phdrs with
      | some interpBase, some phdrs =>
          addBinRanges maxranges (cstr "ld-elf.so.1") baseAddr
            (baseAddr.toInt64 - interpBase.toInt64) phdrs ranges
      | _, _ => ranges

/-- One round of the loop of `build_bin_ranges`, for a section that is used. -/
def binRangesSection (sections : List PtImageInfo) (ranges : List BinRange) (sec : PtImageInfo) :
    List BinRange :=
  match files sec.path with
  | none => ranges
  | some elf => match elfBaseVaddr elf, elfEffectiveLoadAddr elf sec.type sec.loadAddr with
      | some baseVaddr, some loadAddr =>
          let ranges := match elf.phdrs with
            | none => ranges
            | some phdrs => addBinRanges maxranges (basename sec.path) loadAddr
                (loadAddr.toInt64 - baseVaddr.toInt64) phdrs ranges
          if sec.type = .executable ∧ isUserAddr sec.baseAddr ∧ sec.baseAddr ≠ loadAddr then
            match elfGetInterp files bytes sec.path 1024 with
            | none => ranges
            | some interp =>
                if sections.any (sectionIs .mmap interp) then ranges
                else binRangesInterp files maxranges ranges interp sec.baseAddr
          else ranges
      | _, _ => ranges

/-- The loop of `build_bin_ranges` over the indices of the sections. -/
def binRangesLoop (sections : List PtImageInfo) : List Nat → List BinRange → List BinRange
  | [], ranges => ranges
  | i :: idxs, ranges =>
      if maxranges ≤ ranges.length then ranges
      else match sections[i]? with
        | none => ranges -- no such index
        | some sec =>
            if sectionShouldUse sections i then
              binRangesLoop sections idxs
                (binRangesSection files bytes maxranges sections ranges sec)
            else binRangesLoop sections idxs ranges

def buildBinRanges (sections : List PtImageInfo) : List BinRange :=
  binRangesLoop files bytes maxranges sections (List.range sections.length) []

end

/-- `find_binary_for_ip`, with the offset it fills in. -/
def findBinaryForIp (ranges : List BinRange) (ip : UInt64) : Option (CString × UInt64) :=
  match ranges.find? fun r => r.lo ≤ ip ∧ ip < r.hi with
  | some r => some (r.name, ip - r.lo)
  | none => none

end ObservableBSD.Elf
