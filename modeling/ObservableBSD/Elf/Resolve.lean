import ObservableBSD.Base.Stdio
import ObservableBSD.Elf.Format

/-!
# Resolving range filters

`-r` arguments become ranges of runtime addresses: raw addresses are copied, a symbol is looked up in
the ELF file and moved by the slide.
-/

namespace ObservableBSD.Elf

open Base Trace

def unknownSizeFallback : UInt64 := 4096

/-- `struct kinfo_vmentry`; `vnode` is the type `KVME_TYPE_VNODE`, `exec` the flag `KVME_PROT_EXEC`. -/
structure KinfoVmentry where
  structsize : Nat
  vnode : Bool
  exec : Bool
  path : CString
  start : UInt64
deriving DecidableEq, Repr

def KinfoVmentry.execMapping (kve : KinfoVmentry) : Bool := kve.vnode && kve.exec && kve.path ≠ []

/-- The entries in front of the one with structure size 0. -/
def vmEntries (vmmap : List KinfoVmentry) : List KinfoVmentry :=
  vmmap.takeWhile fun kve => kve.structsize ≠ 0

/-- `process_load_addr`. `vmmap` is the map that `KERN_PROC_VMMAP` returns, when it does. -/
def processLoadAddr (vmmap : Option (List KinfoVmentry)) (exePath : CString) : Option UInt64 :=
  match vmmap with
  | none => none
  | some vmmap =>
      ((vmEntries vmmap).find? fun kve => kve.execMapping && kve.path = exePath).map (·.start)

def processExecMmaps (vmmap : Option (List KinfoVmentry)) : Option (List PtImageInfo) :=
  match vmmap with
  | none => none
  | some vmmap => some (((vmEntries vmmap).filter KinfoVmentry.execMapping).map fun kve =>
      { path := strlcpy maxPathLen kve.path, loadAddr := kve.start, baseAddr := 0, type := .mmap })

inductive RangeSpecType where
  | addr
  | symbol
deriving DecidableEq, Repr

structure RangeSpec where
  type : RangeSpecType
  start : UInt64 := 0
  endAddr : UInt64 := 0
  symbol : CString := []
  mode : Int := 1
deriving DecidableEq, Repr

def rangeSpecSymlen : Nat := 256

def ptRangeFilter : Int := 1

def ptRangeTracestop : Int := 2

/-- The text behind the prefix `stop:`, and the mode. -/
def rangeArg (arg : CString) : CString × Int :=
  if arg.take 5 = cstr "stop:" then (arg.drop 5, ptRangeTracestop) else (arg, ptRangeFilter)

/-- The format of `parse_range_spec`. -/
def rangeFormat : List Directive := [.literal (cstr "0x"), .hexLong, .literal (cstr ":0x"), .hexLong]

def parseRangeSpec (arg : CString) : Option RangeSpec :=
  let (inner, mode) := rangeArg arg
  match sscanf rangeFormat inner with
  | [.long start, .long endAddr] => some { type := .addr, start, endAddr, mode }
  | scanned =>
      if inner = [] then none
      else if rangeSpecSymlen ≤ inner.length then none
      else
        -- The start that the scan has set before it failed stays in the spec.
        let start := match scanned with
          | .long start :: _ => start
          | _ => 0
        some { type := .symbol, start, symbol := inner, mode }

/-- A range of `struct ip_filter` with its mode. -/
structure IpRange where
  start : UInt64
  endAddr : UInt64
  mode : Int
deriving DecidableEq, Repr

/-- `sym.st_value + slide`. -/
def slideAddr (value : UInt64) (slide : Int64) : UInt64 := value + slide.toUInt64

/-- The symbol that `resolve_symbol_in_elf` takes: the first with the name in `.symtab`, else in
`.dynsym`. -/
def elfFindSym (elf : ElfFile) (name : CString) : Option GElfSym :=
  (elfFuncSyms elf .symtab ++ elfFuncSyms elf .dynsym).find? fun sym => sym.name = some name

def resolveSymbolInElf (files : Files) (path : CString) (slide : Int64) (name : CString) :
    Option (UInt64 × UInt64) :=
  match files path with
  | none => none
  | some elf => match elfFindSym elf name with
      | none => none
      | some sym =>
          some (slideAddr sym.value slide,
            if 0 < sym.size then slideAddr (sym.value + sym.size) slide
            else slideAddr (sym.value + unknownSizeFallback) slide)

/-- `compute_slide`: the slide, and whether ASLR must be disabled. -/
def computeSlide (files : Files) (exePath : CString) (vmmap : Option (List KinfoVmentry))
    (isExecMode : Bool) : Option (Int64 × Bool) :=
  match files exePath with
  | none => none
  | some elf =>
      if isExecMode then
        match elf.ehdr with
        | none => none
        | some ehdr => if ehdr = .dyn then none else some (0, true)
      else
        match elfBaseVaddr elf with
        | none => none
        | some baseVaddr => match processLoadAddr vmmap exePath with
            | none => none
            | some loadAddr => some (loadAddr.toInt64 - baseVaddr.toInt64, false)

def maxRanges : Nat := 2

/-- The loop of `resolve_range_specs`. -/
def resolveLoop (files : Files) (exePath : CString) (slide : Int64) :
    List RangeSpec → List IpRange → Option (List IpRange)
  | [], ranges => some ranges
  | spec :: specs, ranges =>
      if maxRanges ≤ ranges.length then none
      else match spec.type with
        | .addr => resolveLoop files exePath slide specs
            (ranges ++ [⟨spec.start, spec.endAddr, spec.mode⟩])
        | .symbol => match resolveSymbolInElf files exePath slide spec.symbol with
            | none => none
            | some (start, endAddr) =>
                resolveLoop files exePath slide specs (ranges ++ [⟨start, endAddr, spec.mode⟩])

/-- `resolve_range_specs`: the ranges of the filter, and whether ASLR must be disabled. -/
def resolveRangeSpecs (files : Files) (specs : List RangeSpec) (vmmap : Option (List KinfoVmentry))
    (exePath : Option CString) (isExecMode : Bool) : Option (List IpRange × Bool) :=
  if specs.any fun spec => spec.type = .symbol then
    match exePath with
    | none => none
    | some exePath =>
        if exePath = [] then none
        else match computeSlide files exePath vmmap isExecMode with
          | none => none
          | some (slide, aslr) =>
              (resolveLoop files exePath slide specs []).map fun ranges => (ranges, aslr)
  else (resolveLoop files [] 0 specs []).map fun ranges => (ranges, false)

end ObservableBSD.Elf
