import ObservableBSD.Decode.CallTree
import ObservableBSD.Decode.Collapsed
import ObservableBSD.Decode.Image
import ObservableBSD.Decode.Profile
import ObservableBSD.Decode.PtDecoder
import ObservableBSD.Elf.Ranges

/-!
# Decoding a trace

`decode_pt_insn` and `decode_pt_probe`, from the first sync on. The image, the symbol table and the
ranges are those that the code in front of the loop has built. A printed line is kept as the data it
shows. The counters are `int` and are taken to stay below 2^31.
-/

namespace ObservableBSD.Decode

open Base Elf Trace

inductive BsdtraceFmt where
  | text
  | json
  | profile
  | tree
  | collapsed
  | speedscope
  | callers
deriving DecidableEq, Repr

structure PtDecodeOpts where
  tid : Int := -1
  mtcFreq : UInt8 := 0
  cycThresh : UInt8 := 0
  filterFuncs : List CString := []

def filterMatches (opts : Option PtDecodeOpts) (name : Option CString) : Bool :=
  match opts with
  | none => true
  | some opts =>
      if opts.filterFuncs.length = 0 then true
      else match name with
        | none => false
        | some name => opts.filterFuncs.contains name

def insnClassStr : PtInsnClass → Option CString
  | .call => some (cstr "CALL")
  | .ret => some (cstr "RETURN")
  | .jump => some (cstr "JUMP")
  | .condJump => some (cstr "CJMP")
  | .farCall => some (cstr "SYSCALL")
  | .farReturn => some (cstr "SYSRET")
  | .farJump => some (cstr "FARJMP")
  | .ptwrite => some (cstr "PTWRITE")
  | _ => none

def syscallPrefix : CString := cstr "__sys_"

/-- Where a printed instruction lies: at a symbol, in a binary, or at a bare address. -/
inductive InsnPlace where
  | symbol (name binary : CString) (off : UInt64) (syscall : Option CString)
  | binary (name : CString) (off : UInt64)
  | address

inductive DecodeLine where
  | ptwrite (payload ip : UInt64)
  | insn (label : CString) (ip : UInt64) (place : InsnPlace) (tsc : UInt64)

/-- What the loop of `decode_pt_insn` reads. -/
structure DecodeEnv where
  fmt : BsdtraceFmt
  opts : Option PtDecodeOpts
  sections : List PtImageInfo
  symbols : List SymEntry
  ranges : List BinRange
  dwarf : DwarfLookup

structure DecodeState where
  total : Nat := 0
  calls : Nat := 0
  branches : Nat := 0
  returns : Nat := 0
  syscalls : Nat := 0
  nomaps : Nat := 0
  errors : Nat := 0
  ovfCount : Nat := 0
  totalLostMtc : UInt32 := 0
  totalLostCyc : UInt32 := 0
  prof : Profile := profileInit
  ct : Calltree := calltreeInit
  col : Collapsed := collapsedInit
  lines : List DecodeLine := []

/-! ## `decode_pt_insn` -/

def decodeOnEvent (env : DecodeEnv) (st : DecodeState) (ev : PtEvent) : DecodeState :=
  match ev with
  | .overflow => { st with ovfCount := st.ovfCount + 1 }
  | .ptwrite payload ip =>
      match env.fmt with
      | .json | .text => { st with lines := st.lines ++ [.ptwrite payload ip] }
      | _ => st
  | .other => st

def decodeCount (insn : PtInsn) (time : PtTime) (st : DecodeState) : DecodeState :=
  let st := { st with
    totalLostMtc := st.totalLostMtc + time.lostMtc
    totalLostCyc := st.totalLostCyc + time.lostCyc
    total := st.total + 1 }
  match insn.iclass with
  | .call => { st with calls := st.calls + 1 }
  | .jump | .condJump => { st with branches := st.branches + 1 }
  | .ret => { st with returns := st.returns + 1 }
  | .farCall => { st with syscalls := st.syscalls + 1 }
  | _ => st

/-- The system call that an instruction in a libsys wrapper makes. -/
def decodeSyscall (insn : PtInsn) (s : SymEntry) : Option CString :=
  if insn.iclass = .farCall ∧ syscallPrefix <+: s.name.text then
    some (s.name.text.drop syscallPrefix.length)
  else none

/-- The line of an instruction, when the filter lets it through. -/
def decodeLine (env : DecodeEnv) (insn : PtInsn) (time : PtTime) (label : CString) : Option DecodeLine :=
  let sym := symTableLookup env.symbols insn.ip
  if filterMatches env.opts (sym.map (·.name.text)) then
    some (.insn label insn.ip
      (match sym with
        | some s => .symbol s.name.text s.binary.text (insn.ip - s.addr) (decodeSyscall insn s)
        | none => match findBinaryForIp env.ranges insn.ip with
            | some (name, off) => .binary name off
            | none => .address)
      time.tsc)
  else none

def decodeOnInsn (env : DecodeEnv) (st : DecodeState) (insn : PtInsn) (time : PtTime) : DecodeState :=
  let st := decodeCount insn time st
  let x : DecodedInsn := ⟨symTableLookup env.symbols insn.ip, insn.ip, insn.iclass, time.tsc⟩
  match env.fmt with
  | .profile => { st with prof := profileRecord env.dwarf (some env.sections) st.prof x }
  | .tree | .callers => { st with ct := calltreeRecord st.ct x }
  | .collapsed | .speedscope => { st with col := collapsedRecord st.col x }
  | .text | .json =>
      match insnClassStr insn.iclass with
      | none => st
      | some label => { st with lines := st.lines ++ (decodeLine env insn time label).toList }

def decodeOnError (st : DecodeState) (e : PtError) : DecodeState :=
  if e = .nomap then { st with nomaps := st.nomaps + 1 } else { st with errors := st.errors + 1 }

/-- The body of the loop of `decode_pt_insn`. -/
def decodePtInsnBody (env : DecodeEnv) : LoopBody DecodeState where
  onEvent := decodeOnEvent env
  onInsn := decodeOnInsn env
  onError := decodeOnError

/-- The loop of `decode_pt_insn`, from the first sync on. -/
def decodePtInsnLoop (env : DecodeEnv) (trace : List PtSegment) : PtDecoder × DecodeState :=
  decodeTrace (decodePtInsnBody env) trace {}

def decodePtInsn (env : DecodeEnv) (trace : List PtSegment) : Int :=
  if 0 < (decodePtInsnLoop env trace).2.total then 0 else -1

/-! ## `decode_pt_probe` -/

def pathBasename (path : CString) : CString :=
  let base := afterLastSlash path
  if base = [] then path else base

/-- `sizeof(exec_bins[nbins])`. -/
def execBinSize : Nat := 64

/-- `nitems(exec_bins)`. -/
def maxExecBins : Nat := 16

/-- One round of the loop of `collect_exec_binaries`. -/
def collectExecBinary (maxbins : Nat) (bins : List CString) (s : PtImageInfo) : List CString :=
  if bins.length < maxbins ∧ s.type = .executable ∧ s.path ≠ [] then
    let bn := pathBasename s.path
    if bins.contains bn then bins else bins ++ [strlcpy execBinSize bn]
  else bins

def collectExecBinaries (sections : List PtImageInfo) (maxbins : Nat) : List CString :=
  sections.foldl (collectExecBinary maxbins) []

def isExecBinary (binary : Option CString) (execBins : List CString) : Bool :=
  match binary with
  | none => false
  | some binary => if binary = [] then false else execBins.contains binary

structure DecodeProbeResult where
  total : Nat := 0
  execHits : Nat := 0

structure ProbeEnv where
  sections : List PtImageInfo
  symbols : List SymEntry
  ranges : List BinRange

def probeHit (env : ProbeEnv) (insn : PtInsn) : Bool :=
  let execBins := collectExecBinaries env.sections maxExecBins
  match symTableLookup env.symbols insn.ip with
  | some s => isExecBinary (some s.binary.text) execBins
  | none => isExecBinary ((findBinaryForIp env.ranges insn.ip).map (·.1)) execBins

/-- The body of the loop of `decode_pt_probe`. It skips the events and counts no errors. -/
def decodePtProbeBody (env : ProbeEnv) : LoopBody DecodeProbeResult where
  onEvent probe _ := probe
  onInsn probe insn _ :=
    { total := probe.total + 1
      execHits := if probeHit env insn then probe.execHits + 1 else probe.execHits }
  onError probe _ := probe

/-- The loop of `decode_pt_probe`, from the first sync on. -/
def decodePtProbeLoop (env : ProbeEnv) (trace : List PtSegment) : PtDecoder × DecodeProbeResult :=
  decodeTrace (decodePtProbeBody env) trace {}

def decodePtProbe (env : ProbeEnv) (trace : List PtSegment) : Int :=
  if 0 < (decodePtProbeLoop env trace).2.total then 0 else -1

/-!
## A probe of the sections

`decode_pt_probe` with what it builds in front of its loop.
-/

/-- What the loop of `decode_pt_probe` reads; nothing is decoded without an image. -/
def probeEnv (qsort : SymSort) (files : Files) (bytes : FileBytes) (sections : List PtImageInfo) :
    Option ProbeEnv :=
  (buildPtImage qsort files bytes sections).map fun image =>
    ⟨sections, image.syms, buildBinRanges files bytes maxBinRanges sections⟩

/-- `decode_pt_probe` on a trace: its result, and the instructions that it has decoded. -/
def decodePtProbeSections (qsort : SymSort) (files : Files) (bytes : FileBytes)
    (sections : List PtImageInfo) (trace : List PtSegment) : DecodeProbeResult × List PtCall :=
  match probeEnv qsort files bytes sections with
  | none => ({}, [])
  | some env => ((decodePtProbeLoop env trace).2, (decodePtProbeLoop env trace).1.calls)

end ObservableBSD.Decode
