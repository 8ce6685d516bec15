import ObservableBSD.Base.Separated
import ObservableBSD.Decode.Insn
import ObservableBSD.Json.Value
import ObservableBSD.Trace.Format

/-!
# The JSON output of the decoder

What `decode_pt_insn` prints with `FMT_JSON`: a line for each instruction and each PTWRITE, or, where there is no image
to decode against, a line for each packet.
-/

namespace ObservableBSD.Decode

open Base Elf Trace

/-! ## Lines -/

/-- What stands behind the colon of a member: a string that is printed as it is or through `json_escape`, `"0x%lx"`, an
integer, or `null`. -/
inductive JsonField where
  | word (s : CString)
  | escaped (s : CString)
  | hex (v : UInt64)
  | integer (v : Int)
  | null

/-- `sizeof(esym)`, `sizeof(ebin)` and `sizeof(esc)`. -/
def escapedSize : Nat := 256

def JsonField.print : JsonField → CString
  | .word s => cstr "\"" ++ (s ++ cstr "\"")
  | .escaped s => cstr "\"" ++ (jsonEscape escapedSize s ++ cstr "\"")
  | .hex v => cstr "\"0x" ++ (numeral 16 v.toNat ++ cstr "\"")
  | .integer v => intNumeral v
  | .null => cstr "null"

def printMember (m : String × JsonField) : CString := cstr "\"" ++ (cstr m.1 ++ (cstr "\":" ++ m.2.print))

/-- An object without its end of line. -/
def printObject (members : List (String × JsonField)) : CString :=
  cstr "\x7b" ++ ([44].intercalate (members.map printMember) ++ cstr "\x7d")

def placeMembers : InsnPlace → List (String × JsonField)
  | .symbol name binary off syscall =>
      [("sym", .escaped name), ("off", .integer off.toNat), ("bin", .escaped binary)] ++
        syscall.toList.map fun name => ("syscall", .escaped name)
  | .binary name off => [("off", .integer off.toNat), ("bin", .escaped name)]
  | .address => []

def lineMembers (tid : Int) : DecodeLine → List (String × JsonField)
  | .ptwrite payload ip => [("ptwrite", .hex payload), ("ip", .hex ip)]
  | .insn label ip place tsc =>
      [("insn", .word label), ("ip", .hex ip)] ++ placeMembers place ++
        (if 0 < tsc then [("tsc", .integer tsc.toNat)] else []) ++ if 0 ≤ tid then [("tid", .integer tid)] else []

/-! ## Packets -/

/-- The payload of TIP, TIP.PGE, TIP.PGD and FUP. -/
structure PtPacketIp where
  suppressed : Bool
  ip : UInt64
deriving DecidableEq

inductive PtExecMode where
  | unknown
  | bits16
  | bits32
  | bits64
deriving DecidableEq

inductive PtPacketMode where
  | exec (mode : PtExecMode)
  | tsx (intx abrt : Bool)
  | other
deriving DecidableEq

/-- `struct pt_packet`, as far as `emit_packet_json` reads it. -/
inductive PtPacket where
  | psb
  | psbend
  | tip (payload : PtPacketIp)
  | tipPge (payload : PtPacketIp)
  | tipPgd (payload : PtPacketIp)
  | fup (payload : PtPacketIp)
  | tnt (payload : UInt64) (bitSize : UInt8)
  | mode (payload : PtPacketMode)
  | pip (cr3 : UInt64) (nr : Bool)
  | tsc (tsc : UInt64)
  | cbr (ratio : UInt8)
  | ovf
  | ptw (ip : Bool) (payload : UInt64)
  | stop
  | other
deriving DecidableEq

def execModeStr : PtExecMode → CString
  | .bits16 => cstr "16-bit"
  | .bits32 => cstr "32-bit"
  | .bits64 => cstr "64-bit"
  | .unknown => cstr "unknown"

/-- The bits in a buffer of `bufsz` bytes, the oldest first. -/
def tntStr (bufsz : Nat) (payload : UInt64) (bitSize : UInt8) : CString :=
  let bitSize := if bufsz ≤ bitSize.toNat then bufsz - 1 else bitSize.toNat
  (List.range bitSize).reverse.map fun i => if payload &&& (1 <<< UInt64.ofNat i) ≠ 0 then 33 else 46

/-- `sizeof(tnt)`. -/
def tntSize : Nat := 65

/-- The instruction pointer of a packet that may not have one. -/
def ipMember (payload : PtPacketIp) : String × JsonField := ("ip", if payload.suppressed then .null else .hex payload.ip)

def flag (b : Bool) : JsonField := .integer (if b then 1 else 0)

/-- The members of the line of `emit_packet_json`; a packet of another type has none. -/
def packetMembers : PtPacket → Option (List (String × JsonField))
  | .psb => some [("pkt", .word (cstr "psb"))]
  | .psbend => some [("pkt", .word (cstr "psbend"))]
  | .tip payload => some [("pkt", .word (cstr "tip")), ipMember payload]
  | .tipPge payload => some [("pkt", .word (cstr "tip_pge")), ("ip", .hex payload.ip)]
  | .tipPgd payload => some [("pkt", .word (cstr "tip_pgd")), ipMember payload]
  | .fup payload => some [("pkt", .word (cstr "fup")), ipMember payload]
  | .tnt payload bitSize => some [("pkt", .word (cstr "tnt")), ("bits", .word (tntStr tntSize payload bitSize))]
  | .mode (.exec mode) => some [("pkt", .word (cstr "mode_exec")), ("mode", .word (execModeStr mode))]
  | .mode (.tsx intx abrt) => some [("pkt", .word (cstr "mode_tsx")), ("intx", flag intx), ("abrt", flag abrt)]
  | .mode .other => none
  | .pip cr3 nr => some [("pkt", .word (cstr "pip")), ("cr3", .hex cr3), ("nr", flag nr)]
  | .tsc tsc => some [("pkt", .word (cstr "tsc")), ("tsc", .integer tsc.toNat)]
  | .cbr ratio => some [("pkt", .word (cstr "cbr")), ("ratio", .integer ratio.toNat)]
  | .ovf => some [("pkt", .word (cstr "ovf"))]
  | .ptw ip payload => some [("pkt", .word (cstr "ptw")), ("ip", flag ip), ("payload", .hex payload)]
  | .stop => some [("pkt", .word (cstr "stop"))]
  | .other => none

def emitPacketJson (pkt : PtPacket) : CString :=
  match packetMembers pkt with
  | none => []
  | some members => printObject members ++ cstr "\n"

/-- A sync point of the packet decoder: whether syncing to it fails, the packets behind it, and what ends them. -/
structure PktSegment where
  fault : Option PtError := none
  packets : List PtPacket := []
  stop : PtError := .eos

structure PktState where
  total : Nat := 0
  errors : Nat := 0
  syncs : Nat := 0
  out : CString := []

/-- The loops of `decode_pt_buffer`. -/
def decodePtBufferLoop : List PktSegment → PktState → PktState
  | [], st => st
  | seg :: segs, st => match seg.fault with
      | some _ => st
      | none =>
          let st := { st with
            syncs := st.syncs + 1
            total := st.total + seg.packets.length
            out := st.out ++ seg.packets.flatMap emitPacketJson }
          if seg.stop = .eos then st else decodePtBufferLoop segs { st with errors := st.errors + 1 }

/-- `decode_pt_buffer` with `FMT_JSON`: what it prints and what it returns. Without `trace` there is no decoder. -/
def decodePtBuffer (buf : List UInt8) (trace : Option (List PktSegment)) : CString × Int :=
  if buf = [] then ([], -1)
  else match trace with
    | none => ([], -1)
    | some trace =>
        let st := decodePtBufferLoop trace {}
        (st.out, if 0 < st.total then 0 else -1)

/-! ## The whole of `decode_pt_insn` -/

/-- What libipt makes of the buffer: the packets, and the instructions over an image. -/
structure PtLibrary where
  packets : Option (List PktSegment)
  insns : PtImage → Option (List PtSegment)

/-- What the decoder reads besides the buffer. -/
structure DecodeInput where
  qsort : SymSort
  files : Files
  bytes : FileBytes
  dwarf : DwarfLookup
  sections : List PtImageInfo
  opts : Option PtDecodeOpts

def DecodeInput.env (input : DecodeInput) (image : PtImage) : DecodeEnv where
  fmt := .json
  opts := input.opts
  sections := input.sections
  symbols := image.syms
  ranges := buildBinRanges input.files input.bytes maxBinRanges input.sections
  dwarf := input.dwarf

def DecodeInput.tid (input : DecodeInput) : Int :=
  match input.opts with
  | none => -1
  | some opts => opts.tid

/-- `decode_pt_insn` with `FMT_JSON`. -/
def decodePtInsnJson (lib : PtLibrary) (input : DecodeInput) (buf : List UInt8) : CString × Int :=
  if buf = [] then ([], -1)
  else if input.sections = [] then decodePtBuffer buf lib.packets
  else match buildPtImage input.qsort input.files input.bytes input.sections with
    | none => decodePtBuffer buf lib.packets
    | some image => match lib.insns image with
        | none => ([], -1)
        | some trace =>
            let st := (decodePtInsnLoop (input.env image) trace).2
            (st.lines.flatMap fun line => printObject (lineMembers input.tid line) ++ cstr "\n",
              if 0 < st.total then 0 else -1)

end ObservableBSD.Decode
