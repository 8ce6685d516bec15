import ObservableBSD.Base.Stdio
import ObservableBSD.Trace.Format
import ObservableBSD.Trace.Record

/-!
# The `.meta` sidecar

Each `fprintf` of the writer is one line of the file; the file is what the lines make up. The reader goes
through it with `fgets` and `sscanf`.
-/

namespace ObservableBSD.Trace

open Base

/-! ## Writer -/

def metaWriterHeader (pid tid : Int32) : List CString :=
  [cstr "\x7b\"type\":\"header\",\"pid\":" ++ intNumeral pid.toInt ++ cstr ",\"tid\":" ++ intNumeral tid.toInt ++
    cstr "\x7d\n"]

def metaWriterTiming (mtcFreq cycThresh : UInt8) : List CString :=
  if mtcFreq = 0 ∧ cycThresh = 0 then []
  else [cstr "\x7b\"type\":\"timing\",\"mtc_freq\":" ++ numeral 10 mtcFreq.toNat ++ cstr ",\"cyc_thresh\":" ++
    numeral 10 cycThresh.toNat ++ cstr "\x7d\n"]

/-- The line of an image section; the path is escaped already. -/
def sectionLine (type epath : CString) (addr base : UInt64) : CString :=
  cstr "\x7b\"type\":\"" ++ (type ++ (cstr "\",\"path\":\"" ++ (epath ++ (cstr "\",\"addr\":\"0x" ++
    (numeral 16 addr.toNat ++ (cstr "\",\"base\":\"0x" ++ (numeral 16 base.toNat ++ cstr "\"\x7d\n")))))))

def threadLine (type : CString) (tid : Int32) : CString :=
  cstr "\x7b\"type\":\"" ++ (type ++ (cstr "\",\"tid\":" ++ (intNumeral tid.toInt ++ cstr "\x7d\n")))

def metaWriterRecord (rec : BsdtraceRecord) : List CString :=
  let epath := jsonEscape maxPathLen rec.fullpath
  match rec.type with
  | .executable => [sectionLine (cstr "exec") epath rec.addr rec.baseaddr]
  | .mmap => [sectionLine (cstr "mmap") epath rec.addr rec.baseaddr]
  | .kernel => [sectionLine (cstr "kernel") epath rec.addr rec.baseaddr]
  | .threadCreate => [threadLine (cstr "thread_create") rec.threadId]
  | .threadSetName => [threadLine (cstr "thread_set_name") rec.threadId]
  | _ => []

/-- The type that `meta_writer_sections` writes. -/
def sectionTypeName (type : HwtRecordType) : CString :=
  if type = .executable then cstr "exec" else if type = .kernel then cstr "kernel" else cstr "mmap"

def metaWriterSections (sections : List PtImageInfo) : List CString :=
  sections.map fun sec =>
    sectionLine (sectionTypeName sec.type) (jsonEscape maxPathLen sec.path) sec.loadAddr sec.baseAddr

/-- What `trace_state` has written behind the header: one record, or the sections of an earlier seed. -/
inductive MetaItem where
  | record (rec : BsdtraceRecord)
  | sections (infos : List PtImageInfo)

def MetaItem.lines : MetaItem → List CString
  | .record rec => metaWriterRecord rec
  | .sections infos => metaWriterSections infos

/-- A whole sidecar. -/
def metaFile (pid tid : Int32) (mtcFreq cycThresh : UInt8) (items : List MetaItem) : CString :=
  (metaWriterHeader pid tid ++ (metaWriterTiming mtcFreq cycThresh ++ items.flatMap MetaItem.lines)).flatten

/-! ## Reader -/

def notQuote (c : UInt8) : Bool := c ≠ 34

/-- The format of `meta_read_sections`. -/
def sectionFormat : List Directive :=
  [.literal (cstr "\x7b\"type\":\""), .set 31 notQuote, .literal (cstr "\",\"path\":\""), .set 1023 notQuote,
    .literal (cstr "\",\"addr\":\"0x"), .hexLong, .literal (cstr "\",\"base\":\"0x"), .hexLong,
    .literal (cstr "\"\x7d")]

/-- The record type that `meta_read_sections` makes of a type. -/
def sectionType? (type : CString) : Option HwtRecordType :=
  if type = cstr "exec" then some .executable
  else if type = cstr "kernel" then some .kernel
  else if type = cstr "mmap" then some .mmap
  else none

/-- The body of the loop of `meta_read_sections`. -/
def metaReadLine (sections : List PtImageInfo) (line : CString) : List PtImageInfo :=
  match sscanf sectionFormat line with
  | [.text type, .text fpath, .long addr, .long base] =>
      match sectionType? type with
      | none => sections
      | some type =>
          (if type = .executable then [] else sections) ++
            [{ path := strlcpy maxPathLen fpath, loadAddr := addr, baseAddr := base, type }]
  | _ => sections

def metaReadSections (file : CString) : List PtImageInfo := (fgetsLines 4096 file).foldl metaReadLine []

/-- The format of `meta_read_tid`. -/
def headerFormat : List Directive :=
  [.literal (cstr "\x7b\"type\":\"header\",\"pid\":"), .int false, .literal (cstr ",\"tid\":"), .int true,
    .literal (cstr "\x7d")]

def metaReadTid (file : CString) : Int32 :=
  match fgetsLines 256 file with
  | [] => -1
  | line :: _ => match sscanf headerFormat line with
      | [.int tid] => tid
      | _ => -1

/-- The loop of `meta_read_mtc_freq` and of `meta_read_cyc_thresh`: the first line with a number for their format. -/
def metaReadUint (format : List Directive) (file : CString) : Int32 :=
  ((fgetsLines 256 file).findSome? fun line => match sscanf format line with
    | [.uint v] => some v.toInt32
    | _ => none).getD 0

def timingKey : CString := cstr "\x7b\"type\":\"timing\",\"mtc_freq\":"

def metaReadMtcFreq : CString → Int32 := metaReadUint [.literal timingKey, .uint true]

def metaReadCycThresh : CString → Int32 :=
  metaReadUint [.literal timingKey, .uint false, .literal (cstr ",\"cyc_thresh\":"), .uint true, .literal (cstr "\x7d")]

end ObservableBSD.Trace
