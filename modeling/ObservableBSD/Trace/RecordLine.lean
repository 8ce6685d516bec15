import ObservableBSD.Decode.Collapsed
import ObservableBSD.Trace.Format
import ObservableBSD.Trace.Record

/-!
# The JSON line of a record

`json_escape` once more, with every byte it writes, and `fmt_record_json` with the buffer that it prints the line to.
-/

namespace ObservableBSD.Trace

open Base Decode

/-! ## json_escape -/

/-- What is written for a byte at `dst + pos`. `snprintf` writes a control character without a name, and a NUL. -/
def byteWrites (dstlen pos : Nat) (c : UInt8) : List ByteWrite :=
  if c < 32 ∧ c ∉ [8, 12, 10, 13, 9] then putString pos ((escapeByte c).take (dstlen - pos - 1) ++ [0])
  else putString pos (escapeByte c)

def jsonEscapeWritesFrom (dstlen pos : Nat) : CString → List ByteWrite
  | [] => [{ index := pos, byte := 0 }]
  | c :: src =>
      if pos + 7 < dstlen then
        byteWrites dstlen pos c ++ jsonEscapeWritesFrom dstlen (pos + (escapeByte c).length) src
      else [{ index := pos, byte := 0 }]

def jsonEscapeWrites (dstlen : Nat) (src : CString) : List ByteWrite := jsonEscapeWritesFrom dstlen 0 src

/-! ## fmt_record_json -/

/-- The fields of `struct tm` that are printed. -/
structure Tm where
  sec : Int32
  min : Int32
  hour : Int32
  mday : Int32
  mon : Int32
  year : Int32

/-- `%0nd`. -/
def zeroPadded (width : Nat) (v : Int) : CString :=
  if v < 0 then 45 :: (numeral 10 v.natAbs).leftpad (width - 1) 48 else (numeral 10 v.natAbs).leftpad width 48

def timestamp (tm : Tm) : CString :=
  zeroPadded 4 (tm.year.toInt + 1900) ++ (cstr "-" ++ (zeroPadded 2 (tm.mon.toInt + 1) ++ (cstr "-" ++
    (zeroPadded 2 tm.mday.toInt ++ (cstr "T" ++ (zeroPadded 2 tm.hour.toInt ++ (cstr ":" ++
      (zeroPadded 2 tm.min.toInt ++ (cstr ":" ++ (zeroPadded 2 tm.sec.toInt ++ cstr "Z"))))))))))

def recordTypeName : HwtRecordType → CString
  | .mmap => cstr "mmap"
  | .munmap => cstr "munmap"
  | .executable => cstr "executable"
  | .kernel => cstr "kernel"
  | .threadCreate => cstr "thread_create"
  | .threadSetName => cstr "thread_set_name"
  | .buffer => cstr "buffer"
  | .overflow => cstr "overflow"
  | .unknown _ => cstr "unknown"

def recordHead (tm : Tm) (type : HwtRecordType) (pid : Int32) : CString :=
  cstr "\x7b\"timestamp\":\"" ++ (timestamp tm ++ (cstr "\",\"kind\":\"" ++ (recordTypeName type ++
    (cstr "\",\"pid\":" ++ intNumeral pid.toInt))))

/-- `buf_id` and `curpage` are `int`s. -/
def bufferField (rec : BsdtraceRecord) : CString :=
  cstr ",\"buf_id\":" ++ (intNumeral (Int32.ofInt rec.bufId).toInt ++ (cstr ",\"page\":" ++
    (intNumeral (Int32.ofInt rec.curpage).toInt ++ (cstr ",\"offset\":" ++ numeral 10 rec.offset.toNat))))

def addressField (addr : UInt64) : CString := cstr ",\"address\":\"0x" ++ (numeral 16 addr.toNat ++ cstr "\"")

/-- The texts of the calls of `snprintf` for the fields of a type. -/
def recordFields (rec : BsdtraceRecord) : List CString :=
  match rec.type with
  | .mmap | .executable | .kernel =>
      (if rec.fullpath = [] then []
        else [cstr ",\"path\":\"" ++ (jsonEscape (maxPathLen * 2) rec.fullpath ++ cstr "\"")]) ++
      [addressField rec.addr ++ (cstr ",\"base_address\":\"0x" ++ (numeral 16 rec.baseaddr.toNat ++ cstr "\""))]
  | .munmap => if rec.addr ≠ 0 then [addressField rec.addr] else []
  | .threadCreate | .threadSetName => [cstr ",\"thread_id\":" ++ intNumeral rec.threadId.toInt]
  | .buffer | .overflow => [bufferField rec]
  | .unknown _ => []

/-- `pos += snprintf(line + pos, size - pos, ...)` of one text after the other: the offsets, and what is written.
Behind the end of the line, `size - pos` wraps (`none`). -/
def printPieces (size : Nat) : Nat → List CString → Option (List Nat × List ByteWrite)
  | _, [] => some ([], [])
  | pos, s :: ss =>
      if size < pos then none
      else do
        let (ws, len) ← snprintfString pos (size - pos) s
        let (offs, rest) ← printPieces size (pos + len) ss
        some (pos :: offs, ws ++ rest)

/-- `sizeof(line)`. -/
def lineSize : Nat := 4096

def recordPieces (tm : Tm) (rec : BsdtraceRecord) (pid : Int32) : List CString :=
  recordHead tm rec.type pid :: (recordFields rec ++ [cstr "\x7d\n"])

/-- The offsets of the calls of `snprintf` and the text that `fputs` prints; `mem` is what `line` held before. -/
def fmtRecordJson (mem : Memory) (tm : Tm) (rec : BsdtraceRecord) (pid : Int32) : Option (List Nat × CString) := do
  let (offs, ws) ← printPieces lineSize 0 (recordPieces tm rec pid)
  let line ← readString (writeAll mem ws) 0 lineSize
  some (offs, line)

end ObservableBSD.Trace
