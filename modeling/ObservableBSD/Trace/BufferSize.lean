import ObservableBSD.Base.Stdio

/-!
# The size of the trace buffer

The argument of `-s`, and what is allocated for it.
-/

namespace ObservableBSD.Trace

open Base

/-- `strtol` in base 10, with what is behind the number. -/
def strtol (s : CString) : Int64 × CString :=
  let field := s.dropWhile isSpace
  let sign := signLength field
  let digits := (field.drop sign).takeWhile (isDigit 10)
  let v : Int := numeralValue 10 digits
  if digits = [] then (0, s)
  else (Int64.ofInt (if field.head? = some 45 then max (-v) (-2 ^ 63) else min v (2 ^ 63 - 1)),
    field.drop (sign + digits.length))

def toLower (c : UInt8) : UInt8 := if 65 ≤ c ∧ c ≤ 90 then c + 32 else c

/-- The multiplier of a suffix. -/
def sizeMult (suffix : CString) : UInt64 :=
  match suffix.head?.map toLower with
  | some 103 => 1024 * 1024 * 1024
  | some 109 => 1024 * 1024
  | some 107 => 1024
  | _ => 1

def parseSize (s : CString) : UInt64 :=
  let (val, suffix) := strtol s
  let val := if val ≤ 0 then 4 else val
  val.toUInt64 * sizeMult suffix

/-- The size that `hwt_ctx_alloc` asks the kernel for. -/
def hwtCtxAllocSize (bufsize : UInt64) : UInt64 :=
  let bufsize := if bufsize = 0 then 64 * 1024 * 1024 else bufsize
  (bufsize + 4096 - 1) &&& ~~~(4096 - 1)

end ObservableBSD.Trace
