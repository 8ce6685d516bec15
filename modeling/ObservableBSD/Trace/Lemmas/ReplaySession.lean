import ObservableBSD.Trace.Lemmas.Replay

/-!
# A session and its files

From the context on, the two commands record the sidecar and leave files that can be decoded again.
-/

namespace ObservableBSD.Trace.Session

open Base Elf Decode

variable {mem : Nat → UInt8} {d : Disk} {ctx : HwtCtx} {ts : TraceState} {out : CString} {tid : Int32}
  {file : Option Nat}

/-! ## Start -/

/-- A context for the thread that the options name, with no other thread open. -/
def Fresh (tid : Int32) (ctx : HwtCtx) : Prop := ctx.tid = tid ∧ ctx.threads = []

end ObservableBSD.Trace.Session
