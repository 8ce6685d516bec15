import ObservableBSD.Trace.BufferSize
import ObservableBSD.Trace.SysCall

/-!
# The context of a tracing session

The functions that wrap the `hwt(4)` ioctls, as programs over the calls of a session. A descriptor or a
pointer that is not set is `none`.
-/

namespace ObservableBSD.Trace.Session

open Base Elf Decode

/-! ## Calls -/

def openDevice (path : CString) : Prog sys (Option Fd) := invoke (.openDevice path)

def openOutput (path : CString) : Prog sys (Option Fd) := invoke (.openOutput path)

def close (fd : Fd) : Prog sys Unit := invoke (.close fd)

def loadBytes (addr len : Nat) : Prog sys { bytes : List UInt8 // bytes.length = len } := invoke (.load addr len)

/-! ## Detection -/

def devHwt : CString := cstr "/dev/hwt"

def hwtAvailable : Prog sys Bool := do
  match ← openDevice devHwt with
  | none => pure false
  | some fd => do
      close fd
      pure true

def backends : List CString := [cstr "pt", cstr "coresight", cstr "spe"]

/-- The first of the backends that is loaded. -/
def hwtDetectBackend : List CString → Prog sys (Option CString)
  | [] => pure none
  | backend :: rest => do
      let found : Bool ← invoke (.kldfind backend)
      if found then pure (some backend) else hwtDetectBackend rest

/-! ## Allocation -/

/-- `struct hwt_thread_ctx`. -/
structure HwtThreadCtx where
  fd : Fd
  threadId : Int32
  traceBuf : Option Nat := none

/-- `struct hwt_ctx`. -/
structure HwtCtx where
  ctlFd : Option Fd := none
  ctxFd : Option Fd := none
  kqFd : Option Fd := none
  ident : Int32 := 0
  tid : Int32
  pid : Int32
  backendName : CString := []
  bufsize : UInt64 := 0
  traceBuf : Option Nat := none
  filter : List IpRange := []
  psbFreq : UInt32 := 0
  mtcFreq : UInt32 := 0
  cycThresh : UInt32 := 0
  ptwrite : Bool := false
  osTrace : Bool := false
  allThreads : Bool := false
  requestedTids : List Int32 := []
  threads : List HwtThreadCtx := []

/-- `/dev/hwt_<ident>_<tid>`. -/
def devicePath (ident tid : Int32) : CString :=
  strlcpy 64 (cstr "/dev/hwt_" ++ (intNumeral ident.toInt ++ (cstr "_" ++ intNumeral tid.toInt)))

def eachSome {α : Type} (x : Option α) (f : α → Prog sys Unit) : Prog sys Unit :=
  match x with
  | none => pure ()
  | some a => f a

def munmapBuffer (bufsize : UInt64) (addr : Nat) : Prog sys Unit := invoke (.munmap addr bufsize.toNat)

/-- Closes the device of an additional thread. -/
def closeThread (bufsize : UInt64) (thread : HwtThreadCtx) : Prog sys Unit := do
  eachSome thread.traceBuf (munmapBuffer bufsize)
  close thread.fd

def closeThreads (bufsize : UInt64) : List HwtThreadCtx → Prog sys Unit
  | [] => pure ()
  | thread :: threads => do
      closeThread bufsize thread
      closeThreads bufsize threads

def hwtCtxClose (ctx : HwtCtx) : Prog sys Unit := do
  eachSome ctx.ctxFd fun fd => do
    let _ ← (invoke (.stop fd) : Prog sys Bool)
    pure ()
  closeThreads ctx.bufsize ctx.threads
  eachSome ctx.traceBuf (munmapBuffer ctx.bufsize)
  eachSome ctx.ctxFd close
  eachSome ctx.kqFd close
  eachSome ctx.ctlFd close

/-- The label `fail` of `hwt_ctx_alloc`. -/
def allocFail (ctx : HwtCtx) : Prog sys (Option HwtCtx) := do
  hwtCtxClose ctx
  pure none

/-- Opens the device of the context. -/
def openContext (ctx : HwtCtx) : Prog sys (Option HwtCtx) := do
  match ← openDevice (devicePath ctx.ident ctx.tid) with
  | none => allocFail ctx
  | some fd => pure (some { ctx with ctxFd := some fd })

/-- Allocates the context via ioctl. -/
def requestContext (ctx : HwtCtx) (ctl kq : Fd) : Prog sys (Option HwtCtx) := do
  match ← invoke (.alloc ctl
      { bufsize := ctx.bufsize, pid := ctx.pid, backendName := ctx.backendName, kqueueFd := kq }) with
  | none => allocFail ctx
  | some ident => openContext { ctx with ident }

/-- Creates the kqueue for event notification. -/
def createKqueue (ctx : HwtCtx) (ctl : Fd) : Prog sys (Option HwtCtx) := do
  match ← invoke .kqueue with
  | none => allocFail ctx
  | some kq => requestContext { ctx with kqFd := some kq } ctl kq

def hwtCtxAlloc (host : Host) (pid tid : Int32) (bufsize : UInt64) (backend : CString) :
    Prog sys (Option HwtCtx) := do
  if backend = [] then pure none
  else if host.backendMaxnamelen ≤ backend.length then pure none
  else match ← openDevice devHwt with
    | none => pure none
    | some ctl =>
        createKqueue { ctlFd := some ctl, tid, pid, backendName := backend, bufsize := hwtCtxAllocSize bufsize } ctl

/-! ## Configuration, start and stop -/

def rtitCtlOs : UInt64 := (1 : UInt64) <<< (2 : UInt64)
def rtitCtlUser : UInt64 := (1 : UInt64) <<< (3 : UInt64)
def rtitCtlFuponptw : UInt64 := (1 : UInt64) <<< (5 : UInt64)
def rtitCtlTscen : UInt64 := (1 : UInt64) <<< (10 : UInt64)
def rtitCtlPtwen : UInt64 := (1 : UInt64) <<< (12 : UInt64)
def rtitCtlBranchen : UInt64 := (1 : UInt64) <<< (13 : UInt64)

/-- The configuration of `hwt_ctx_set_config_on_fd`. -/
def ptCpuConfig (ctx : HwtCtx) : PtCpuConfig :=
  let ctl := rtitCtlUser ||| rtitCtlBranchen
  let ctl := if ctx.ptwrite then ctl ||| (rtitCtlPtwen ||| rtitCtlFuponptw) else ctl
  let ctl := if ctx.osTrace then ctl ||| rtitCtlOs else ctl
  { rtitCtl := if 0 < ctx.mtcFreq ∨ 0 < ctx.cycThresh then ctl ||| rtitCtlTscen else ctl
    ipRanges := ctx.filter
    mtcFreq := ctx.mtcFreq
    cycThresh := ctx.cycThresh
    psbFreq := ctx.psbFreq }

/-- An ioctl on the device of the context; without a descriptor it fails. -/
def onDevice {α : Type} (ctx : HwtCtx) (failed : α) (f : Fd → Prog sys α) : Prog sys α :=
  match ctx.ctxFd with
  | none => pure failed
  | some fd => f fd

def hwtCtxSetConfig (ctx : HwtCtx) (pauseOnMmap : Bool) : Prog sys Bool :=
  if ctx.backendName = cstr "pt" then
    onDevice ctx false fun fd => invoke (.setConfig fd (ptCpuConfig ctx) pauseOnMmap)
  else pure false

def hwtCtxStart (ctx : HwtCtx) : Prog sys Bool := onDevice ctx false fun fd => invoke (.start fd)

def hwtCtxStop (ctx : HwtCtx) : Prog sys Bool := onDevice ctx true fun fd => invoke (.stop fd)

def hwtCtxWakeup (ctx : HwtCtx) : Prog sys Bool := onDevice ctx false fun fd => invoke (.wakeup fd)

/-! ## Records -/

/-- The fields of an entry that its type has. -/
def recordOfEntry (e : BsdtraceRecord) : BsdtraceRecord :=
  match e.type with
  | .mmap | .executable | .kernel =>
      { type := e.type, fullpath := strlcpy maxPathLen e.fullpath, addr := e.addr, baseaddr := e.baseaddr }
  | .munmap => { type := e.type, addr := e.addr }
  | .buffer | .overflow => { type := e.type, bufId := e.bufId, curpage := e.curpage, offset := e.offset }
  | .threadCreate | .threadSetName => { type := e.type, threadId := e.threadId }
  | .unknown _ => { type := e.type }

def hwtCtxPollRecords (ctx : HwtCtx) (maxrecords : Nat) : Prog sys (Option (List BsdtraceRecord)) := do
  let entries : Option (List BsdtraceRecord) ←
    onDevice ctx none fun fd => invoke (.recordGet fd (min maxrecords 1024))
  pure (entries.map (·.map recordOfEntry))

/-! ## The buffer -/

/-- The buffer of the context, mapped at its first use. -/
def hwtCtxMapBuffer (ctx : HwtCtx) : Prog sys (Option Nat × HwtCtx) :=
  match ctx.traceBuf with
  | some addr => pure (some addr, ctx)
  | none => do
      let ptr : Option Nat ← onDevice ctx none fun fd => invoke (.mmap ctx.bufsize.toNat fd)
      pure (ptr, { ctx with traceBuf := ptr })

def hwtCtxBufptrGet (ctx : HwtCtx) : Prog sys (Option (Int32 × UInt64)) :=
  onDevice ctx none fun fd => invoke (.bufptrGet fd)

/-- The loop that writes `total` bytes; it is left early when a write fails. -/
def writeBuffer (fd : Fd) (buf total : Nat) : Prog sys Bool :=
  .iterate (fun off => do
    if off < total then
      match ← (invoke (.write fd (buf + off) (total - off)) : Prog sys (Option Nat)) with
      | none => pure (.inr false)
      | some nw => pure (.inl (off + nw))
    else pure (.inr true)) 0

def hwtCtxSnapshotBuffer (ctx : HwtCtx) (path : CString) (lastPage : Int32) (lastOffset : UInt64) :
    Prog sys (Int × HwtCtx) := do
  if lastPage < 0 then pure (0, ctx)
  else match ← hwtCtxMapBuffer ctx with
    | (none, ctx) => pure (-1, ctx)
    | (some buf, ctx) =>
        let total := (bufferPosition lastPage.toInt lastOffset).toNat
        let total := if ctx.bufsize.toNat < total then ctx.bufsize.toNat else total
        if total = 0 then pure (0, ctx)
        else match ← openOutput path with
          | none => pure (-1, ctx)
          | some fd => do
              let written ← writeBuffer fd buf total
              close fd
              pure (if written then (total : Int) else -1, ctx)

/-! ## Threads -/

def hwtCtxOpenThread (ctx : HwtCtx) (threadId : Int32) : Prog sys HwtCtx := do
  if maxThreads ≤ ctx.threads.length then pure ctx
  else if ctx.threads.any (·.threadId = threadId) then pure ctx
  else match ← openDevice (devicePath ctx.ident threadId) with
    | none => pure ctx
    | some fd => pure { ctx with threads := ctx.threads ++ [{ fd, threadId }] }

end ObservableBSD.Trace.Session
