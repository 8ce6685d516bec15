import ObservableBSD.Base.Interaction
import ObservableBSD.Elf.Resolve
import ObservableBSD.Trace.Drain
import ObservableBSD.Trace.Exec
import ObservableBSD.Trace.Snapshot

/-!
# The calls of a tracing session

What `exec` and `trace` ask of the kernel, of the standard I/O library and of the decoder. Messages on stderr
are left out.
-/

namespace ObservableBSD.Trace.Session

open Base Elf Decode

/-- An open descriptor, with the path that it was opened by; a kqueue has none. -/
structure Fd where
  num : Nat
  path : Option CString
deriving DecidableEq

/-- `struct hwt_alloc`, in thread mode. -/
structure HwtAlloc where
  bufsize : UInt64
  pid : Int32
  backendName : CString
  kqueueFd : Fd
deriving DecidableEq

/-- `struct pt_cpu_config`; the ranges are the first `nranges`. -/
structure PtCpuConfig where
  rtitCtl : UInt64
  ipRanges : List IpRange
  mtcFreq : UInt32
  cycThresh : UInt32
  psbFreq : UInt32
deriving DecidableEq

inductive Signal where
  | null
  | int
  | kill
  | pipe
  | cont
deriving DecidableEq

inductive WaitOption where
  | block
  | nohang
  | untraced
deriving DecidableEq

/-- What `waitpid` returns: an error, 0, or the status of the child. -/
inductive WaitAnswer where
  | error
  | nothing
  | stopped
  | exited (status : WaitStatus)
deriving DecidableEq

inductive SysCall where
  -- `open(path, O_RDWR)`
  | openDevice (path : CString)
  -- `open(path, O_WRONLY | O_CREAT | O_TRUNC, 0644)`
  | openOutput (path : CString)
  | kqueue
  | close (fd : Fd)
  | alloc (ctl : Fd) (args : HwtAlloc)
  | setConfig (fd : Fd) (config : PtCpuConfig) (pauseOnMmap : Bool)
  | start (fd : Fd)
  | stop (fd : Fd)
  | recordGet (fd : Fd) (nentries : Nat)
  | wakeup (fd : Fd)
  | bufptrGet (fd : Fd)
  | mmap (size : Nat) (fd : Fd)
  | munmap (addr size : Nat)
  -- the bytes at an address
  | load (addr len : Nat)
  | write (fd : Fd) (addr len : Nat)
  | decodePtInsn (addr len : Nat) (sections : List PtImageInfo) (fmt : BsdtraceFmt) (opts : PtDecodeOpts)
  | fopen (path : CString)
  | fprintf (file : Nat) (text : CString)
  | fclose (file : Nat)
  -- on stdout
  | print (rec : BsdtraceRecord) (fmt : BsdtraceFmt)
  | printThread (threadId : Int32)
  -- `signal(sig, SIG_IGN)`, or a handler; else `SIG_DFL`
  | signal (sig : Signal) (caught : Bool)
  -- the child stops itself, and then executes the command
  | fork (args : List CString) (noAslr : Bool)
  | kill (pid : Int32) (sig : Signal)
  | waitpid (pid : Int32) (option : WaitOption)
  -- nanoseconds
  | clockGettime
  | interrupted
  | usleep (us : Nat)
  | kldfind (backend : CString)
  | hwtHooks
  | cpuidTiming
  | vmmap (pid : Int32)
  | exePath (pid : Int32)
  | kernBase
  | statExecutable (path : CString)
  | getenvPath

abbrev SysCall.Answer : SysCall → Type
  | .openDevice _ | .openOutput _ | .kqueue => Option Fd
  | .alloc .. => Option Int32
  | .setConfig .. | .start _ | .stop _ | .wakeup _ => Bool
  | .recordGet .. => Option (List BsdtraceRecord)
  | .bufptrGet _ => Option (Int32 × UInt64)
  | .mmap .. => Option Nat
  | .load _ len => { bytes : List UInt8 // bytes.length = len }
  | .write .. => Option Nat
  | .fopen _ => Option Nat
  | .fork .. => Option Int32
  | .kill .. => Bool
  | .waitpid .. => WaitAnswer
  | .clockGettime => Nat
  | .interrupted | .kldfind _ | .statExecutable _ => Bool
  | .hwtHooks => Option Bool
  | .cpuidTiming => UInt32 × UInt32
  | .vmmap _ => Option (List KinfoVmentry)
  | .exePath _ => Option CString
  | .kernBase => Option UInt64
  | .getenvPath => Option CString
  | .close _ | .munmap .. | .decodePtInsn .. | .fprintf .. | .fclose _ | .print .. | .printThread _ | .signal ..
  | .usleep _ => Unit

abbrev sys : Interface := ⟨SysCall, SysCall.Answer⟩

def invoke (c : SysCall) : Prog sys c.Answer := @Prog.perform sys c

/-- What stands for code that is not here: `HWT_BACKEND_MAXNAMELEN`, the probe of a stretch of the buffer, and
the ELF files. -/
structure Host where
  backendMaxnamelen : Nat
  probe : Probe
  files : Files

end ObservableBSD.Trace.Session
