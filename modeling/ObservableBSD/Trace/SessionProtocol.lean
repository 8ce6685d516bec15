import Mathlib.Data.Multiset.AddSub
import ObservableBSD.Trace.Session

/-!
# The protocol of a tracing session

What a session holds at some point, and which calls are allowed then. The rules are those of `hwt.c`: a
configuration in front of the start, no start and no close before a stop has been asked for, only descriptors that are
open and memory that is mapped. Whether the kernel grants a stop is not looked at, as in `hwt.c`. A child may be waited
for without end only once it has been killed or reaped, and is resumed only under the trace.
-/

namespace ObservableBSD.Trace.Session

open Base Elf Decode

/-- The child of `exec`. -/
structure Child where
  pid : Int32
  stopped : Bool := false
  killed : Bool := false
  reaped : Bool := false
deriving DecidableEq

/-- How far a session is. `running` says that tracing was started, and that no stop has been asked for since, granted
or not; `sigpipe` says that `SIGPIPE` does no harm. -/
structure Phase where
  context : Option Int32 := none
  configured : Bool := false
  running : Bool := false
  sigpipe : Bool := false
  child : Option Child := none
deriving DecidableEq

/-- What a session holds: open descriptors, mappings with their sizes, and open files. -/
structure World where
  fds : Multiset Fd := 0
  maps : Multiset (Nat × Nat) := 0
  files : Multiset Nat := 0
  phase : Phase := {}

/-- A device of the context that the session has allocated. -/
def World.Device (w : World) (fd : Fd) : Prop :=
  fd ∈ w.fds ∧ ∃ ident tid, w.phase.context = some ident ∧ fd.path = some (devicePath ident tid)

def World.Mapped (w : World) (addr len : Nat) : Prop := ∃ m ∈ w.maps, m.1 ≤ addr ∧ addr + len ≤ m.1 + m.2

def World.IsChild (w : World) (pid : Int32) (P : Child → Prop) : Prop :=
  ∃ child, w.phase.child = some child ∧ child.pid = pid ∧ P child

/-- The calls that are allowed. `SIGKILL` goes to the pid of the child even when it has been reaped, as `cmd_exec` can
send it. -/
def World.Allows (w : World) : SysCall → Prop
  | .close fd => fd ∈ w.fds ∧ w.phase.running = false
  | .alloc ctl args =>
      (ctl ∈ w.fds ∧ ctl.path = some devHwt) ∧ (args.kqueueFd ∈ w.fds ∧ args.kqueueFd.path = none) ∧
        args.bufsize.toNat % 4096 = 0 ∧ w.phase.context = none
  | .setConfig fd _ _ => w.Device fd ∧ w.phase.running = false
  | .start fd => w.Device fd ∧ w.phase.configured = true ∧ w.phase.running = false
  | .recordGet fd nentries => w.Device fd ∧ nentries ≤ 1024
  | .stop fd | .wakeup fd | .bufptrGet fd | .mmap _ fd => w.Device fd
  | .munmap addr size => (addr, size) ∈ w.maps
  | .load addr len | .decodePtInsn addr len .. => w.Mapped addr len
  | .write fd addr len => fd ∈ w.fds ∧ w.Mapped addr len ∧ 0 < len
  | .fprintf file _ | .fclose file => file ∈ w.files
  | .print .. | .printThread _ => w.phase.running = true → w.phase.sigpipe = true
  | .signal .pipe false => w.phase.running = false
  | .fork .. => w.phase.child = none
  | .kill _ .null => True
  | .kill pid .kill => w.IsChild pid fun _ => True
  | .kill pid .cont => w.IsChild pid fun child => child.stopped = true ∧ w.phase.running = true
  | .kill .. => False
  | .waitpid pid .block => w.IsChild pid fun child => child.killed = true ∨ child.reaped = true
  | .waitpid pid _ => w.IsChild pid fun _ => True
  | _ => True

/-- A descriptor is open on the path that it was asked for, no call takes or gives more than it was asked to,
and waiting for a killed child that has not been reaped gives its status. -/
def World.Answers (w : World) : (c : SysCall) → c.Answer → Prop
  | .openDevice path | .openOutput path => fun (ans : Option Fd) => ∀ fd, ans = some fd → fd.path = some path
  | .kqueue => fun (ans : Option Fd) => ∀ fd, ans = some fd → fd.path = none
  | .recordGet _ nentries => fun (ans : Option (List BsdtraceRecord)) => ∀ recs, ans = some recs → recs.length ≤ nentries
  | .write _ _ len => fun (ans : Option Nat) => ∀ n, ans = some n → n ≤ len
  | .waitpid pid .block => fun ans =>
      (w.IsChild pid fun child => child.killed = true ∧ child.reaped = false) → ∃ status, ans = .exited status
  | _ => fun _ => True

def ofOption {α : Type} (x : Option α) : Multiset α := (x.toList : Multiset α)

def World.addFd (w : World) (fd : Option Fd) : World := { w with fds := ofOption fd + w.fds }

/-- The child with this pid. -/
def Phase.mapChild (ph : Phase) (pid : Int32) (f : Child → Child) : Phase :=
  { ph with child := ph.child.map fun child => if child.pid = pid then f child else child }

def World.next (w : World) : (c : SysCall) → c.Answer → World
  | .openDevice _ | .openOutput _ | .kqueue => fun (ans : Option Fd) => w.addFd ans
  | .close fd => fun _ => { w with fds := w.fds.erase fd }
  | .alloc .. => fun (ans : Option Int32) => { w with phase.context := ans <|> w.phase.context }
  | .setConfig .. => fun (ans : Bool) => { w with phase.configured := ans || w.phase.configured }
  | .start _ => fun (ans : Bool) => { w with phase.running := ans || w.phase.running }
  | .stop _ => fun _ => { w with phase.running := false }
  | .mmap size _ => fun (ans : Option Nat) => { w with maps := ofOption (ans.map (·, size)) + w.maps }
  | .munmap addr size => fun _ => { w with maps := w.maps.erase (addr, size) }
  | .fopen _ => fun (ans : Option Nat) => { w with files := ofOption ans + w.files }
  | .fclose file => fun _ => { w with files := w.files.erase file }
  | .signal .pipe caught => fun _ => { w with phase.sigpipe := caught }
  | .fork .. => fun (ans : Option Int32) => { w with phase.child := (ans.map fun pid => { pid }) <|> w.phase.child }
  | .kill pid .kill => fun _ => { w with phase := w.phase.mapChild pid ({ · with killed := true }) }
  | .kill pid .cont => fun _ => { w with phase := w.phase.mapChild pid ({ · with stopped := false }) }
  | .waitpid pid _ => fun (ans : WaitAnswer) => match ans with
      | .stopped => { w with phase := w.phase.mapChild pid ({ · with stopped := true }) }
      | .exited _ => { w with phase := w.phase.mapChild pid ({ · with reaped := true }) }
      | _ => w
  | _ => fun _ => w

abbrev held : Protocol sys where
  State := World
  allows := World.Allows
  answers := World.Answers
  next := World.next

/-- Nothing is left: no descriptor, mapping or file, no tracing that no stop has been asked for, and no child that could
still be waited for. -/
structure World.Clean (w : World) : Prop where
  fds : w.fds = 0
  maps : w.maps = 0
  files : w.files = 0
  running : w.phase.running = false
  child : ∀ child, w.phase.child = some child → child.reaped = true

end ObservableBSD.Trace.Session
