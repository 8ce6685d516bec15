import ObservableBSD.Trace.Lemmas.Session
import ObservableBSD.Trace.Lemmas.State
import ObservableBSD.Trace.Lemmas.Timing
import ObservableBSD.Trace.Replay

/-!
# Files that a session writes

What each function does to the files. Most calls do nothing to them.
-/

namespace ObservableBSD.Trace.Session

open Base Decode Elf

variable {α : Type} {mem : Nat → UInt8} {d : Disk} {post : α → Disk → Prop}

/-! ## Rules -/

theorem disk_bind {c : SysCall} {f : c.Answer → Prog sys α}
    (h : ∀ ans, d.Answers c ans → (disk mem).Safe (d.next mem c ans) (f ans) post) :
    (disk mem).Safe d (invoke c >>= f) post :=
  Protocol.Safe.call (P := disk mem) (c := c) trivial h

/-- A call that does nothing to the files, and has nothing to do with the records. -/
def SysCall.calm : SysCall → Prop
  | .openOutput _ | .write .. | .decodePtInsn .. | .fopen _ | .fprintf .. | .fclose _ | .stop _ | .recordGet ..
  | .print .. => False
  | _ => True

/-- A calm call that opens no device, starts nothing and wakes nobody. -/
def SysCall.quiet : SysCall → Prop
  | .openOutput _ | .write .. | .decodePtInsn .. | .fopen _ | .fprintf .. | .fclose _ | .stop _ | .recordGet ..
  | .print .. | .openDevice _ | .start _ | .wakeup _ => False
  | _ => True

theorem calm_of_quiet {c : SysCall} (h : c.quiet) : c.calm := by
  cases c with
  | openOutput | write | decodePtInsn | fopen | fprintf | fclose | stop | recordGet | print => exact h.elim
  | _ => trivial

theorem all_invoke {A : SysCall → Prop} {c : SysCall} (h : A c) : (invoke c).All A := ⟨h, fun _ => trivial⟩

theorem all_invoke_bind {A : SysCall → Prop} {c : SysCall} {f : c.Answer → Prog sys α} (h : A c)
    (hf : ∀ ans, (f ans).All A) : (invoke c >>= f).All A := ⟨h, hf⟩

/-! ## The disk -/

@[simp] theorem Disk.put_files (d : Disk) (path : CString) (bytes : List UInt8) :
    (d.put path bytes).files path = some bytes := if_pos rfl

theorem Disk.put_files_of_ne {path p : CString} {bytes : List UInt8} (h : p ≠ path) :
    (d.put path bytes).files p = d.files p := if_neg h

@[simp] theorem Disk.put_put (d : Disk) (path : CString) (bytes bytes' : List UInt8) :
    (d.put path bytes).put path bytes' = d.put path bytes' := by
  simp only [Disk.put, Disk.mk.injEq, and_self, and_true]
  funext p
  split <;> rfl

theorem Disk.append_of_files {path : CString} {bytes more : List UInt8} (h : d.files path = some bytes) :
    d.append path more = d.put path (bytes ++ more) := by
  rw [Disk.append, h, Option.getD_some]

theorem Disk.put_same {path : CString} {bytes : List UInt8} (h : d.files path = some bytes) : d.put path bytes = d := by
  have hfiles : (fun p => if p = path then some bytes else d.files p) = d.files := by
    funext p
    split
    · rename_i hp
      rw [hp, h]
    · rfl
  rw [Disk.put, hfiles]

theorem memBytes_length (mem : Nat → UInt8) (addr len : Nat) : (memBytes mem addr len).length = len := by
  simp [memBytes]

theorem memBytes_add (mem : Nat → UInt8) (addr m n : Nat) :
    memBytes mem addr (m + n) = memBytes mem addr m ++ memBytes mem (addr + m) n := by
  simp [memBytes, List.range_add, Function.comp_def, Nat.add_assoc]

theorem memBytes_ne_nil {addr len : Nat} (h : len ≠ 0) : memBytes mem addr len ≠ [] := by
  intro hnil
  rw [← memBytes_length mem addr len, hnil] at h
  exact h rfl

theorem memBytes_take (mem : Nat → UInt8) (addr : Nat) {m n : Nat} (h : m ≤ n) :
    (memBytes mem addr n).take m = memBytes mem addr m := by
  simp [memBytes, ← List.map_take, List.take_range, Nat.min_eq_left h]

/-! ## Writes -/

/-- The lines of a sidecar go to the end of its file. -/
theorem metaWrite_disk {file : Nat} {path : CString} {bytes : List UInt8} (lines : List CString)
    (hstream : d.streams file = some path) (hbytes : d.files path = some bytes) :
    (disk mem).Safe d (metaWrite (some file) lines) fun _ d' => d' = d.put path (bytes ++ lines.flatten) := by
  induction lines generalizing d bytes with
  | nil => exact .pure (by simpa using (Disk.put_same hbytes).symm)
  | cons line lines ih =>
      refine disk_bind fun _ _ => ?_
      have hnext : d.next mem (.fprintf file line) () = d.put path (bytes ++ line) := by
        simp only [Disk.next, hstream, Disk.append_of_files hbytes]
      rw [hnext]
      refine (ih (d := d.put path (bytes ++ line)) hstream (Disk.put_files ..)).mono fun _ d' hd' => ?_
      rw [hd', Disk.put_put, List.flatten_cons, List.append_assoc]

variable {ctx : HwtCtx}

/-! ## Context -/

theorem eachSome_all {A : SysCall → Prop} {α : Type} (x : Option α) {f : α → Prog sys Unit} (h : ∀ a, (f a).All A) :
    (eachSome x f).All A := by
  cases x with
  | none => trivial
  | some a => exact h a

theorem onDevice_all {A : SysCall → Prop} {α : Type} {failed : α} {f : Fd → Prog sys α} (h : ∀ fd, (f fd).All A) :
    (onDevice ctx failed f).All A := by
  unfold onDevice
  split
  · trivial
  · exact h _

theorem close_quiet (fd : Fd) : (close fd).All SysCall.quiet := all_invoke trivial

theorem closeThreads_all {A : SysCall → Prop} (hclose : ∀ fd, A (.close fd))
    (hmunmap : ∀ addr size, A (.munmap addr size)) (bufsize : UInt64) (threads : List HwtThreadCtx) :
    (closeThreads bufsize threads).All A := by
  induction threads with
  | nil => trivial
  | cons thread threads ih =>
      have hthread : (closeThread bufsize thread).All A :=
        (eachSome_all _ fun _ => all_invoke (hmunmap _ _)).bind fun _ => all_invoke (hclose _)
      exact hthread.bind fun _ => ih

/-- What `hwt_ctx_close` does behind the stop. -/
theorem closeRest_all {A : SysCall → Prop} (hclose : ∀ fd, A (.close fd))
    (hmunmap : ∀ addr size, A (.munmap addr size)) (ctx : HwtCtx) : (do
    closeThreads ctx.bufsize ctx.threads
    eachSome ctx.traceBuf (munmapBuffer ctx.bufsize)
    eachSome ctx.ctxFd close
    eachSome ctx.kqFd close
    eachSome ctx.ctlFd close : Prog sys Unit).All A := by
  have hcloses : ∀ fd : Option Fd, (eachSome fd close).All A := fun fd => eachSome_all fd fun _ => all_invoke (hclose _)
  refine (closeThreads_all hclose hmunmap _ _).bind fun _ => ?_
  refine (eachSome_all _ fun _ => all_invoke (hmunmap _ _)).bind fun _ => ?_
  exact (hcloses _).bind fun _ => (hcloses _).bind fun _ => hcloses _

theorem hwtCtxClose_all {A : SysCall → Prop} (hclose : ∀ fd, A (.close fd))
    (hmunmap : ∀ addr size, A (.munmap addr size)) (hstop : ∀ fd, A (.stop fd)) (ctx : HwtCtx) :
    (hwtCtxClose ctx).All A := by
  have hfirst : (eachSome ctx.ctxFd fun fd => do
      let _ ← (invoke (.stop fd) : Prog sys Bool)
      pure ()).All A :=
    eachSome_all _ fun fd => all_invoke_bind (c := .stop fd) (hstop fd) fun _ => trivial
  exact hfirst.bind fun _ => closeRest_all hclose hmunmap ctx

theorem closeRest_quiet (ctx : HwtCtx) : (do
    closeThreads ctx.bufsize ctx.threads
    eachSome ctx.traceBuf (munmapBuffer ctx.bufsize)
    eachSome ctx.ctxFd close
    eachSome ctx.kqFd close
    eachSome ctx.ctlFd close : Prog sys Unit).All SysCall.quiet :=
  closeRest_all (fun _ => trivial) (fun _ _ => trivial) ctx

theorem hwtCtxSetConfig_quiet (ctx : HwtCtx) (pauseOnMmap : Bool) :
    (hwtCtxSetConfig ctx pauseOnMmap).All SysCall.quiet := by
  unfold hwtCtxSetConfig
  split
  · exact onDevice_all fun _ => all_invoke trivial
  · trivial

theorem hwtCtxStart_all {A : SysCall → Prop} (h : ∀ fd, A (.start fd)) (ctx : HwtCtx) : (hwtCtxStart ctx).All A :=
  onDevice_all fun fd => all_invoke (h fd)

theorem hwtDetectBackend_quiet (names : List CString) : (hwtDetectBackend names).All SysCall.quiet := by
  induction names with
  | nil => trivial
  | cons name names ih =>
      refine all_invoke_bind trivial fun (found : Bool) => ?_
      cases found with
      | true => trivial
      | false => exact ih

theorem resolveBackend_all {A : SysCall → Prop} (hopen : ∀ path, A (.openDevice path)) (hquiet : ∀ c, c.quiet → A c)
    (explicit : Option CString) : (resolveBackend explicit).All A := by
  have havailable : hwtAvailable.All A :=
    all_invoke_bind (hopen devHwt) fun (fd : Option Fd) => by
      cases fd with
      | none => trivial
      | some fd => exact ((close_quiet fd).imp hquiet).bind fun _ => trivial
  refine havailable.bind fun available => ?_
  split
  · cases explicit with
    | none => exact (hwtDetectBackend_quiet backends).imp hquiet
    | some name => trivial
  · trivial

theorem resolveBackend_calm (explicit : Option CString) : (resolveBackend explicit).All SysCall.calm :=
  resolveBackend_all (fun _ => trivial) (fun _ => calm_of_quiet) explicit

theorem checkHwtHooks_quiet (dryrun : Bool) : (checkHwtHooks dryrun).All SysCall.quiet :=
  all_invoke_bind trivial fun (hooks : Option Bool) => by
    rcases hooks with _ | _ | _ <;> trivial

/-! ## Records -/

theorem printRecord_all {A : SysCall → Prop} (h : ∀ rec fmt, A (.print rec fmt)) (fmt : BsdtraceFmt)
    (rec : BsdtraceRecord) : (printRecord fmt rec).All A := by
  unfold printRecord
  split
  · exact all_invoke (h rec fmt)
  · trivial

theorem wakeTarget_all {A : SysCall → Prop} (h : ∀ fd, A (.wakeup fd)) (ctx : HwtCtx) (pauseOnMmap : Bool)
    (rec : BsdtraceRecord) : (wakeTarget ctx pauseOnMmap rec).All A := by
  unfold wakeTarget
  split
  · exact onDevice_all fun fd => all_invoke (h fd)
  · trivial

theorem openWanted_all {A : SysCall → Prop} (h : ∀ path, A (.openDevice path)) (ctx : HwtCtx) (rec : BsdtraceRecord) :
    (openWanted ctx rec).All A := by
  unfold openWanted
  split
  · unfold Session.hwtCtxOpenThread
    split
    · trivial
    split
    · trivial
    exact all_invoke_bind (h _) fun (fd : Option Fd) => by cases fd <;> trivial
  · trivial

theorem metaWrite_all {A : SysCall → Prop} (h : ∀ file line, A (.fprintf file line)) (file : Option Nat)
    (lines : List CString) : (metaWrite file lines).All A := by
  induction lines with
  | nil => trivial
  | cons line lines ih => exact (eachSome_all file fun f => all_invoke (h f line)).bind fun _ => ih

theorem threadPosition_all {A : SysCall → Prop} (h : ∀ fd, A (.bufptrGet fd)) (bufsize : UInt64)
    (thread : HwtThreadCtx) : (threadPosition bufsize thread).All A :=
  all_invoke_bind (h thread.fd) fun (pos : Option (Int32 × UInt64)) => by cases pos <;> trivial

theorem mapThread_all {A : SysCall → Prop} (h : ∀ size fd, A (.mmap size fd)) (bufsize : UInt64)
    (thread : HwtThreadCtx) : (mapThread bufsize thread).All A := by
  unfold mapThread
  split
  · trivial
  · exact all_invoke_bind (h _ _) fun _ => trivial

theorem printThread_all {A : SysCall → Prop} (h : ∀ threadId, A (.printThread threadId)) (fmt : BsdtraceFmt)
    (threadId : Int32) : (printThread fmt threadId).All A := by
  unfold printThread
  split
  · exact all_invoke (h threadId)
  · trivial

/-! ## The child and the target -/

theorem killChild_quiet (child : Int32) : (killChild child).All SysCall.quiet :=
  all_invoke_bind trivial fun _ => all_invoke_bind trivial fun _ => trivial

theorem forkStopped_quiet (args : List CString) (noAslr : Bool) :
    (forkStopped args noAslr).All SysCall.quiet :=
  all_invoke_bind trivial fun (pid : Option Int32) => by
    cases pid with
    | none => trivial
    | some pid =>
        refine all_invoke_bind trivial fun (answer : WaitAnswer) => ?_
        cases answer with
        | stopped => trivial
        | _ => exact (killChild_quiet pid).bind fun _ => trivial

theorem traceFilter_quiet (host : Host) (opts : SessionOpts) (pid : Int32) :
    (traceFilter host opts pid).All SysCall.quiet := by
  unfold traceFilter
  split
  · refine all_invoke_bind trivial fun (path : Option CString) => ?_
    cases path with
    | none => trivial
    | some path => exact all_invoke_bind trivial fun _ => trivial
  · trivial

theorem searchPath_quiet (name : CString) (dirs : List CString) : (searchPath name dirs).All SysCall.quiet := by
  induction dirs with
  | nil => trivial
  | cons dir dirs ih =>
      refine all_invoke_bind trivial fun (found : Bool) => ?_
      cases found with
      | true => trivial
      | false => exact ih

theorem execFilter_quiet (host : Host) (opts : SessionOpts) (name : CString) :
    (execFilter host opts name).All SysCall.quiet := by
  have hexe : (exeForSymbols name).All SysCall.quiet := by
    unfold exeForSymbols
    split
    · trivial
    · exact all_invoke_bind trivial fun _ => (searchPath_quiet _ _).bind fun _ => trivial
  unfold execFilter
  split
  · exact hexe.bind fun _ => trivial
  · trivial

theorem TraceLoop.expired_quiet (st : TraceLoop) (opts : SessionOpts) (start : Nat) :
    (st.expired opts start).All SysCall.quiet := by
  unfold TraceLoop.expired
  split
  · exact all_invoke_bind trivial fun _ => trivial
  · trivial

theorem TraceLoop.checkTarget_quiet (st : TraceLoop) (pid : Int32) :
    (st.checkTarget pid).All SysCall.quiet := by
  unfold TraceLoop.checkTarget
  split
  · trivial
  · exact all_invoke_bind trivial fun _ => trivial

end ObservableBSD.Trace.Session
