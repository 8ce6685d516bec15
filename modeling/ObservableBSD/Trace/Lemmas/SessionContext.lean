import ObservableBSD.Trace.SessionProtocol
import ObservableBSD.Trace.SizeTheorems

/-!
# What a context holds

Every function of `hwt.c` obeys the protocol of a session, and what the session holds afterwards is what the
context says.
-/

namespace ObservableBSD.Trace.Session

open Base Elf Decode

/-! ## Rules -/

@[simp] theorem ofOption_none {α : Type} : ofOption (none : Option α) = 0 := rfl

@[simp] theorem ofOption_some {α : Type} (a : α) : ofOption (some a) = {a} := rfl

variable {α β : Type} {w : World} {ph : Phase} {post : α → World → Prop}

theorem invoke_safe {c : SysCall} {post : c.Answer → World → Prop} (hallows : w.Allows c)
    (h : ∀ ans, w.Answers c ans → post ans (w.next c ans)) : held.Safe w (invoke c) post :=
  Protocol.Safe.perform (P := held) (c := c) hallows h

theorem invoke_bind {c : SysCall} {f : c.Answer → Prog sys α} (hallows : w.Allows c)
    (h : ∀ ans, w.Answers c ans → held.Safe (w.next c ans) (f ans) post) : held.Safe w (invoke c >>= f) post :=
  Protocol.Safe.call (P := held) (c := c) hallows h

/-! ## Holdings -/

theorem World.addFd_none (w : World) : w.addFd none = w := by
  simp only [World.addFd, ofOption_none, zero_add]

def threadFds (threads : List HwtThreadCtx) : Multiset Fd := (threads.map (·.fd) : List Fd)

def threadMaps (size : Nat) (threads : List HwtThreadCtx) : Multiset (Nat × Nat) :=
  (threads.filterMap fun thread => thread.traceBuf.map (·, size) : List (Nat × Nat))

def HwtCtx.fds (ctx : HwtCtx) : Multiset Fd :=
  threadFds ctx.threads + (ofOption ctx.ctxFd + (ofOption ctx.kqFd + ofOption ctx.ctlFd))

def HwtCtx.maps (ctx : HwtCtx) : Multiset (Nat × Nat) :=
  threadMaps ctx.bufsize.toNat ctx.threads + ofOption (ctx.traceBuf.map (·, ctx.bufsize.toNat))

/-- What a session with this context and this sidecar holds. -/
def world (ctx : HwtCtx) (file : Option Nat) (ph : Phase) : World := ⟨ctx.fds, ctx.maps, ofOption file, ph⟩

@[simp] theorem threadFds_nil : threadFds [] = 0 := rfl

@[simp] theorem threadFds_cons (thread : HwtThreadCtx) (threads : List HwtThreadCtx) :
    threadFds (thread :: threads) = thread.fd ::ₘ threadFds threads := rfl

theorem threadMaps_cons (size : Nat) (thread : HwtThreadCtx) (threads : List HwtThreadCtx) :
    threadMaps size (thread :: threads) = ofOption (thread.traceBuf.map (·, size)) + threadMaps size threads := by
  unfold threadMaps
  cases hbuf : thread.traceBuf with
  | none => simp [hbuf]
  | some addr => simp [hbuf]

/-- The descriptors are those of the context that the session has allocated. -/
structure HwtCtx.Ready (ctx : HwtCtx) (ph : Phase) : Prop where
  device : ∀ fd, ctx.ctxFd = some fd → ph.context = some ctx.ident ∧ fd.path = some (devicePath ctx.ident ctx.tid)
  threads : ∀ thread ∈ ctx.threads,
    ph.context = some ctx.ident ∧ thread.fd.path = some (devicePath ctx.ident thread.threadId)
  idle : ctx.ctxFd = none → ph.running = false

theorem HwtCtx.Ready.world_device {ctx : HwtCtx} {fd : Fd} {file : Option Nat} (h : ctx.Ready ph)
    (hfd : ctx.ctxFd = some fd) : (world ctx file ph).Device fd := by
  obtain ⟨hcontext, hpath⟩ := h.device fd hfd
  exact ⟨by simp [world, HwtCtx.fds, hfd], ctx.ident, ctx.tid, hcontext, hpath⟩

/-! ## Close -/

theorem munmap_safe {F : Multiset Fd} {M : Multiset (Nat × Nat)} {files : Multiset Nat} (size : UInt64)
    (buf : Option Nat) :
    held.Safe ⟨F, ofOption (buf.map (·, size.toNat)) + M, files, ph⟩ (eachSome buf (munmapBuffer size))
      fun _ w => w = ⟨F, M, files, ph⟩ := by
  cases buf with
  | none => exact .pure (by simp)
  | some addr =>
      refine invoke_safe ?_ fun _ _ => ?_
      · simp [World.Allows]
      · change (⟨F, Multiset.erase ({(addr, size.toNat)} + M) (addr, size.toNat), files, ph⟩ : World) = _
        rw [Multiset.singleton_add, Multiset.erase_cons_head]

theorem close_safe {F : Multiset Fd} {M : Multiset (Nat × Nat)} {files : Multiset Nat} (hidle : ph.running = false)
    (fd : Option Fd) :
    held.Safe ⟨ofOption fd + F, M, files, ph⟩ (eachSome fd close) fun _ w => w = ⟨F, M, files, ph⟩ := by
  cases fd with
  | none => exact .pure (by simp)
  | some fd =>
      refine invoke_safe ?_ fun _ _ => ?_
      · simp [World.Allows, hidle]
      · change (⟨Multiset.erase ({fd} + F) fd, M, files, ph⟩ : World) = _
        rw [Multiset.singleton_add, Multiset.erase_cons_head]

theorem closeThread_safe {F : Multiset Fd} {M : Multiset (Nat × Nat)} {files : Multiset Nat}
    (hidle : ph.running = false) (size : UInt64) (thread : HwtThreadCtx) :
    held.Safe ⟨thread.fd ::ₘ F, ofOption (thread.traceBuf.map (·, size.toNat)) + M, files, ph⟩
      (closeThread size thread) fun _ w => w = ⟨F, M, files, ph⟩ := by
  refine (munmap_safe size thread.traceBuf).bind fun _ _ hw => ?_
  subst hw
  exact close_safe hidle (some thread.fd)

theorem closeThreads_safe {F : Multiset Fd} {M : Multiset (Nat × Nat)} {files : Multiset Nat}
    (hidle : ph.running = false) (size : UInt64) (threads : List HwtThreadCtx) :
    held.Safe ⟨threadFds threads + F, threadMaps size.toNat threads + M, files, ph⟩ (closeThreads size threads)
      fun _ w => w = ⟨F, M, files, ph⟩ := by
  induction threads with
  | nil => exact .pure (by simp [threadMaps])
  | cons thread threads ih =>
      rw [threadFds_cons, threadMaps_cons, Multiset.cons_add, add_assoc]
      refine (closeThread_safe hidle size thread).bind fun _ _ hw => ?_
      subst hw
      exact ih

/-- A context is closed behind a stop. -/
theorem hwtCtxClose_safe {ctx : HwtCtx} {file : Option Nat} (hready : ctx.Ready ph) :
    held.Safe (world ctx file ph) (hwtCtxClose ctx) fun _ w =>
      w = ⟨0, 0, ofOption file, { ph with running := false }⟩ := by
  have hstop : held.Safe (world ctx file ph) (eachSome ctx.ctxFd fun fd => do
      let _ ← (invoke (.stop fd) : Prog sys Bool)
      pure ()) fun _ w => w = world ctx file { ph with running := false } := by
    cases hfd : ctx.ctxFd with
    | none =>
        refine .pure ?_
        have hidle := hready.idle hfd
        cases ph
        cases hidle
        rfl
    | some fd => exact invoke_bind (hready.world_device hfd) fun _ _ => .pure rfl
  refine hstop.bind fun _ _ hw => ?_
  subst hw
  refine (closeThreads_safe rfl ctx.bufsize ctx.threads).bind fun _ _ hw => ?_
  subst hw
  rw [← add_zero (ofOption (ctx.traceBuf.map _))]
  refine (munmap_safe ctx.bufsize ctx.traceBuf).bind fun _ _ hw => ?_
  subst hw
  refine (close_safe rfl ctx.ctxFd).bind fun _ _ hw => ?_
  subst hw
  refine (close_safe rfl ctx.kqFd).bind fun _ _ hw => ?_
  subst hw
  rw [← add_zero (ofOption ctx.ctlFd)]
  exact close_safe rfl ctx.ctlFd

/-! ## Allocation -/

theorem hwtAvailable_safe (hidle : w.phase.running = false) : held.Safe w hwtAvailable fun _ w' => w' = w := by
  refine invoke_bind trivial fun (ans : Option Fd) _ => ?_
  change held.Safe (w.addFd ans) _ _
  cases ans with
  | none => exact .pure w.addFd_none
  | some fd => exact (close_safe hidle (some fd)).bind fun _ _ hw => .pure hw

theorem hwtDetectBackend_safe (names : List CString) :
    held.Safe w (hwtDetectBackend names) fun _ w' => w' = w := by
  induction names with
  | nil => exact .pure rfl
  | cons name names ih =>
      refine invoke_bind trivial fun found _ => ?_
      cases found with
      | false => exact ih
      | true => exact .pure rfl

theorem resolveBackend_safe (explicit : Option CString) (hidle : w.phase.running = false) :
    held.Safe w (resolveBackend explicit) fun _ w' => w' = w := by
  refine (hwtAvailable_safe hidle).bind fun available _ hw => ?_
  subst hw
  cases available with
  | false => exact .pure rfl
  | true =>
      cases explicit with
      | none => exact hwtDetectBackend_safe backends
      | some name => exact .pure rfl

theorem checkHwtHooks_safe (dryrun : Bool) : held.Safe w (checkHwtHooks dryrun) fun _ w' => w' = w := by
  refine invoke_bind trivial fun hooks _ => ?_
  cases hooks with
  | none => exact .pure rfl
  | some hooks => cases hooks <;> exact .pure rfl

/-- The outcome of `hwt_ctx_alloc`: a context with its device open, or nothing held. -/
structure Allocated (ph : Phase) (r : Option HwtCtx) (w : World) : Prop where
  failed : r = none → ∃ context, w = ⟨0, 0, 0, { ph with context }⟩
  opened : ∀ ctx, r = some ctx → w = world ctx none { ph with context := some ctx.ident } ∧
    ctx.ctxFd.isSome = true ∧ ctx.Ready { ph with context := some ctx.ident }

/-- A context in front of the open of its device. -/
structure HwtCtx.Bare (ctx : HwtCtx) : Prop where
  ctxFd : ctx.ctxFd = none
  threads : ctx.threads = []

theorem HwtCtx.Bare.ready {ctx : HwtCtx} (h : ctx.Bare) (hidle : ph.running = false) : ctx.Ready ph :=
  ⟨by simp [h.ctxFd], by simp [h.threads], fun _ => hidle⟩

theorem allocFail_safe {ctx : HwtCtx} {context : Option Int32} (hbare : ctx.Bare) (hidle : ph.running = false) :
    held.Safe (world ctx none { ph with context }) (allocFail ctx) (Allocated ph) := by
  refine (hwtCtxClose_safe (hbare.ready (by exact hidle))).bind fun _ _ hw => .pure ?_
  subst hw
  refine ⟨fun _ => ⟨context, ?_⟩, by simp⟩
  rw [← hidle]
  rfl

theorem openContext_safe {ctx : HwtCtx} (hbare : ctx.Bare) (hidle : ph.running = false) :
    held.Safe (world ctx none { ph with context := some ctx.ident }) (openContext ctx) (Allocated ph) := by
  refine invoke_bind trivial fun (fd : Option Fd) hfd => ?_
  change held.Safe ((world ctx none _).addFd fd) _ _
  cases fd with
  | none =>
      rw [World.addFd_none]
      exact allocFail_safe hbare hidle
  | some fd =>
      have hpath : fd.path = some (devicePath ctx.ident ctx.tid) := hfd fd rfl
      refine .pure ⟨by simp, ?_⟩
      rintro _ ⟨⟩
      refine ⟨?_, rfl, ⟨?_, by simp [hbare.threads], by simp⟩⟩
      · simp [world, World.addFd, HwtCtx.fds, HwtCtx.maps, hbare.ctxFd, hbare.threads]
      · rintro _ ⟨⟩
        exact ⟨rfl, hpath⟩

theorem requestContext_safe {ctx : HwtCtx} {ctl kq : Fd} (hbare : ctx.Bare) (hctl : ctx.ctlFd = some ctl)
    (hkq : ctx.kqFd = some kq) (hctlPath : ctl.path = some devHwt) (hkqPath : kq.path = none)
    (hpages : ctx.bufsize.toNat % 4096 = 0) (hidle : ph.running = false) (hnone : ph.context = none) :
    held.Safe (world ctx none ph) (requestContext ctx ctl kq) (Allocated ph) := by
  have hfds : ctl ∈ ctx.fds ∧ kq ∈ ctx.fds := by simp [HwtCtx.fds, hctl, hkq]
  refine invoke_bind ⟨⟨hfds.1, hctlPath⟩, ⟨hfds.2, hkqPath⟩, hpages, hnone⟩ fun (ident : Option Int32) _ => ?_
  change held.Safe (world ctx none { ph with context := ident <|> ph.context }) _ _
  cases ident with
  | none => exact allocFail_safe hbare hidle
  | some ident =>
      have hbare' : { ctx with ident }.Bare := ⟨hbare.ctxFd, hbare.threads⟩
      exact openContext_safe hbare' hidle

theorem createKqueue_safe {ctx : HwtCtx} {ctl : Fd} (hbare : ctx.Bare) (hctl : ctx.ctlFd = some ctl)
    (hkq : ctx.kqFd = none) (hctlPath : ctl.path = some devHwt) (hpages : ctx.bufsize.toNat % 4096 = 0)
    (hidle : ph.running = false) (hnone : ph.context = none) :
    held.Safe (world ctx none ph) (createKqueue ctx ctl) (Allocated ph) := by
  refine invoke_bind trivial fun (kq : Option Fd) hkqPath => ?_
  change held.Safe ((world ctx none ph).addFd kq) _ _
  cases kq with
  | none =>
      rw [World.addFd_none]
      exact allocFail_safe hbare hidle
  | some kq =>
      have hw : (world ctx none ph).addFd (some kq) = world { ctx with kqFd := some kq } none ph := by
        simp [world, World.addFd, HwtCtx.fds, HwtCtx.maps, hbare.ctxFd, hbare.threads, hkq]
      rw [hw]
      exact requestContext_safe ⟨hbare.ctxFd, hbare.threads⟩ hctl rfl hctlPath (hkqPath kq rfl) hpages hidle hnone

theorem hwtCtxAlloc_safe (host : Host) (pid tid : Int32) (bufsize : UInt64) (backend : CString)
    (hidle : ph.running = false) (hnone : ph.context = none) :
    held.Safe ⟨0, 0, 0, ph⟩ (hwtCtxAlloc host pid tid bufsize backend) (Allocated ph) := by
  have hfailed : Allocated ph none ⟨0, 0, 0, ph⟩ := ⟨fun _ => ⟨ph.context, rfl⟩, by simp⟩
  unfold hwtCtxAlloc
  split
  · exact .pure hfailed
  split
  · exact .pure hfailed
  refine invoke_bind trivial fun (ctl : Option Fd) hctl => ?_
  cases ctl with
  | none => exact .pure hfailed
  | some ctl =>
      have hpages : (hwtCtxAllocSize bufsize).toNat % 4096 = 0 := hwtCtxAllocSize_pages bufsize
      exact createKqueue_safe ⟨rfl, rfl⟩ rfl rfl (hctl ctl rfl) hpages hidle hnone

/-! ## Configuration, start and stop -/

variable {ctx : HwtCtx} {file : Option Nat}

theorem onDevice_safe {failed : α} {f : Fd → Prog sys α} (hfailed : ctx.ctxFd = none → post failed w)
    (h : ∀ fd, ctx.ctxFd = some fd → held.Safe w (f fd) post) : held.Safe w (onDevice ctx failed f) post := by
  unfold onDevice
  cases hfd : ctx.ctxFd with
  | none => exact .pure (hfailed hfd)
  | some fd => exact h fd hfd

theorem hwtCtxSetConfig_safe (pauseOnMmap : Bool) (hready : ctx.Ready ph) (hidle : ph.running = false) :
    held.Safe (world ctx file ph) (hwtCtxSetConfig ctx pauseOnMmap) fun ok w =>
      w = world ctx file { ph with configured := ok || ph.configured } := by
  unfold hwtCtxSetConfig
  split
  · exact onDevice_safe (fun _ => rfl) fun fd hfd => invoke_safe ⟨hready.world_device hfd, hidle⟩ fun _ _ => rfl
  · exact .pure rfl

theorem hwtCtxStart_safe (hready : ctx.Ready ph) (hconf : ph.configured = true) (hidle : ph.running = false) :
    held.Safe (world ctx file ph) (hwtCtxStart ctx) fun ok w => w = world ctx file { ph with running := ok } := by
  refine onDevice_safe (fun _ => by rw [← hidle]) fun fd hfd => ?_
  refine invoke_safe ⟨hready.world_device hfd, hconf, hidle⟩ fun (ok : Bool) _ => ?_
  change world ctx file { ph with running := ok || ph.running } = _
  rw [hidle, Bool.or_false]

theorem hwtCtxStop_safe (hready : ctx.Ready ph) :
    held.Safe (world ctx file ph) (hwtCtxStop ctx) fun _ w => w = world ctx file { ph with running := false } :=
  onDevice_safe (fun hfd => by rw [← hready.idle hfd]) fun _ hfd =>
    invoke_safe (hready.world_device hfd) fun _ _ => rfl

theorem hwtCtxWakeup_safe (hready : ctx.Ready ph) :
    held.Safe (world ctx file ph) (hwtCtxWakeup ctx) fun _ w => w = world ctx file ph :=
  onDevice_safe (fun _ => rfl) fun _ hfd => invoke_safe (hready.world_device hfd) fun _ _ => rfl

/-! ## Records and buffer -/

theorem hwtCtxPollRecords_safe (maxrecords : Nat) (hready : ctx.Ready ph) :
    held.Safe (world ctx file ph) (hwtCtxPollRecords ctx maxrecords) fun _ w => w = world ctx file ph := by
  have hget : held.Safe (world ctx file ph) (onDevice ctx none fun fd => invoke (.recordGet fd (min maxrecords 1024)))
      fun _ w => w = world ctx file ph :=
    onDevice_safe (fun _ => rfl) fun _ hfd =>
      invoke_safe ⟨hready.world_device hfd, Nat.min_le_right ..⟩ fun _ _ => rfl
  exact hget.bind fun _ _ hw => .pure hw

theorem hwtCtxBufptrGet_safe (hready : ctx.Ready ph) :
    held.Safe (world ctx file ph) (hwtCtxBufptrGet ctx) fun _ w => w = world ctx file ph :=
  onDevice_safe (fun _ => rfl) fun _ hfd => invoke_safe (hready.world_device hfd) fun _ _ => rfl

theorem hwtCtxMapBuffer_safe (hready : ctx.Ready ph) :
    held.Safe (world ctx file ph) (hwtCtxMapBuffer ctx) fun r w =>
      r.2 = { ctx with traceBuf := r.1 } ∧ w = world r.2 file ph := by
  unfold hwtCtxMapBuffer
  cases hbuf : ctx.traceBuf with
  | some addr => exact .pure ⟨by rw [← hbuf], rfl⟩
  | none =>
      have hmmap : held.Safe (world ctx file ph)
          (onDevice ctx none fun fd => invoke (.mmap ctx.bufsize.toNat fd))
          fun (ptr : Option Nat) w => w = world { ctx with traceBuf := ptr } file ph := by
        refine onDevice_safe (fun _ => by rw [← hbuf]) fun fd hfd => ?_
        refine invoke_safe (hready.world_device hfd) fun (ptr : Option Nat) _ => ?_
        change (⟨ctx.fds, ofOption (ptr.map (·, ctx.bufsize.toNat)) + ctx.maps, ofOption file, ph⟩ : World) =
          ⟨ctx.fds, _, ofOption file, ph⟩
        congr 1
        simp [HwtCtx.maps, hbuf, add_comm]
      exact hmmap.bind fun ptr _ hw => .pure ⟨rfl, hw⟩

/-- The memory behind the pointer of the context. -/
theorem world_mapped {addr len : Nat} (hbuf : ctx.traceBuf = some addr) (hlen : len ≤ ctx.bufsize.toNat) :
    (world ctx file ph).Mapped addr len :=
  ⟨(addr, ctx.bufsize.toNat), by simp [world, HwtCtx.maps, hbuf], Nat.le_refl _, Nat.add_le_add_left hlen _⟩

theorem writeBuffer_safe {fd : Fd} {buf total : Nat} (hfd : fd ∈ w.fds) (hmapped : w.Mapped buf total) :
    held.Safe w (writeBuffer fd buf total) fun _ w' => w' = w := by
  obtain ⟨m, hm, hlow, hhigh⟩ := hmapped
  refine Protocol.Safe.iterate (P := held) (fun off w' => off ≤ total ∧ w' = w) ⟨Nat.zero_le _, rfl⟩ ?_
  rintro off _ ⟨hoff, rfl⟩
  split
  · rename_i hlt
    have hmapped : World.Mapped _ (buf + off) (total - off) := ⟨m, hm, by omega, by omega⟩
    refine invoke_bind ⟨hfd, hmapped, by omega⟩ fun (nw : Option Nat) hnw => ?_
    cases nw with
    | none => exact .pure rfl
    | some nw =>
        have hle : nw ≤ total - off := hnw nw rfl
        exact .pure ⟨by omega, rfl⟩
  · exact .pure rfl

theorem hwtCtxSnapshotBuffer_safe {addr : Nat} (path : CString) (lastPage : Int32) (lastOffset : UInt64)
    (hbuf : ctx.traceBuf = some addr) (hidle : ph.running = false) :
    held.Safe (world ctx file ph) (hwtCtxSnapshotBuffer ctx path lastPage lastOffset) fun r w =>
      (r.2 = ctx ∧ r.1 ≤ ctx.bufsize.toNat) ∧ w = world ctx file ph := by
  unfold hwtCtxSnapshotBuffer hwtCtxMapBuffer
  rw [hbuf]
  split
  · exact .pure ⟨⟨rfl, Int.natCast_nonneg _⟩, rfl⟩
  have hfailed : (-1 : Int) ≤ ctx.bufsize.toNat := by omega
  rw [Prog.pure_bind]
  dsimp only
  have htotal : ∀ n : Nat, (if ctx.bufsize.toNat < n then ctx.bufsize.toNat else n) ≤ ctx.bufsize.toNat := by
    intro n
    split <;> omega
  generalize hn : (if ctx.bufsize.toNat < _ then ctx.bufsize.toNat else _ : Nat) = total
  have hle : total ≤ ctx.bufsize.toNat := hn ▸ htotal _
  split
  · exact .pure ⟨⟨rfl, Int.natCast_nonneg _⟩, rfl⟩
  refine invoke_bind trivial fun (fd : Option Fd) _ => ?_
  change held.Safe ((world ctx file ph).addFd fd) _ _
  cases fd with
  | none =>
      rw [World.addFd_none]
      exact .pure ⟨⟨rfl, hfailed⟩, rfl⟩
  | some fd =>
      have hmapped : (world ctx file ph).Mapped addr total := world_mapped hbuf hle
      refine (writeBuffer_safe (by simp [World.addFd]) (by exact hmapped)).bind fun written _ hw => ?_
      subst hw
      refine (close_safe hidle (some fd)).bind fun _ _ hw => .pure ⟨⟨rfl, ?_⟩, hw⟩
      cases written with
      | false => exact hfailed
      | true => exact Int.ofNat_le.mpr hle

/-! ## Threads -/

/-- The context of a session: its descriptors are the right ones, and its device is open. -/
structure HwtCtx.Live (ctx : HwtCtx) (ph : Phase) : Prop extends ctx.Ready ph where
  opened : ctx.ctxFd.isSome = true

theorem HwtCtx.Live.context (hlive : ctx.Live ph) : ph.context = some ctx.ident := by
  obtain ⟨fd, hfd⟩ := Option.isSome_iff_exists.mp hlive.opened
  exact (hlive.device fd hfd).1

/-- The rest of the phase is no matter. -/
theorem HwtCtx.Live.congr {ph' : Phase} (hlive : ctx.Live ph) (hcontext : ph'.context = ph.context) : ctx.Live ph' where
  device fd hfd := hcontext ▸ hlive.device fd hfd
  threads thread hthread := hcontext ▸ hlive.threads thread hthread
  idle hfd := by
    have hopened := hlive.opened
    simp [hfd] at hopened
  opened := hlive.opened

theorem hwtCtxOpenThread_safe (threadId : Int32) (hlive : ctx.Live ph) :
    held.Safe (world ctx file ph) (hwtCtxOpenThread ctx threadId) fun ctx' w =>
      ctx'.Live ph ∧ w = world ctx' file ph := by
  unfold hwtCtxOpenThread
  split
  · exact .pure ⟨hlive, rfl⟩
  split
  · exact .pure ⟨hlive, rfl⟩
  refine invoke_bind trivial fun (fd : Option Fd) hfd => ?_
  change held.Safe ((world ctx file ph).addFd fd) _ _
  cases fd with
  | none =>
      rw [World.addFd_none]
      exact .pure ⟨hlive, rfl⟩
  | some fd =>
      have hpath : fd.path = some (devicePath ctx.ident threadId) := hfd fd rfl
      refine .pure ⟨⟨⟨hlive.device, ?_, hlive.idle⟩, hlive.opened⟩, ?_⟩
      · intro thread hthread
        rcases List.mem_append.mp hthread with hthread | hthread
        · exact hlive.threads thread hthread
        · obtain rfl := List.mem_singleton.mp hthread
          exact ⟨hlive.context, hpath⟩
      · simp only [world, World.addFd, HwtCtx.fds, HwtCtx.maps, threadFds, threadMaps, List.map_append,
          List.filterMap_append, ← Multiset.coe_add, World.mk.injEq, and_true]
        constructor
        · simp only [ofOption_some, List.map_cons, List.map_nil, Multiset.coe_singleton]
          ac_rfl
        · simp

end ObservableBSD.Trace.Session
