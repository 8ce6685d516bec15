import ObservableBSD.Trace.Lemmas.PartSession
import ObservableBSD.Trace.Lemmas.Snapshot

/-!
# The snapshot of a session

The stretch of the buffer that is saved and decoded is the one that the model saves and decodes.
-/

namespace ObservableBSD.Trace.Session

open Base Decode Elf

variable {α : Type} {b : Buffers} {s s' : Saving} {post : α → Saving → Prop} {ctx : HwtCtx}

/-! ## Rules -/

theorem saving_perform {c : SysCall} {post : c.Answer → Saving → Prop}
    (h : ∀ ans, b.Answers c ans → post ans (s.next b c ans)) : (saving b).Safe s (invoke c) post :=
  Protocol.Safe.perform (P := saving b) (c := c) trivial h

theorem saving_bind {c : SysCall} {f : c.Answer → Prog sys α}
    (h : ∀ ans, b.Answers c ans → (saving b).Safe (s.next b c ans) (f ans) post) :
    (saving b).Safe s (invoke c >>= f) post :=
  Protocol.Safe.call (P := saving b) (c := c) trivial h

/-- A call that neither saves nor decodes. -/
def SysCall.savesNothing : SysCall → Prop
  | .openOutput _ | .write .. | .decodePtInsn .. => False
  | _ => True

theorem next_of_savesNothing {c : SysCall} (h : c.savesNothing) (ans : c.Answer) : s.next b c ans = s := by
  cases c with
  | openOutput | write | decodePtInsn => exact h.elim
  | _ => rfl

theorem saving_of_savesNothing {p : Prog sys α} (h : p.All SysCall.savesNothing) :
    (saving b).Safe s p fun _ s' => s' = s :=
  Protocol.Safe.of_all (P := saving b) (fun _ hc => ⟨trivial, next_of_savesNothing hc⟩) h

theorem saving_invoke {c : SysCall} {f : c.Answer → Prog sys α} (hc : c.savesNothing)
    (h : ∀ ans, b.Answers c ans → (saving b).Safe s (f ans) post) : (saving b).Safe s (invoke c >>= f) post :=
  saving_bind fun ans hans => (next_of_savesNothing hc ans).symm ▸ h ans hans

theorem Saving.Extends.refl (s : Saving) : s.Extends s := ⟨List.prefix_refl _, List.suffix_refl _⟩

theorem Saving.Extends.trans {s'' : Saving} (h : s.Extends s') (h' : s'.Extends s'') : s.Extends s'' :=
  ⟨h.decoded.trans h'.decoded, h.files.trans h'.files⟩

/-! ## The buffer -/

/-- A new file that holds the bytes. -/
def Saving.put (s : Saving) (path : CString) (bytes : List UInt8) : Saving :=
  { s with files := (path, bytes) :: s.files }

theorem Saving.extends_put (s : Saving) (path : CString) (bytes : List UInt8) : s.Extends (s.put path bytes) :=
  ⟨List.prefix_refl _, List.suffix_cons ..⟩

/-- Behind the loop, the file holds the bytes of the buffer, all of them when no write has failed. -/
theorem writeBuffer_saving {fd : Fd} {path : CString} (buf total : Nat) (hfd : fd.path = some path) :
    (saving b).Safe (s.put path []) (writeBuffer fd buf total) fun written s' =>
      ∃ bytes, s' = s.put path bytes ∧ (written = true → bytes = memBytes b.mem buf total) := by
  refine Protocol.Safe.iterate (P := saving b)
    (fun off s' => off ≤ total ∧ s' = s.put path (memBytes b.mem buf off)) ⟨Nat.zero_le _, rfl⟩ ?_
  rintro off _ ⟨hoff, rfl⟩
  split
  · refine saving_bind fun (nw : Option Nat) hnw => ?_
    cases nw with
    | none => exact .pure ⟨memBytes b.mem buf off, rfl, by simp⟩
    | some nw =>
        have hle : nw ≤ total - off := hnw nw rfl
        refine .pure ⟨by omega, ?_⟩
        simp [Saving.next, Saving.write, Saving.put, hfd, memBytes_add]
  · have htotal : off = total := by omega
    exact .pure ⟨memBytes b.mem buf total, by rw [htotal], fun _ => rfl⟩

/-- The context once its buffer is mapped. -/
def Buffers.withBuffer (b : Buffers) (ctx : HwtCtx) : HwtCtx := { ctx with traceBuf := b.mapped ctx }

theorem hwtCtxMapBuffer_saving (ctx : HwtCtx) :
    (saving b).Safe s (hwtCtxMapBuffer ctx) fun r s' => s' = s ∧ r = (b.mapped ctx, b.withBuffer ctx) := by
  unfold hwtCtxMapBuffer
  cases hbuf : ctx.traceBuf with
  | some addr =>
      have hmapped : b.mapped ctx = some addr := by rw [Buffers.mapped, hbuf]
      exact .pure ⟨rfl, by rw [Buffers.withBuffer, hmapped, ← hbuf]⟩
  | none =>
      have hmapped : b.mapped ctx = ctx.ctxFd.bind b.mapping := by rw [Buffers.mapped, hbuf]
      rw [Buffers.withBuffer, hmapped]
      have hdevice : (saving b).Safe s
          (onDevice ctx none fun fd => invoke (.mmap ctx.bufsize.toNat fd) : Prog sys (Option Nat)) fun ptr s' =>
            s' = s ∧ ptr = ctx.ctxFd.bind b.mapping := by
        unfold onDevice
        cases ctx.ctxFd with
        | none => exact .pure ⟨rfl, rfl⟩
        | some fd =>
            exact saving_invoke (c := .mmap ctx.bufsize.toNat fd) trivial fun (ptr : Option Nat) hptr =>
              .pure ⟨rfl, hptr⟩
      refine hdevice.bind ?_
      rintro ptr _ ⟨rfl, rfl⟩
      exact .pure ⟨rfl, rfl⟩

theorem hwtCtxBufptrGet_saving (ctx : HwtCtx) :
    (saving b).Safe s (hwtCtxBufptrGet ctx) fun stop s' => s' = s ∧ stop = b.stop ctx := by
  unfold hwtCtxBufptrGet onDevice Buffers.stop
  cases ctx.ctxFd with
  | none => exact .pure ⟨rfl, rfl⟩
  | some fd =>
      exact saving_invoke (c := .bufptrGet fd) trivial fun (stop : Option (Int32 × UInt64)) hstop => .pure ⟨rfl, hstop⟩

/-! ## Saving -/

/-- A file that takes whatever it is given. -/
def wholeFile : OutputFile where
  write _ bytes := some bytes.length
  progress := by
    rintro off bytes n hbytes ⟨⟩
    exact ⟨List.length_pos_iff.mpr hbytes, Nat.le_refl _⟩

/-- A file that takes nothing. -/
def brokenFile : OutputFile where
  write _ _ := none
  progress := nofun

theorem writeLoop_brokenFile {off : Nat} {bytes : List UInt8} (h : bytes ≠ []) :
    writeLoop brokenFile off bytes = none := by
  rw [writeLoop, dif_neg h]
  rfl

theorem traceBuffer_mapped {addr : Nat} (h : ctx.traceBuf = some addr) :
    (b.traceBuffer ctx).mapped =
      some ⟨memBytes b.mem addr ctx.bufsize.toNat, memBytes_length b.mem addr ctx.bufsize.toNat⟩ := by
  simp [Buffers.traceBuffer, Buffers.mapped, h]

theorem hwtCtxSnapshotBuffer_saving {addr : Nat} (haddr : ctx.traceBuf = some addr) (path : CString) (lastPage : Int32)
    (lastOffset : UInt64) :
    (saving b).Safe s (Session.hwtCtxSnapshotBuffer ctx path lastPage lastOffset) fun r s' => r.2 = ctx ∧
      ∃ file, let snapshot := Trace.hwtCtxSnapshotBuffer (b.traceBuffer ctx) file lastPage lastOffset
        r.1 = snapshot.saved ∧ s.SavesAs path ⟨snapshot, none⟩ s' := by
  have hmapped := traceBuffer_mapped (b := b) haddr
  have hkept : ∀ saved, s.SavesAs path ⟨⟨saved, none⟩, none⟩ s := fun _ =>
    ⟨(List.append_nil _).symm, List.suffix_refl _, nofun⟩
  have hmap : hwtCtxMapBuffer ctx = pure (some addr, ctx) := by
    unfold hwtCtxMapBuffer
    rw [haddr]
  unfold Session.hwtCtxSnapshotBuffer Trace.hwtCtxSnapshotBuffer
  by_cases hpage : lastPage < 0
  · simp only [if_pos hpage]
    exact .pure ⟨rfl, none, rfl, hkept 0⟩
  simp only [if_neg hpage, hmap, hmapped, Prog.pure_bind]
  have hbufsize : (b.traceBuffer ctx).bufsize = ctx.bufsize.toNat := rfl
  rw [hbufsize]
  have hle : (if ctx.bufsize.toNat < (bufferPosition lastPage.toInt lastOffset).toNat then ctx.bufsize.toNat
      else (bufferPosition lastPage.toInt lastOffset).toNat) ≤ ctx.bufsize.toNat := by
    split <;> omega
  generalize (if ctx.bufsize.toNat < (bufferPosition lastPage.toInt lastOffset).toNat then ctx.bufsize.toNat
    else (bufferPosition lastPage.toInt lastOffset).toNat) = total at hle
  by_cases hzero : total = 0
  · simp only [if_pos hzero]
    exact .pure ⟨rfl, none, rfl, hkept 0⟩
  simp only [if_neg hzero]
  refine saving_bind fun (fd : Option Fd) hfd => ?_
  cases fd with
  | none => exact .pure ⟨rfl, none, rfl, hkept (-1)⟩
  | some fd =>
      refine (writeBuffer_saving addr total (hfd fd rfl)).bind ?_
      rintro written _ ⟨bytes, rfl, hbytes⟩
      refine saving_invoke (c := .close fd) trivial fun _ _ => .pure ⟨rfl, ?_⟩
      cases written with
      | true =>
          have hworks : wholeFile.Works := nofun
          refine ⟨some wholeFile, ?_⟩
          simp only [writeLoop_of_works hworks, memBytes_take b.mem addr hle]
          refine ⟨rfl, (List.append_nil _).symm, List.suffix_cons .., fun _ heq => ?_⟩
          rw [hbytes rfl, ← Option.some.inj heq]
          rfl
      | false =>
          have hne : (memBytes b.mem addr ctx.bufsize.toNat).take total ≠ [] := by
            rw [memBytes_take b.mem addr hle]
            exact memBytes_ne_nil hzero
          refine ⟨some brokenFile, ?_⟩
          simp only [writeLoop_brokenFile hne]
          exact ⟨rfl, (List.append_nil _).symm, List.suffix_cons .., nofun⟩

theorem decodeSaved_saving (ts : TraceState) (fmt : BsdtraceFmt) (dopts : PtDecodeOpts) (addr : Nat) (saved : Int) :
    (saving b).Safe s (decodeSaved ts fmt dopts addr saved) fun _ s' => s' = { s with
      decoded := s.decoded ++ (if 0 < saved then some (memBytes b.mem addr saved.toNat) else none).toList } := by
  unfold decodeSaved
  split
  · exact saving_perform fun _ _ => rfl
  · exact .pure (by rw [Option.toList_none, List.append_nil])

/-! ## Other threads -/

theorem metaWrite_savesNothing (file : Option Nat) (lines : List CString) :
    (metaWrite file lines).All SysCall.savesNothing := metaWrite_all (fun _ _ => trivial) file lines

theorem threadSidecar_savesNothing (ctx : HwtCtx) (ts : TraceState) (tpath : CString) (threadId : Int32) :
    (threadSidecar ctx ts tpath threadId).All SysCall.savesNothing := by
  refine all_invoke_bind trivial fun (file : Option Nat) => ?_
  refine (metaWrite_savesNothing file _).bind fun _ => (metaWrite_savesNothing file _).bind fun _ => ?_
  exact (metaWrite_savesNothing file _).bind fun _ => eachSome_all file fun _ => all_invoke trivial

theorem saveThread_extends (ctx : HwtCtx) (ts : TraceState) (out : CString) (fmt : BsdtraceFmt) (dopts : PtDecodeOpts)
    (threadId : Int32) (tbuf tlen : Nat) :
    (saving b).Safe s (saveThread ctx ts out fmt dopts threadId tbuf tlen) fun _ s' => s.Extends s' := by
  refine saving_bind fun (fd : Option Fd) hfd => ?_
  cases fd with
  | none => exact .pure (.refl s)
  | some fd =>
      refine (writeBuffer_saving tbuf tlen (hfd fd rfl)).bind ?_
      rintro written _ ⟨bytes, rfl, -⟩
      refine saving_invoke (c := .close fd) trivial fun _ _ => ?_
      cases written with
      | false => exact .pure (s.extends_put _ _)
      | true =>
          refine (saving_of_savesNothing (threadSidecar_savesNothing ctx ts _ threadId)).bind fun _ _ hs => ?_
          subst hs
          have hprint := printThread_all (A := SysCall.savesNothing) (fun _ => trivial) fmt threadId
          refine Protocol.Safe.bind ((saving_of_savesNothing hprint).bind fun _ _ hs => ?_) fun _ _ h => .pure h
          subst hs
          exact saving_perform fun _ _ => (s.extends_put _ _).trans ⟨List.prefix_append .., List.suffix_refl _⟩

theorem snapshotThread_extends (host : Host) (ctx : HwtCtx) (ts : TraceState) (out : CString) (fmt : BsdtraceFmt)
    (dopts : PtDecodeOpts) (thread : HwtThreadCtx) :
    (saving b).Safe s (snapshotThread host ctx ts out fmt dopts thread) fun _ s' => s.Extends s' := by
  refine (saving_of_savesNothing (threadPosition_all (fun _ => trivial) ctx.bufsize thread)).bind fun len _ hs => ?_
  subst hs
  refine (saving_of_savesNothing (mapThread_all (fun _ _ => trivial) ctx.bufsize thread)).bind fun mapped _ hs => ?_
  subst hs
  obtain ⟨_ | tbuf, thread⟩ := mapped
  · exact .pure (.refl _)
  refine saving_invoke (c := .load tbuf ctx.bufsize.toNat) trivial fun bytes _ => ?_
  dsimp only
  split
  · exact .pure (.refl _)
  · exact (saveThread_extends ctx ts out fmt dopts _ tbuf _).bind fun _ _ h => .pure h

/-- The other threads add to what was saved, and their lengths to a length that is given back. -/
theorem snapshotThreads_extends (host : Host) (ctx : HwtCtx) (ts : TraceState) (out : CString) (fmt : BsdtraceFmt)
    (dopts : PtDecodeOpts) (threads : List HwtThreadCtx) (saved : Int) :
    (saving b).Safe s (snapshotThreads host ctx ts out fmt dopts threads saved) fun r s' =>
      s.Extends s' ∧ saved ≤ r.2 ∧ (saved < 0 → r.2 = saved) := by
  induction threads generalizing s saved with
  | nil => exact .pure ⟨.refl s, Int.le_refl _, fun _ => rfl⟩
  | cons thread threads ih =>
      refine (snapshotThread_extends host ctx ts out fmt dopts thread).bind ?_
      rintro ⟨thread', tsaved⟩ s' h
      refine (ih _).bind ?_
      rintro ⟨threads', saved'⟩ s'' ⟨h', hle, heq⟩
      refine .pure ⟨h.trans h', ?_⟩
      dsimp only at hle heq ⊢
      split at hle <;> split at heq <;> omega

theorem snapshotOthers_extends (host : Host) (ctx : HwtCtx) (ts : TraceState) (out : CString) (fmt : BsdtraceFmt)
    (dopts : PtDecodeOpts) (saved : Int) :
    (saving b).Safe s (snapshotOthers host ctx ts out fmt dopts saved) fun r s' =>
      s.Extends s' ∧ saved ≤ r.1 ∧ (saved < 0 → r.1 = saved) := by
  unfold snapshotOthers
  split
  · exact (snapshotThreads_extends host ctx ts out fmt dopts ctx.threads saved).bind fun _ _ h => .pure h
  · exact .pure ⟨.refl s, Int.le_refl _, fun _ => rfl⟩

/-! ## The whole -/

theorem mapped_withBuffer (b : Buffers) (ctx : HwtCtx) : b.mapped (b.withBuffer ctx) = b.mapped ctx := by
  rw [Buffers.mapped, Buffers.withBuffer]
  cases h : b.mapped ctx with
  | some addr => rfl
  | none =>
      rw [Buffers.mapped] at h
      split at h
      · cases h
      · exact h

/-- Mapping the buffer does not change which one it is. -/
theorem traceBuffer_withBuffer (b : Buffers) (ctx : HwtCtx) : b.traceBuffer (b.withBuffer ctx) = b.traceBuffer ctx := by
  rw [Buffers.traceBuffer, Buffers.traceBuffer, mapped_withBuffer]
  rfl

theorem snapshotAndDecode_saving (host : Host) (ctx : HwtCtx) (ts : TraceState) (out : CString) (fmt : BsdtraceFmt)
    (opts : PtDecodeOpts) :
    (saving b).Safe s (Session.snapshotAndDecode host ctx ts out fmt opts) fun r s' => ∃ file,
      s.Snapshots out (Trace.snapshotAndDecode host.probe (b.traceBuffer ctx) file (b.stop ctx) ts) r.1 s' := by
  have hnothing : ∀ saved, s.Snapshots out ⟨⟨saved, none⟩, none⟩ saved s := fun _ =>
    ⟨⟨s, ⟨(List.append_nil _).symm, List.suffix_refl _, nofun⟩, .refl s⟩, Int.le_refl _, fun _ => rfl⟩
  refine (hwtCtxBufptrGet_saving ctx).bind ?_
  rintro stop _ ⟨rfl, rfl⟩
  refine (hwtCtxMapBuffer_saving ctx).bind ?_
  rintro mapped _ ⟨rfl, rfl⟩
  unfold Trace.snapshotAndDecode
  rw [← traceBuffer_withBuffer b ctx]
  obtain ⟨ctx', hctx'⟩ : ∃ ctx', ctx' = b.withBuffer ctx := ⟨_, rfl⟩
  have hbuf : ctx'.traceBuf = b.mapped ctx := by rw [hctx', Buffers.withBuffer]
  have hbufsize : (b.traceBuffer ctx').bufsize = ctx'.bufsize.toNat := rfl
  rw [← hctx', ← hbuf]
  cases haddr : ctx'.traceBuf with
  | none =>
      have hmapped : (b.traceBuffer ctx').mapped = none := by
        rw [Buffers.traceBuffer, hctx', mapped_withBuffer, ← hbuf, haddr]
        rfl
      simp only [hmapped]
      exact .pure ⟨none, hnothing (-1)⟩
  | some addr =>
      simp only [traceBuffer_mapped haddr]
      refine saving_invoke (c := .load addr ctx'.bufsize.toNat) trivial fun bytes hbytes => ?_
      have hbytes' : bytes.val = memBytes b.mem addr ctx'.bufsize.toNat := hbytes
      rw [hbytes', hbufsize]
      generalize chooseSnapshotLen host.probe (memBytes b.mem addr ctx'.bufsize.toNat)
        (knownEnd ctx'.bufsize.toNat (b.stop ctx) ts) ts.sections = len
      by_cases hzero : len = 0
      · simp only [if_pos hzero]
        exact .pure ⟨none, hnothing 0⟩
      simp only [if_neg hzero]
      refine (hwtCtxSnapshotBuffer_saving haddr out (snapshotPage len) (snapshotOffset len)).bind ?_
      rintro ⟨saved, ctx''⟩ s₁ ⟨hctx'', file, hsaved, hsaves⟩
      dsimp only at hctx'' hsaved
      subst ctx'' saved
      refine (decodeSaved_saving ts fmt _ addr _).bind ?_
      rintro _ s₂ rfl
      refine (snapshotOthers_extends host ctx' ts out fmt _ _).mono ?_
      rintro r s₃ ⟨hextends, hle, hfailed⟩
      refine ⟨file, ⟨_, ?_, hextends⟩, hle, hfailed⟩
      have hsaved := (hwtCtxSnapshotBuffer_saved_le (b.traceBuffer ctx') file (snapshotPage len) (snapshotOffset len)).1
      rw [hbufsize] at hsaved
      rw [memBytes_take b.mem addr (Int.toNat_le.mpr hsaved)]
      refine ⟨?_, hsaves.older, hsaves.file⟩
      rw [hsaves.decoded, Option.toList_none, List.append_nil]

end ObservableBSD.Trace.Session
