import ObservableBSD.Trace.Lemmas.Disk
import ObservableBSD.Trace.Relay

/-!
# Sessions hand on their records

What each function does to what is still to be handed on. Most do nothing to it.
-/

namespace ObservableBSD.Trace.Session

open Base Decode Elf

variable {α : Type} {fmt : BsdtraceFmt} {r : Relay} {post : α → Relay → Prop} {file : Option Nat}

/-! ## Rules -/

theorem relay_bind {c : SysCall} {f : c.Answer → Prog sys α} (hallows : r.Allows c)
    (h : ∀ ans, r.Answers c ans → (relay fmt).Safe (r.next fmt c ans) (f ans) post) :
    (relay fmt).Safe r (invoke c >>= f) post :=
  Protocol.Safe.call (P := relay fmt) (c := c) hallows h

/-- A call that has nothing to do with the records or with files of the standard I/O library. -/
def SysCall.aside : SysCall → Prop
  | .stop _ | .recordGet .. | .print .. | .fopen _ | .fprintf .. => False
  | _ => True

theorem relay_of_aside {p : Prog sys α} (h : p.All SysCall.aside) : (relay fmt).Safe r p fun _ r' => r' = r := by
  refine Protocol.Safe.of_all (P := relay fmt) (fun c hc => ?_) h
  cases c with
  | stop | recordGet | print | fopen | fprintf => exact hc.elim
  | _ => exact ⟨trivial, fun _ => rfl⟩

theorem aside_of_calm {c : SysCall} (h : c.calm) : c.aside := by
  cases c with
  | stop | recordGet | print | fopen | fprintf => exact h.elim
  | _ => trivial

theorem relay_of_calm {p : Prog sys α} (h : p.All SysCall.calm) : (relay fmt).Safe r p fun _ r' => r' = r :=
  relay_of_aside (h.imp fun _ => aside_of_calm)

theorem relay_of_quiet {p : Prog sys α} (h : p.All SysCall.quiet) : (relay fmt).Safe r p fun _ r' => r' = r :=
  relay_of_calm (h.imp fun _ => calm_of_quiet)

/-! ## What waits -/

@[simp] theorem toPrint_nil (fmt : BsdtraceFmt) (stopped : Bool) : toPrint fmt stopped [] = [] := ite_self _

@[simp] theorem toWrite_nil (file : Option Nat) : toWrite file [] = [] := ite_self _

theorem toWrite_cons (file : Option Nat) (rec : BsdtraceRecord) (recs : List BsdtraceRecord) :
    toWrite file (rec :: recs) = toWrite file [rec] ++ toWrite file recs := by
  unfold toWrite
  split <;> simp

/-- These records are still to be handed on, and their sidecar is `file`. -/
structure Relay.Owes (fmt : BsdtraceFmt) (file : Option Nat) (recs : List BsdtraceRecord) (r : Relay) : Prop where
  sidecar : r.sidecar = some file
  polled : recs ≠ [] → r.polled = true
  printing : r.printing = toPrint fmt r.stopped recs
  writing : r.writing = toWrite file recs

theorem Relay.Owes.idle (h : r.Owes fmt file []) : r.Idle where
  printing := by rw [h.printing, toPrint_nil]
  writing := by rw [h.writing, toWrite_nil]

/-! ## The sidecar -/

/-- The lines that wait are written. -/
theorem metaWrite_relay {lines rest : List CString} (hsidecar : r.sidecar = some file) (hpolled : r.polled = true)
    (hwriting : r.writing = (if file.isSome then lines else []) ++ rest) :
    (relay fmt).Safe r (metaWrite file lines) fun _ r' => r' = { r with writing := rest } := by
  cases file with
  | none =>
      have hsame : r = { r with writing := rest } := by rw [← show r.writing = rest from hwriting]
      rw [← hsame]
      refine relay_of_aside ?_
      induction lines with
      | nil => trivial
      | cons line lines ih => exact ih hwriting
  | some f =>
      induction lines generalizing r with
      | nil =>
          have hsame : r = { r with writing := rest } := by rw [← show r.writing = rest from hwriting]
          exact .pure hsame
      | cons line lines ih =>
          have hhead : r.writing = line :: (lines ++ rest) := hwriting
          refine relay_bind (fun _ _ => by rw [hhead]; rfl) fun _ _ => ?_
          have hnext : r.next fmt (.fprintf f line) () = { r with writing := lines ++ rest } := by
            simp only [Relay.next, hsidecar, hpolled, hhead, and_self, if_true, List.tail_cons]
          rw [hnext]
          exact ih (r := { r with writing := lines ++ rest }) hpolled hsidecar rfl

/-- Lines that are written to another file, or in front of the first poll. -/
theorem metaWrite_kept {tfile : Option Nat} (lines : List CString)
    (h : ∀ f, tfile = some f → r.sidecar = some (some f) → r.polled = false) :
    (relay fmt).Safe r (metaWrite tfile lines) fun _ r' => r' = r := by
  induction lines with
  | nil => exact .pure rfl
  | cons line lines ih =>
      cases tfile with
      | none => exact ih
      | some f =>
          have hnot : ¬(r.sidecar = some (some f) ∧ r.polled = true) := fun hboth =>
            Bool.false_ne_true ((h f rfl hboth.1).symm.trans hboth.2)
          refine relay_bind (fun hsidecar hpolled => absurd ⟨hsidecar, hpolled⟩ hnot) fun _ _ => ?_
          have hnext : r.next fmt (.fprintf f line) () = r := if_neg hnot
          rw [hnext]
          exact ih

theorem openSidecar_relay (ctx : HwtCtx) (ptOutput : CString) (pid tid : Int32) (hsidecar : r.sidecar = none)
    (hpolled : r.polled = false) (hidle : r.Idle) :
    (relay fmt).Safe r (openSidecar ctx ptOutput pid tid) fun out r' =>
      r'.Owes fmt out.1 [] ∧ r'.stopped = r.stopped ∧ r'.polled = false := by
  refine relay_bind trivial fun (file : Option Nat) _ => ?_
  have hnext : r.next fmt (.fopen (deriveMetaPath ptOutput)) file = { r with sidecar := some file } := by
    simp only [Relay.next, hsidecar, Option.getD_none]
  rw [hnext]
  have hkept : ∀ lines, (relay fmt).Safe { r with sidecar := some file } (metaWrite file lines)
      fun _ r' => r' = { r with sidecar := some file } := fun lines => metaWrite_kept lines fun _ _ _ => hpolled
  refine (hkept _).bind fun _ _ hr => ?_
  subst hr
  refine (hkept _).bind fun _ _ hr => .pure ?_
  subst hr
  refine ⟨⟨rfl, by simp, ?_, ?_⟩, rfl, hpolled⟩
  · rw [toPrint_nil]
    exact hidle.printing
  · rw [toWrite_nil]
    exact hidle.writing

/-! ## Records -/

theorem traceStateProcess_relay {rec : BsdtraceRecord} {recs : List BsdtraceRecord} (ts : TraceState)
    (hsidecar : r.sidecar = some file) (hpolled : r.polled = true) (hwriting : r.writing = toWrite file (rec :: recs)) :
    (relay fmt).Safe r (Session.traceStateProcess file ts rec) fun _ r' =>
      r' = { r with writing := toWrite file recs } := by
  have hlines : r.writing = (if file.isSome then metaWriterRecord rec else []) ++ toWrite file recs := by
    rw [hwriting, toWrite_cons, toWrite, List.flatMap_singleton]
  exact (metaWrite_relay hsidecar hpolled hlines).bind fun _ _ hr => .pure hr

theorem processRecords_relay {recs : List BsdtraceRecord} (ts : TraceState) (h : r.Owes fmt file recs)
    (hstopped : r.stopped = true) :
    (relay fmt).Safe r (processRecords file ts recs) fun _ r' => r'.Owes fmt file [] ∧ r'.stopped = true := by
  have hnone : ∀ recs, toPrint fmt true recs = [] := fun recs => if_neg (by simp)
  induction recs generalizing r ts with
  | nil => exact .pure ⟨h, hstopped⟩
  | cons rec recs ih =>
      unfold processRecords
      rw [List.foldlM_cons]
      refine (traceStateProcess_relay ts h.sidecar (h.polled (List.cons_ne_nil _ _)) h.writing).bind ?_
      rintro ts' _ rfl
      refine ih ts' ⟨h.sidecar, fun _ => h.polled (List.cons_ne_nil _ _), ?_, rfl⟩ hstopped
      rw [h.printing, hstopped, hnone, hnone]

theorem printRecord_relay {rec : BsdtraceRecord} {recs : List BsdtraceRecord}
    (hprinting : r.printing = toPrint fmt false (rec :: recs)) :
    (relay fmt).Safe r (printRecord fmt rec) fun _ r' => r' = { r with printing := toPrint fmt false recs } := by
  unfold printRecord
  split
  · rename_i hfmt
    have hprints : ∀ recs, toPrint fmt false recs = recs := fun recs =>
      if_pos (by rw [printsRecords, decide_eq_true hfmt]; rfl)
    rw [hprints] at hprinting ⊢
    refine Protocol.Safe.perform (P := relay fmt) (c := .print rec fmt) (by
      show r.printing.head? = some rec
      rw [hprinting]
      rfl) fun _ _ => ?_
    show { r with printing := r.printing.tail } = _
    rw [hprinting, List.tail_cons]
  · rename_i hfmt
    have hprints : ∀ recs, toPrint fmt false recs = [] := fun recs =>
      if_neg (by rw [printsRecords, decide_eq_false hfmt]; simp)
    rw [hprints] at hprinting ⊢
    exact .pure (by rw [← hprinting])

theorem emitAndProcess_relay {rec : BsdtraceRecord} {recs : List BsdtraceRecord} (pauseOnMmap : Bool)
    (st : HwtCtx × TraceState) (h : r.Owes fmt file (rec :: recs)) (hstopped : r.stopped = false) :
    (relay fmt).Safe r (Session.emitAndProcess file fmt pauseOnMmap st rec) fun _ r' =>
      r'.Owes fmt file recs ∧ r'.stopped = false := by
  have hprinting := h.printing
  rw [hstopped] at hprinting
  refine (printRecord_relay hprinting).bind fun _ _ hr => ?_
  subst hr
  refine (relay_of_calm (wakeTarget_all (fun _ => trivial) st.1 pauseOnMmap rec)).bind fun _ _ hr => ?_
  subst hr
  refine (relay_of_calm (openWanted_all (fun _ => trivial) st.1 rec)).bind fun ctx _ hr => ?_
  subst hr
  have hpolled := h.polled (List.cons_ne_nil _ _)
  refine (traceStateProcess_relay (r := { r with printing := toPrint fmt false recs }) st.2 h.sidecar hpolled
    h.writing).bind fun ts _ hr => .pure ?_
  subst hr
  exact ⟨⟨h.sidecar, fun _ => hpolled, by rw [hstopped], rfl⟩, hstopped⟩

theorem emitRecords_relay {recs : List BsdtraceRecord} (pauseOnMmap : Bool) (st : HwtCtx × TraceState)
    (h : r.Owes fmt file recs) (hstopped : r.stopped = false) :
    (relay fmt).Safe r (emitRecords file fmt pauseOnMmap st recs) fun _ r' =>
      r'.Owes fmt file [] ∧ r'.stopped = false := by
  induction recs generalizing r st with
  | nil => exact .pure ⟨h, hstopped⟩
  | cons rec recs ih =>
      unfold emitRecords
      rw [List.foldlM_cons]
      exact (emitAndProcess_relay pauseOnMmap st h hstopped).bind fun st' _ h' => ih st' h'.1 h'.2

/-- The records of a poll wait; without a device there are none. -/
theorem hwtCtxPollRecords_relay (ctx : HwtCtx) (maxrecords : Nat) (h : r.Owes fmt file []) :
    (relay fmt).Safe r (Session.hwtCtxPollRecords ctx maxrecords) fun polled r' =>
      r'.Owes fmt file (polled.getD []) ∧ r'.stopped = r.stopped ∧ (ctx.ctxFd = none → polled = none) := by
  unfold Session.hwtCtxPollRecords onDevice
  cases hfd : ctx.ctxFd with
  | none => exact .pure ⟨h, rfl, fun _ => rfl⟩
  | some fd =>
      refine relay_bind ⟨by rw [h.sidecar]; rfl, h.idle.printing, h.idle.writing⟩ fun ans _ => .pure ?_
      have hrecs : (Option.map (List.map recordOfEntry) ans).getD [] = polledRecords ans := by cases ans <;> rfl
      refine ⟨?_, rfl, by simp⟩
      rw [hrecs]
      exact ⟨h.sidecar, fun _ => rfl, rfl, by simp only [Relay.next, h.sidecar, Option.join_some]⟩

end ObservableBSD.Trace.Session
