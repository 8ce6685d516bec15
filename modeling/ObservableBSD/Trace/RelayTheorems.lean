import ObservableBSD.Trace.Lemmas.RelaySession
import ObservableBSD.Trace.SessionTheorems

/-!
# Results about the records of a session
-/

namespace ObservableBSD.Trace.Session

open Base Decode Elf

variable {fmt : BsdtraceFmt} {r : Relay}

/-! ## What is printed -/

theorem toPrint_append (fmt : BsdtraceFmt) (stopped : Bool) (recs recs' : List BsdtraceRecord) :
    toPrint fmt stopped (recs ++ recs') = toPrint fmt stopped recs ++ toPrint fmt stopped recs' := by
  unfold toPrint
  split
  · rfl
  · rfl

theorem toPrint_stopped (fmt : BsdtraceFmt) (recs : List BsdtraceRecord) : toPrint fmt true recs = [] :=
  if_neg (by simp)

/-- What is to be printed of some calls, behind a stop or not. -/
def shownFrom (fmt : BsdtraceFmt) (stopped : Bool) (events : List SysEvent) : List BsdtraceRecord :=
  toPrint fmt stopped ((events.takeWhile fun e => !e.call.stops).flatMap handedOver)

theorem shownFrom_false (fmt : BsdtraceFmt) (events : List SysEvent) :
    shownFrom fmt false events = shownRecords fmt events := by
  rw [shownFrom, toPrint, Bool.not_false, Bool.and_true]
  rfl

theorem shownFrom_cons (fmt : BsdtraceFmt) (stopped : Bool) (e : SysEvent) (events : List SysEvent) :
    shownFrom fmt stopped (e :: events) =
      toPrint fmt stopped (handedOver e) ++ shownFrom fmt (stopped || e.call.stops) events := by
  unfold shownFrom
  cases hstops : e.call.stops with
  | false =>
      rw [List.takeWhile_cons_of_pos (by rw [hstops]; rfl), List.flatMap_cons, toPrint_append, Bool.or_false]
  | true =>
      have hnone : handedOver e = [] := by
        obtain ⟨c, ans⟩ := e
        cases c with
        | stop => rfl
        | _ => cases hstops
      rw [List.takeWhile_cons_of_neg (by rw [hstops]; decide), hnone, Bool.or_true, toPrint_stopped, List.append_nil]
      rfl

theorem printedRecords_cons (e : SysEvent) (events : List SysEvent) :
    printedRecords (e :: events) = printedRecords [e] ++ printedRecords events :=
  List.filterMap_append (l := [e])

theorem next_stopped (e : SysEvent) : (r.next fmt e.call e.answer).stopped = (r.stopped || e.call.stops) := by
  obtain ⟨c, ans⟩ := e
  cases c with
  | stop => exact (Bool.or_true _).symm
  | fprintf file line =>
      rw [show SysCall.stops (.fprintf file line) = false from rfl, Bool.or_false, Relay.next]
      split <;> rfl
  | _ => exact (Bool.or_false _).symm

/-- What a call prints was waiting, and what it hands over waits behind it. -/
theorem next_printing (e : SysEvent) (h : r.Allows e.call) :
    printedRecords [e] ++ (r.next fmt e.call e.answer).printing =
      r.printing ++ toPrint fmt r.stopped (handedOver e) := by
  obtain ⟨c, ans⟩ := e
  cases c with
  | recordGet fd n => rw [h.2.1]; rfl
  | print rec fmt' =>
      obtain ⟨rest, hprinting⟩ := List.head?_eq_some_iff.mp h
      show rec :: r.printing.tail = r.printing ++ toPrint fmt r.stopped []
      rw [hprinting, toPrint_nil, List.append_nil, List.tail_cons]
  | fprintf file line =>
      show (r.next fmt (.fprintf file line) ans).printing = r.printing ++ toPrint fmt r.stopped []
      rw [toPrint_nil, List.append_nil, Relay.next]
      split <;> rfl
  | _ => exact (by rw [toPrint_nil, List.append_nil] : r.printing = r.printing ++ toPrint fmt r.stopped [])

theorem printed_append_waiting (events : List SysEvent) (h : (relay fmt).Obeyed r events) :
    printedRecords events ++ ((relay fmt).after r events).printing = r.printing ++ shownFrom fmt r.stopped events := by
  induction events generalizing r with
  | nil => exact (by rw [shownFrom]; simp [Protocol.after, printedRecords])
  | cons e events ih =>
      have hrest := ih h.2
      have hstep : printedRecords [e] ++ (r.next fmt e.call e.answer).printing = _ := next_printing e h.1
      calc printedRecords (e :: events) ++ ((relay fmt).after r (e :: events)).printing
        _ = printedRecords [e] ++ (printedRecords events ++
            ((relay fmt).after (r.next fmt e.call e.answer) events).printing) := by
              rw [printedRecords_cons, List.append_assoc]
              rfl
        _ = r.printing ++ toPrint fmt r.stopped (handedOver e) ++
            shownFrom fmt (r.next fmt e.call e.answer).stopped events := by
              rw [hrest, ← List.append_assoc, hstep]
        _ = r.printing ++ shownFrom fmt r.stopped (e :: events) := by
              rw [shownFrom_cons, next_stopped, List.append_assoc]

/-! ## What is written -/

theorem next_sidecar (e : SysEvent) (file : Option Nat) (h : r.sidecar = some file) :
    (r.next fmt e.call e.answer).sidecar = some file := by
  obtain ⟨c, ans⟩ := e
  cases c with
  | fopen path =>
      show some (r.sidecar.getD ans) = some file
      rw [h, Option.getD_some]
  | fprintf f line =>
      show (r.next fmt (.fprintf f line) ans).sidecar = some file
      rw [Relay.next]
      split <;> exact h
  | _ => exact h

theorem after_sidecar (events : List SysEvent) (file : Option Nat) (h : r.sidecar = some file) :
    ((relay fmt).after r events).sidecar = some file := by
  induction events generalizing r with
  | nil => exact h
  | cons e events ih => exact ih (next_sidecar e file h)

/-- Up to the first `fopen` there is no sidecar. -/
theorem after_no_sidecar (events : List SysEvent) (h : r.sidecar = none)
    (hnone : ∀ e ∈ events, e.call.isFopen = false) : ((relay fmt).after r events).sidecar = none := by
  induction events generalizing r with
  | nil => exact h
  | cons e events ih =>
      obtain ⟨hfopen, hrest⟩ := List.forall_mem_cons.mp hnone
      refine ih ?_ hrest
      obtain ⟨c, ans⟩ := e
      cases c with
      | fopen path => cases hfopen
      | fprintf f line =>
          show (r.next fmt (.fprintf f line) ans).sidecar = none
          rw [Relay.next]
          split <;> exact h
      | _ => exact h

theorem writtenLines_cons (file : Nat) (e : SysEvent) (events : List SysEvent) :
    writtenLines file (e :: events) = writtenLines file [e] ++ writtenLines file events :=
  List.filterMap_append (l := [e])

theorem next_polled (e : SysEvent) (h : r.polled = true) : (r.next fmt e.call e.answer).polled = true := by
  obtain ⟨c, ans⟩ := e
  cases c with
  | recordGet fd n => rfl
  | fprintf f line =>
      show (r.next fmt (.fprintf f line) ans).polled = true
      rw [Relay.next]
      split <;> exact h
  | _ => exact h

/-- What a call writes to the sidecar was waiting, and the lines of what it hands over wait behind it. -/
theorem next_writing {file : Nat} (e : SysEvent) (h : r.Allows e.call) (hsidecar : r.sidecar = some (some file))
    (hpolled : r.polled = true) :
    writtenLines file [e] ++ (r.next fmt e.call e.answer).writing =
      r.writing ++ (handedOver e).flatMap metaWriterRecord := by
  obtain ⟨c, ans⟩ := e
  cases c with
  | recordGet fd n =>
      show toWrite r.sidecar.join (polledRecords ans) = r.writing ++ (polledRecords ans).flatMap metaWriterRecord
      rw [h.2.2, hsidecar]
      rfl
  | fprintf f line =>
      show writtenLines file [⟨.fprintf f line, ans⟩] ++ (r.next fmt (.fprintf f line) ans).writing = r.writing ++ []
      by_cases hf : f = file
      · subst hf
        obtain ⟨rest, hwriting⟩ := List.head?_eq_some_iff.mp (h hsidecar hpolled)
        rw [Relay.next, if_pos ⟨hsidecar, hpolled⟩, List.append_nil]
        simp [writtenLines, hwriting]
      · have hother : ¬(r.sidecar = some (some f) ∧ r.polled = true) := by
          rw [hsidecar]
          exact fun hboth => hf (Option.some.inj (Option.some.inj hboth.1)).symm
        rw [Relay.next, if_neg hother, List.append_nil]
        simp [writtenLines, hf]
  | _ => exact (List.append_nil r.writing).symm

theorem written_append_waiting {file : Nat} (events : List SysEvent) (h : (relay fmt).Obeyed r events)
    (hsidecar : r.sidecar = some (some file)) (hpolled : r.polled = true) :
    writtenLines file events ++ ((relay fmt).after r events).writing =
      r.writing ++ (events.flatMap handedOver).flatMap metaWriterRecord := by
  induction events generalizing r with
  | nil => exact (List.append_nil r.writing).symm
  | cons e events ih =>
      have hrest := ih h.2 (next_sidecar e _ hsidecar) (next_polled e hpolled)
      have hstep : writtenLines file [e] ++ (r.next fmt e.call e.answer).writing = _ :=
        next_writing e h.1 hsidecar hpolled
      calc writtenLines file (e :: events) ++ ((relay fmt).after r (e :: events)).writing
        _ = writtenLines file [e] ++ (writtenLines file events ++
            ((relay fmt).after (r.next fmt e.call e.answer) events).writing) := by
              rw [writtenLines_cons, List.append_assoc]
              rfl
        _ = r.writing ++ (handedOver e).flatMap metaWriterRecord ++
            (events.flatMap handedOver).flatMap metaWriterRecord := by
              rw [hrest, ← List.append_assoc, hstep]
        _ = r.writing ++ ((e :: events).flatMap handedOver).flatMap metaWriterRecord := by
              rw [List.flatMap_cons, List.flatMap_append, List.append_assoc]

/-! ## Sessions -/

theorem upTo_of_append {α : Type} {returned : Bool} {xs waiting ys : List α} (h : xs ++ waiting = ys)
    (hdone : returned = true → waiting = []) : UpTo returned xs ys where
  isPrefix := ⟨waiting, h⟩
  whole := fun hreturned => by rw [← h, hdone hreturned, List.append_nil]

theorem relaysRecords_of_obeyed {returned : Bool} {events : List SysEvent} (h : (relay fmt).Obeyed {} events)
    (hidle : returned = true → ((relay fmt).after {} events).Idle) : RelaysRecords fmt returned events where
  printed := by
    have hall := printed_append_waiting events h
    rw [shownFrom_false] at hall
    exact upTo_of_append hall fun hreturned => (hidle hreturned).printing
  written := by
    rintro front path file mid fd n ans back rfl hfirst hmid
    have hsplit : front ++ ⟨.fopen path, some file⟩ :: (mid ++ ⟨.recordGet fd n, ans⟩ :: back) =
        (front ++ ⟨.fopen path, some file⟩ :: mid) ++ ⟨.recordGet fd n, ans⟩ :: back := by simp
    rw [hsplit] at h hidle
    have hnone : ((relay fmt).after {} front).sidecar = none := after_no_sidecar front rfl hfirst
    have hopen : (Relay.next fmt ((relay fmt).after {} front) (.fopen path) (some file)).sidecar =
        some (some file) := by
      show some (((relay fmt).after {} front).sidecar.getD (some file)) = some (some file)
      rw [hnone, Option.getD_none]
    obtain ⟨-, hpoll, hback⟩ := Protocol.obeyed_append.mp h
    rw [Protocol.after_append] at hidle
    have hsidecar : ((relay fmt).after {} (front ++ ⟨.fopen path, some file⟩ :: mid)).sidecar = some (some file) := by
      rw [Protocol.after_append]
      exact after_sidecar mid _ hopen
    have hwritten := written_append_waiting back hback (next_sidecar _ _ hsidecar) rfl
    refine upTo_of_append (hwritten.trans ?_) fun hreturned => (hidle hreturned).writing
    rw [List.flatMap_cons, List.flatMap_append]
    congr 1
    show toWrite ((relay fmt).after {} (front ++ ⟨.fopen path, some file⟩ :: mid)).sidecar.join _ = _
    rw [hsidecar]
    rfl

/-- Every run of a session hands on its records, up to the point where it is cut off. -/
def HandsOn (fmt : BsdtraceFmt) (p : Prog sys Int) : Prop :=
  ∀ events out, p.Runs events out → (relay fmt).Answered {} events → RelaysRecords fmt out.isSome events

theorem handsOn_of_safe {p : Prog sys Int} (h : (relay fmt).Safe {} p fun _ r => r.Idle) : HandsOn fmt p := by
  intro events out hruns hanswered
  obtain ⟨hobeyed, hidle⟩ := h hruns hanswered
  refine relaysRecords_of_obeyed hobeyed fun hreturned => ?_
  obtain ⟨code, rfl⟩ := Option.isSome_iff_exists.mp hreturned
  exact hidle code rfl

/-- Whatever the kernel answers, both commands hand on the records that they get. -/
theorem sessions_handOn (host : Host) (opts : SessionOpts) :
    (∀ pid, HandsOn opts.fmt (cmdTrace host opts pid)) ∧
      ∀ noAslr name args, HandsOn opts.fmt (cmdExec host opts noAslr name args) :=
  have hfresh : Relay.Fresh {} := ⟨rfl, rfl, rfl, ⟨rfl, rfl⟩⟩
  ⟨fun pid => handsOn_of_safe (cmdTrace_relay host opts pid hfresh), fun noAslr name args =>
    handsOn_of_safe (cmdExec_relay host opts noAslr name args hfresh)⟩

/-- A kernel with records in its first calls. -/
def talkingKernel (n : Nat) : (c : SysCall) → c.Answer × Nat
  | .recordGet .. => (some (if n < 25 then [{ type := .munmap, addr := 4096 }] else []), n + 1)
  | c => quietKernel n c

/-- The session prints them, and returns. -/
example : ∃ events, (cmdExec bareHost {} false (cstr "true") []).Runs events (some 3) ∧
    (printedRecords events).length = 2 := by
  have hplay := Prog.play_runs (I := sys) talkingKernel 400 (cmdExec bareHost {} false (cstr "true") []) 0
  have hcode : (Prog.play (I := sys) talkingKernel 400 (cmdExec bareHost {} false (cstr "true") []) 0).2.1 =
      some 3 := by decide +kernel
  have hprinted : (printedRecords
      (Prog.play (I := sys) talkingKernel 400 (cmdExec bareHost {} false (cstr "true") []) 0).1).length = 2 := by
    decide +kernel
  exact ⟨_, hcode ▸ hplay, hprinted⟩

end ObservableBSD.Trace.Session
