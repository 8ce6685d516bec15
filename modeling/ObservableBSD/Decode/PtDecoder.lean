import Mathlib.Data.List.Basic
import ObservableBSD.Decode.Symbols

/-!
# The instruction decoder

The part of libipt's instruction decoder that the decode loops see: a trace is what the decoder
delivers behind each of its sync points, and the calls that were made are kept in a log.
-/

namespace ObservableBSD.Decode

/-- `enum pt_error_code`, as far as the loops tell the codes apart. -/
inductive PtError where
  | eos
  | nomap
  | badQuery
  | other (code : Nat)
deriving DecidableEq, Repr

/-- The `int` that the decoder calls return: a negative error, or flags, of which the loops test
`pts_event_pending`. -/
inductive PtStatus where
  | ok (eventPending : Bool)
  | err (e : PtError)
deriving DecidableEq

/-- `struct pt_event`, as far as the loops read it. -/
inductive PtEvent where
  | overflow
  | ptwrite (payload ip : UInt64)
  | other
deriving DecidableEq

/-- `struct pt_insn`, as far as the loops read it. -/
structure PtInsn where
  ip : UInt64
  iclass : PtInsnClass
deriving DecidableEq

structure PtTime where
  tsc : UInt64 := 0
  lostMtc : UInt32 := 0
  lostCyc : UInt32 := 0
deriving DecidableEq

/-- What the decoder delivers next: an event, an instruction, or an error in their place. -/
inductive PtItem where
  | event (ev : PtEvent)
  | eventFault (e : PtError)
  | insn (insn : PtInsn) (time : PtTime)
  | insnFault (e : PtError)
deriving DecidableEq

/-- A sync point: whether syncing to it fails, and what the decoder delivers from it on. Behind the last
item the trace ends. -/
structure PtSegment where
  fault : Option PtError := none
  items : List PtItem := []
deriving DecidableEq

/-- A call of the decoder with its result. -/
inductive PtCall where
  | sync (r : Option PtError)
  | event (r : Except PtError PtEvent)
  | next (r : Except PtError (PtInsn × PtTime))

/-- `struct pt_insn_decoder`. `calls` is the log of the calls made. -/
structure PtDecoder where
  items : List PtItem := []
  rest : List PtSegment := []
  time : PtTime := {}
  calls : List PtCall := []

def eventPending : List PtItem → Bool
  | .event _ :: _ | .eventFault _ :: _ => true
  | _ => false

/-- `pt_insn_alloc_decoder` on a trace. -/
def ptInsnAllocDecoder (trace : List PtSegment) : PtDecoder := { rest := trace }

def ptInsnSyncForward (d : PtDecoder) : PtStatus × PtDecoder :=
  match d.rest with
  | [] => (.err .eos, { d with calls := d.calls ++ [.sync (some .eos)] })
  | seg :: rest => match seg.fault with
      | some e => (.err e, { d with rest, calls := d.calls ++ [.sync (some e)] })
      | none =>
          (.ok (eventPending seg.items),
            { d with items := seg.items, rest, calls := d.calls ++ [.sync none] })

def ptInsnEvent (d : PtDecoder) : PtStatus × Option PtEvent × PtDecoder :=
  match d.items with
  | .event ev :: items =>
      (.ok (eventPending items), some ev, { d with items, calls := d.calls ++ [.event (.ok ev)] })
  | .eventFault e :: _ => (.err e, none, { d with calls := d.calls ++ [.event (.error e)] })
  | _ => (.err .badQuery, none, { d with calls := d.calls ++ [.event (.error .badQuery)] })

def ptInsnNext (d : PtDecoder) : PtStatus × Option PtInsn × PtDecoder :=
  match d.items with
  | .insn insn time :: items =>
      (.ok (eventPending items), some insn,
        { d with items, time, calls := d.calls ++ [.next (.ok (insn, time))] })
  | .insnFault e :: _ => (.err e, none, { d with calls := d.calls ++ [.next (.error e)] })
  | [] => (.err .eos, none, { d with calls := d.calls ++ [.next (.error .eos)] })
  | _ => (.err .badQuery, none, { d with calls := d.calls ++ [.next (.error .badQuery)] })

def ptInsnTime (d : PtDecoder) : PtTime := d.time

/-! ## Progress -/

def PtDecoder.size (d : PtDecoder) : Nat :=
  d.items.length + d.rest.foldr (fun seg n => seg.items.length + 1 + n) 0

/-- What is left of the trace, when the loops go on. -/
def PtStatus.left (s : PtStatus) (d : PtDecoder) : Nat :=
  match s with
  | .ok _ => 2 * d.size + 1
  | .err _ => 2 * d.size

theorem ptInsnSyncForward_left (d : PtDecoder) :
    (ptInsnSyncForward d).1.left (ptInsnSyncForward d).2 < 2 * d.size + 1 := by
  unfold ptInsnSyncForward
  cases hr : d.rest with
  | nil => simp [PtStatus.left, PtDecoder.size, hr]
  | cons seg rest =>
      cases hf : seg.fault with
      | none =>
          simp only [hf, PtStatus.left, PtDecoder.size, hr, List.foldr_cons]
          omega
      | some e =>
          simp only [hf, PtStatus.left, PtDecoder.size, hr, List.foldr_cons]
          omega

theorem ptInsnEvent_left (d : PtDecoder) :
    (ptInsnEvent d).1.left (ptInsnEvent d).2.2 < 2 * d.size + 1 := by
  unfold ptInsnEvent
  split
  · rename_i ev items hi
    simp [PtStatus.left, PtDecoder.size, hi]
  all_goals simp [PtStatus.left, PtDecoder.size]

theorem ptInsnNext_left (d : PtDecoder) :
    (ptInsnNext d).1.left (ptInsnNext d).2.2 < 2 * d.size + 1 := by
  unfold ptInsnNext
  split
  · rename_i insn time items hi
    simp [PtStatus.left, PtDecoder.size, hi]
  all_goals simp [PtStatus.left, PtDecoder.size]

/-! ## The decode loop -/

/-- What a decode loop does with an event, with an instruction and with an error of `pt_insn_next`. -/
structure LoopBody (σ : Type*) where
  onEvent : σ → PtEvent → σ
  onInsn : σ → PtInsn → PtTime → σ
  onError : σ → PtError → σ

variable {σ : Type*}

/-- Nothing is done when the call filled in no event. -/
def LoopBody.afterEvent (body : LoopBody σ) (acc : σ) : Option PtEvent → σ
  | some ev => body.onEvent acc ev
  | none => acc

/-- Nothing is done when the call filled in no instruction. -/
def LoopBody.afterInsn (body : LoopBody σ) (acc : σ) (time : PtTime) : Option PtInsn → σ
  | some insn => body.onInsn acc insn time
  | none => acc

/-- The inner loop, `while (status & pts_event_pending)`. An error ends it too. -/
def drainEvents (body : LoopBody σ) (status : PtStatus) (d : PtDecoder) (acc : σ) :
    PtStatus × PtDecoder × σ :=
  match status with
  | .err e => (.err e, d, acc)
  | .ok false => (.ok false, d, acc)
  | .ok true =>
      let r := ptInsnEvent d
      drainEvents body r.1 r.2.2 (body.afterEvent acc r.2.1)
termination_by status.left d
decreasing_by exact ptInsnEvent_left d

theorem drainEvents_left (body : LoopBody σ) (status : PtStatus) (d : PtDecoder) (acc : σ) :
    (drainEvents body status d acc).1.left (drainEvents body status d acc).2.1 ≤ status.left d := by
  fun_induction drainEvents body status d acc with
  | case1 d acc e => exact Nat.le_refl _
  | case2 d acc => exact Nat.le_refl _
  | case3 d acc r ih => exact Nat.le_trans ih (Nat.le_of_lt (ptInsnEvent_left d))

/-- `pt_insn_next` and what follows it in the outer loop. The `break` leaves with a negative status. -/
def decodeNext (body : LoopBody σ) (d : PtDecoder) (acc : σ) : PtStatus × PtDecoder × σ :=
  let r := ptInsnNext d
  match r.1 with
  | .err .eos => (.err .eos, r.2.2, acc)
  | .err e =>
      let s := ptInsnSyncForward r.2.2
      (s.1, s.2, body.onError acc e)
  | .ok pending => (.ok pending, r.2.2, body.afterInsn acc (ptInsnTime r.2.2) r.2.1)

def decodeRound (body : LoopBody σ) (pending : Bool) (d : PtDecoder) (acc : σ) :
    PtStatus × PtDecoder × σ :=
  let drained := drainEvents body (.ok pending) d acc
  match drained.1 with
  | .err _ => drained
  | .ok _ => decodeNext body drained.2.1 drained.2.2

theorem decodeNext_left (body : LoopBody σ) (d : PtDecoder) (acc : σ) :
    (decodeNext body d acc).1.left (decodeNext body d acc).2.1 < 2 * d.size + 1 := by
  have hnext := ptInsnNext_left d
  unfold decodeNext
  cases hs : (ptInsnNext d).1 with
  | ok pending => simpa [hs] using hnext
  | err e =>
      rw [hs] at hnext
      have hle : 2 * (ptInsnNext d).2.2.size + 1 ≤ 2 * d.size + 1 := hnext
      have hsync := Nat.lt_of_lt_of_le (ptInsnSyncForward_left (ptInsnNext d).2.2) hle
      cases e with
      | eos => simpa [hs] using hnext
      | _ => simpa [hs] using hsync

theorem decodeRound_left (body : LoopBody σ) (pending : Bool) (d : PtDecoder) (acc : σ) :
    (decodeRound body pending d acc).1.left (decodeRound body pending d acc).2.1 < 2 * d.size + 1 := by
  have hdrain := drainEvents_left body (.ok pending) d acc
  unfold decodeRound
  cases hs : (drainEvents body (.ok pending) d acc).1 with
  | ok more =>
      rw [hs] at hdrain
      have hnext := decodeNext_left body (drainEvents body (.ok pending) d acc).2.1
        (drainEvents body (.ok pending) d acc).2.2
      have hle : (decodeNext body _ _).1.left (decodeNext body _ _).2.1 < 2 * d.size + 1 :=
        Nat.lt_of_lt_of_le hnext hdrain
      simpa [hs] using hle
  | err e =>
      rw [hs] at hdrain
      have hle : 2 * (drainEvents body (.ok pending) d acc).2.1.size ≤ 2 * d.size + 1 := hdrain
      simp only [hs, PtStatus.left]
      omega

/-- The outer loop, `while (status >= 0)`. -/
def decodeLoop (body : LoopBody σ) (status : PtStatus) (d : PtDecoder) (acc : σ) : PtDecoder × σ :=
  match status with
  | .err _ => (d, acc)
  | .ok pending =>
      let r := decodeRound body pending d acc
      decodeLoop body r.1 r.2.1 r.2.2
termination_by status.left d
decreasing_by exact decodeRound_left body pending d acc

def decodeTrace (body : LoopBody σ) (trace : List PtSegment) (acc : σ) : PtDecoder × σ :=
  let s := ptInsnSyncForward (ptInsnAllocDecoder trace)
  decodeLoop body s.1 s.2 acc

end ObservableBSD.Decode
