import Mathlib.Data.List.Induction
import ObservableBSD.Decode.PtDecoder

/-!
# The calls of the decode loop

The calls that a decode loop makes are a function of the trace and of the errors it resyncs after. What
the loop accumulates is read off these calls.
-/

namespace ObservableBSD.Decode

variable {σ : Type*}

/-! ## The calls made -/

def PtItem.call : PtItem → PtCall
  | .event ev => .event (.ok ev)
  | .eventFault e => .event (.error e)
  | .insn i time => .next (.ok (i, time))
  | .insnFault e => .next (.error e)

/-- The calls that deliver the items up to the first error, and after an error to resync after, the
calls `resumed`. -/
def callsFrom (resyncs : PtItem → Bool) (resumed : List PtCall) : List PtItem → List PtCall
  | [] => [.next (.error .eos)]
  | it :: items => match it with
      | .event _ | .insn _ _ => it.call :: callsFrom resyncs resumed items
      | .eventFault _ | .insnFault _ => it.call :: if resyncs it then resumed else []

def callsOf (resyncs : PtItem → Bool) : List PtSegment → List PtCall
  | [] => [.sync (some .eos)]
  | seg :: rest => match seg.fault with
      | some e => [.sync (some e)]
      | none => .sync none :: callsFrom resyncs (callsOf resyncs rest) seg.items

/-- Resync after every error but the end of the stream. -/
def PtItem.isError : PtItem → Bool
  | .eventFault e | .insnFault e => e ≠ .eos
  | _ => false

/-- Resync after the errors of `pt_insn_next` only. -/
def PtItem.isInsnError : PtItem → Bool
  | .insnFault e => e ≠ .eos
  | _ => false

def LoopBody.afterCall (body : LoopBody σ) (acc : σ) : PtCall → σ
  | .event (.ok ev) => body.onEvent acc ev
  | .next (.ok (insn, time)) => body.onInsn acc insn time
  | .next (.error e) => if e = .eos then acc else body.onError acc e
  | _ => acc

/-! ## The loop makes these calls -/

theorem drainEvents_ok_true (body : LoopBody σ) (d : PtDecoder) (acc : σ) :
    drainEvents body (.ok true) d acc = drainEvents body (ptInsnEvent d).1 (ptInsnEvent d).2.2
      (body.afterEvent acc (ptInsnEvent d).2.1) := by
  conv => lhs; rw [drainEvents]

theorem decodeLoop_err (body : LoopBody σ) (e : PtError) (d : PtDecoder) (acc : σ) :
    decodeLoop body (.err e) d acc = (d, acc) := by
  rw [decodeLoop]

theorem decodeLoop_ok (body : LoopBody σ) (pending : Bool) (d : PtDecoder) (acc : σ) :
    decodeLoop body (.ok pending) d acc = decodeLoop body (decodeRound body pending d acc).1
      (decodeRound body pending d acc).2.1 (decodeRound body pending d acc).2.2 := by
  conv => lhs; rw [decodeLoop]

theorem decodeRound_false (body : LoopBody σ) (d : PtDecoder) (acc : σ) :
    decodeRound body false d acc = decodeNext body d acc := by
  rw [decodeRound, drainEvents]

/-- Draining one event and going on is one more round of the outer loop. -/
theorem decodeLoop_event (body : LoopBody σ) {d : PtDecoder} {ev : PtEvent} {items : List PtItem}
    (hi : d.items = .event ev :: items) (acc : σ) :
    decodeLoop body (.ok true) d acc = decodeLoop body (.ok (eventPending items))
      { d with items, calls := d.calls ++ [.event (.ok ev)] } (body.onEvent acc ev) := by
  have hev : ptInsnEvent d = (.ok (eventPending items), some ev,
      { d with items, calls := d.calls ++ [.event (.ok ev)] }) := by
    simp [ptInsnEvent, hi]
  rw [decodeLoop_ok, decodeLoop_ok body (eventPending items), decodeRound, drainEvents_ok_true, hev]
  rfl

theorem decodeLoop_eventFault (body : LoopBody σ) {d : PtDecoder} {e : PtError} {items : List PtItem}
    (hi : d.items = .eventFault e :: items) (acc : σ) :
    decodeLoop body (.ok true) d acc = ({ d with calls := d.calls ++ [.event (.error e)] }, acc) := by
  have hev : ptInsnEvent d = (.err e, none, { d with calls := d.calls ++ [.event (.error e)] }) := by
    simp [ptInsnEvent, hi]
  rw [decodeLoop_ok, decodeRound, drainEvents_ok_true, hev, drainEvents, decodeLoop_err]
  rfl

theorem decodeLoop_insn (body : LoopBody σ) {d : PtDecoder} {insn : PtInsn} {time : PtTime}
    {items : List PtItem} (hi : d.items = .insn insn time :: items) (acc : σ) :
    decodeLoop body (.ok false) d acc = decodeLoop body (.ok (eventPending items))
      { d with items, time, calls := d.calls ++ [.next (.ok (insn, time))] }
      (body.onInsn acc insn time) := by
  have hnext : ptInsnNext d = (.ok (eventPending items), some insn,
      { d with items, time, calls := d.calls ++ [.next (.ok (insn, time))] }) := by
    simp [ptInsnNext, hi]
  rw [decodeLoop_ok, decodeRound_false, decodeNext, hnext]
  rfl

theorem decodeLoop_insnFault (body : LoopBody σ) {d : PtDecoder} {e : PtError} {items : List PtItem}
    (hi : d.items = .insnFault e :: items) (he : e ≠ .eos) (acc : σ) :
    decodeLoop body (.ok false) d acc =
      decodeLoop body (ptInsnSyncForward { d with calls := d.calls ++ [.next (.error e)] }).1
        (ptInsnSyncForward { d with calls := d.calls ++ [.next (.error e)] }).2 (body.onError acc e) := by
  have hnext : ptInsnNext d = (.err e, none, { d with calls := d.calls ++ [.next (.error e)] }) := by
    simp [ptInsnNext, hi]
  rw [decodeLoop_ok, decodeRound_false, decodeNext, hnext]
  cases e with
  | eos => exact absurd rfl he
  | _ => rfl

theorem decodeLoop_eos (body : LoopBody σ) {d : PtDecoder}
    (hi : d.items = [] ∨ ∃ items, d.items = .insnFault .eos :: items) (acc : σ) :
    decodeLoop body (.ok false) d acc = ({ d with calls := d.calls ++ [.next (.error .eos)] }, acc) := by
  have hnext : ptInsnNext d = (.err .eos, none, { d with calls := d.calls ++ [.next (.error .eos)] }) := by
    rcases hi with hi | ⟨items, hi⟩ <;> simp [ptInsnNext, hi]
  rw [decodeLoop_ok, decodeRound_false, decodeNext, hnext, decodeLoop_err]

/-- From any point of the trace, the loop makes the calls that the trace and its resyncs fix, and
accumulates over them. -/
theorem decodeLoop_calls (body : LoopBody σ) {rest : List PtSegment}
    (hsync : ∀ (d : PtDecoder) (acc : σ), d.rest = rest →
      (decodeLoop body (ptInsnSyncForward d).1 (ptInsnSyncForward d).2 acc).1.calls =
          d.calls ++ callsOf PtItem.isInsnError rest ∧
        (decodeLoop body (ptInsnSyncForward d).1 (ptInsnSyncForward d).2 acc).2 =
          (callsOf PtItem.isInsnError rest).foldl body.afterCall acc)
    (items : List PtItem) : ∀ (d : PtDecoder) (acc : σ), d.items = items → d.rest = rest →
      (decodeLoop body (.ok (eventPending items)) d acc).1.calls =
          d.calls ++ callsFrom PtItem.isInsnError (callsOf PtItem.isInsnError rest) items ∧
        (decodeLoop body (.ok (eventPending items)) d acc).2 =
          (callsFrom PtItem.isInsnError (callsOf PtItem.isInsnError rest) items).foldl body.afterCall acc := by
  induction items with
  | nil =>
      intro d acc hi _
      rw [show eventPending [] = false from rfl, decodeLoop_eos body (Or.inl hi)]
      exact ⟨rfl, rfl⟩
  | cons it items ih =>
      intro d acc hi hr
      cases it with
      | event ev =>
          obtain ⟨hcalls, hacc⟩ := ih { d with items, calls := d.calls ++ [.event (.ok ev)] }
            (body.onEvent acc ev) rfl hr
          rw [eventPending, decodeLoop_event body hi, hcalls, hacc]
          exact ⟨by simp [callsFrom, PtItem.call], rfl⟩
      | insn insn time =>
          obtain ⟨hcalls, hacc⟩ := ih { d with items, time, calls := d.calls ++ [.next (.ok (insn, time))] }
            (body.onInsn acc insn time) rfl hr
          rw [show eventPending (.insn insn time :: items) = false from rfl, decodeLoop_insn body hi,
            hcalls, hacc]
          exact ⟨by simp [callsFrom, PtItem.call], rfl⟩
      | eventFault e =>
          rw [eventPending, decodeLoop_eventFault body hi]
          exact ⟨rfl, rfl⟩
      | insnFault e =>
          have hpending : eventPending (.insnFault e :: items) = false := rfl
          by_cases he : e = .eos
          · subst he
            rw [hpending, decodeLoop_eos body (Or.inr ⟨items, hi⟩)]
            exact ⟨rfl, rfl⟩
          · obtain ⟨hcalls, hacc⟩ := hsync { d with calls := d.calls ++ [.next (.error e)] }
              (body.onError acc e) hr
            rw [hpending, decodeLoop_insnFault body hi he, hcalls, hacc]
            simp [callsFrom, PtItem.call, PtItem.isInsnError, he, LoopBody.afterCall]

theorem decodeLoop_sync (body : LoopBody σ) (rest : List PtSegment) : ∀ (d : PtDecoder) (acc : σ),
    d.rest = rest →
    (decodeLoop body (ptInsnSyncForward d).1 (ptInsnSyncForward d).2 acc).1.calls =
        d.calls ++ callsOf PtItem.isInsnError rest ∧
      (decodeLoop body (ptInsnSyncForward d).1 (ptInsnSyncForward d).2 acc).2 =
        (callsOf PtItem.isInsnError rest).foldl body.afterCall acc := by
  induction rest with
  | nil =>
      intro d acc hr
      simp only [ptInsnSyncForward, hr, decodeLoop_err]
      exact ⟨rfl, rfl⟩
  | cons seg rest ih =>
      intro d acc hr
      cases hf : seg.fault with
      | some e =>
          simp only [ptInsnSyncForward, hr, hf, decodeLoop_err, callsOf]
          exact ⟨trivial, rfl⟩
      | none =>
          obtain ⟨hcalls, hacc⟩ := decodeLoop_calls body ih seg.items
            { d with items := seg.items, rest, calls := d.calls ++ [.sync none] } acc rfl rfl
          simp only [ptInsnSyncForward, hr, hf, callsOf]
          rw [hcalls, hacc]
          exact ⟨by simp, rfl⟩

/-- A decode loop makes the calls that follow an error of `pt_insn_next` by a sync. -/
theorem decodeTrace_calls (body : LoopBody σ) (trace : List PtSegment) (acc : σ) :
    (decodeTrace body trace acc).1.calls = callsOf PtItem.isInsnError trace := by
  exact (decodeLoop_sync body trace (ptInsnAllocDecoder trace) acc rfl).1

theorem decodeTrace_acc (body : LoopBody σ) (trace : List PtSegment) (acc : σ) :
    (decodeTrace body trace acc).2 = (callsOf PtItem.isInsnError trace).foldl body.afterCall acc := by
  exact (decodeLoop_sync body trace (ptInsnAllocDecoder trace) acc rfl).2

/-! ## Covering the whole trace -/

/-- The calls of a decoder that follows every error but the end of the stream by a sync. -/
abbrev resyncedCalls (trace : List PtSegment) : List PtCall := callsOf PtItem.isError trace

def PtCall.error? : PtCall → Option PtError
  | .event (.error e) | .next (.error e) => if e = .eos then none else some e
  | _ => none

def PtCall.isEnd : PtCall → Bool
  | .event (.error e) | .next (.error e) => e = .eos
  | .sync (some _) => true
  | _ => false

def PtCall.insn? : PtCall → Option (PtInsn × PtTime)
  | .next (.ok r) => some r
  | _ => none

/-- Every error is followed by a sync, and the last call meets the end of the stream or a failed sync. -/
structure Covered (calls : List PtCall) : Prop where
  resynced : ∀ pre c post, calls = pre ++ c :: post → c.error?.isSome = true →
    ∃ r post', post = .sync r :: post'
  ended : ∃ c, calls.getLast? = some c ∧ c.isEnd = true

def deliveredItems : List PtItem → List (PtInsn × PtTime)
  | [] => []
  | .event _ :: items => deliveredItems items
  | .insn insn time :: items => (insn, time) :: deliveredItems items
  | .eventFault _ :: _ | .insnFault _ :: _ => []

def firstError : List PtItem → Option PtError
  | [] => none
  | .eventFault e :: _ | .insnFault e :: _ => some e
  | _ :: items => firstError items

/-- The instructions that the trace has between each sync point and the first error behind it, up to
the end of the stream or a failing sync point. -/
def deliverable : List PtSegment → List (PtInsn × PtTime)
  | [] => []
  | seg :: rest => match seg.fault with
      | some _ => []
      | none => deliveredItems seg.items ++ match firstError seg.items with
          | none | some .eos => []
          | some _ => deliverable rest

/-- While events are drained, no error other than the end of the stream comes up. -/
def DrainsCleanly (trace : List PtSegment) : Prop :=
  ∀ e, PtCall.event (.error e) ∈ resyncedCalls trace → e = .eos

theorem callsFrom_deliverable (resumed : List PtCall) (items : List PtItem) :
    (callsFrom PtItem.isError resumed items).filterMap PtCall.insn? =
      deliveredItems items ++ match firstError items with
        | none | some .eos => []
        | some _ => resumed.filterMap PtCall.insn? := by
  induction items with
  | nil => rfl
  | cons it items ih =>
      cases it with
      | event ev => exact ih
      | insn insn time =>
          have hinsn : (PtCall.next (.ok (insn, time))).insn? = some (insn, time) := rfl
          rw [callsFrom, PtItem.call, List.filterMap_cons_some hinsn, ih]
          rfl
      | eventFault e => cases e <;> rfl
      | insnFault e => cases e <;> rfl

/-- A decoder that resyncs after every error delivers every deliverable instruction. -/
theorem resyncedCalls_deliverable (trace : List PtSegment) :
    (resyncedCalls trace).filterMap PtCall.insn? = deliverable trace := by
  induction trace with
  | nil => rfl
  | cons seg rest ih =>
      unfold resyncedCalls callsOf deliverable
      cases hf : seg.fault with
      | some e => rfl
      | none =>
          simp only
          rw [List.filterMap_cons_none rfl, callsFrom_deliverable, ih]

theorem Covered.cons {c : PtCall} {calls : List PtCall} (h : Covered calls) (hc : c.error? = none) :
    Covered (c :: calls) where
  resynced := by
    intro pre d post he hd
    cases pre with
    | nil =>
        obtain ⟨rfl, rfl⟩ : c = d ∧ calls = post := by simpa using he
        rw [hc] at hd; cases hd
    | cons p pre =>
        obtain ⟨rfl, he'⟩ : c = p ∧ calls = pre ++ d :: post := by simpa using he
        exact h.resynced pre d post he' hd
  ended := by
    obtain ⟨d, hd, hend⟩ := h.ended
    exact ⟨d, by rw [List.getLast?_cons, hd]; rfl, hend⟩

theorem Covered.cons_sync {c : PtCall} {r : Option PtError} {calls : List PtCall}
    (h : Covered (.sync r :: calls)) : Covered (c :: .sync r :: calls) where
  resynced := by
    intro pre d post he hd
    cases pre with
    | nil =>
        obtain ⟨_, rfl⟩ : c = d ∧ .sync r :: calls = post := by simpa using he
        exact ⟨r, calls, rfl⟩
    | cons p pre =>
        obtain ⟨rfl, he'⟩ : c = p ∧ .sync r :: calls = pre ++ d :: post := by simpa using he
        exact h.resynced pre d post he' hd
  ended := by
    obtain ⟨d, hd, hend⟩ := h.ended
    exact ⟨d, by rw [List.getLast?_cons, hd]; rfl, hend⟩

theorem Covered.single {c : PtCall} (hc : c.error? = none) (hend : c.isEnd = true) : Covered [c] where
  resynced := by
    intro pre d post he hd
    cases pre with
    | nil =>
        obtain ⟨rfl, _⟩ : c = d ∧ [] = post := by simpa using he
        rw [hc] at hd; cases hd
    | cons p pre => simp at he
  ended := ⟨c, rfl, hend⟩

theorem callsOf_head (resyncs : PtItem → Bool) (trace : List PtSegment) :
    ∃ r calls, callsOf resyncs trace = .sync r :: calls := by
  cases trace with
  | nil => exact ⟨_, _, rfl⟩
  | cons seg rest =>
      unfold callsOf
      cases seg.fault with
      | some e => exact ⟨_, _, rfl⟩
      | none => exact ⟨_, _, rfl⟩

theorem callsFrom_covered {rest : List PtSegment} (h : Covered (resyncedCalls rest)) (items : List PtItem) :
    Covered (callsFrom PtItem.isError (resyncedCalls rest) items) := by
  obtain ⟨r, calls, hcalls⟩ := callsOf_head PtItem.isError rest
  induction items with
  | nil => exact .single rfl rfl
  | cons it items ih =>
      cases it with
      | event ev => exact ih.cons rfl
      | insn insn time => exact ih.cons rfl
      | eventFault e =>
          by_cases he : e = .eos
          · subst he; exact .single rfl rfl
          · rw [callsFrom, if_pos (by simpa [PtItem.isError] using he)]
            rw [resyncedCalls, hcalls] at h ⊢
            exact h.cons_sync
      | insnFault e =>
          by_cases he : e = .eos
          · subst he; exact .single rfl rfl
          · rw [callsFrom, if_pos (by simpa [PtItem.isError] using he)]
            rw [resyncedCalls, hcalls] at h ⊢
            exact h.cons_sync

theorem resyncedCalls_covered (trace : List PtSegment) : Covered (resyncedCalls trace) := by
  induction trace with
  | nil => exact .single rfl rfl
  | cons seg rest ih =>
      unfold resyncedCalls callsOf
      cases seg.fault with
      | some e => exact .single rfl rfl
      | none => exact (callsFrom_covered ih seg.items).cons rfl

/-- The calls of the loop are those of the decoder that resyncs after every error, and it drains the
events cleanly, or they stop at an error of `pt_insn_event`. -/
def SameOrStops (calls ideal : List PtCall) : Prop :=
  (calls = ideal ∧ ∀ e, PtCall.event (.error e) ∈ ideal → e = .eos) ∨
    ∃ pre e, e ≠ .eos ∧ calls = pre ++ [.event (.error e)] ∧ PtCall.event (.error e) ∈ ideal

theorem SameOrStops.cons {c : PtCall} {calls ideal : List PtCall} (h : SameOrStops calls ideal)
    (hc : ∀ e, c = .event (.error e) → e = .eos) : SameOrStops (c :: calls) (c :: ideal) := by
  rcases h with ⟨heq, hclean⟩ | ⟨pre, e, he, heq, hmem⟩
  · refine Or.inl ⟨congrArg _ heq, fun e hmem => ?_⟩
    rcases List.mem_cons.mp hmem with hhead | htail
    · exact hc e hhead.symm
    · exact hclean e htail
  · exact Or.inr ⟨c :: pre, e, he, congrArg (c :: ·) heq, List.mem_cons_of_mem _ hmem⟩

theorem SameOrStops.single {c : PtCall} (hc : ∀ e, c = .event (.error e) → e = .eos) :
    SameOrStops [c] [c] :=
  Or.inl ⟨rfl, fun e hmem => hc e (List.mem_singleton.mp hmem).symm⟩

theorem callsFrom_sameOrStops {rest : List PtSegment}
    (h : SameOrStops (callsOf PtItem.isInsnError rest) (resyncedCalls rest)) (items : List PtItem) :
    SameOrStops (callsFrom PtItem.isInsnError (callsOf PtItem.isInsnError rest) items)
      (callsFrom PtItem.isError (resyncedCalls rest) items) := by
  induction items with
  | nil => exact .single (fun e he => by cases he)
  | cons it items ih =>
      cases it with
      | event ev => exact ih.cons (fun e he => by cases he)
      | insn insn time => exact ih.cons (fun e he => by cases he)
      | eventFault e =>
          by_cases he : e = .eos
          · subst he; exact .single (fun e he => by cases he; rfl)
          · exact Or.inr ⟨[], e, he, rfl, by simp [callsFrom, PtItem.call]⟩
      | insnFault e =>
          by_cases he : e = .eos
          · subst he; exact .single (fun e he => by cases he)
          · have hcode : PtItem.isInsnError (.insnFault e) = true := by simpa [PtItem.isInsnError] using he
            have hideal : PtItem.isError (.insnFault e) = true := by simpa [PtItem.isError] using he
            rw [callsFrom, callsFrom, if_pos hcode, if_pos hideal]
            exact h.cons (fun e he => by cases he)

theorem callsOf_sameOrStops (trace : List PtSegment) :
    SameOrStops (callsOf PtItem.isInsnError trace) (resyncedCalls trace) := by
  induction trace with
  | nil => exact .single (fun e he => by cases he)
  | cons seg rest ih =>
      unfold resyncedCalls callsOf
      cases seg.fault with
      | some e => exact .single (fun e he => by cases he)
      | none => exact (callsFrom_sameOrStops ih seg.items).cons (fun e he => by cases he)

theorem DrainsCleanly.callsOf_eq {trace : List PtSegment} (h : DrainsCleanly trace) :
    callsOf PtItem.isInsnError trace = resyncedCalls trace := by
  rcases callsOf_sameOrStops trace with ⟨heq, _⟩ | ⟨_, e, he, _, hmem⟩
  · exact heq
  · exact absurd (h e hmem) he

/-- A decode loop covers the trace exactly when no error comes up while events are drained. -/
theorem covered_iff_drainsCleanly (trace : List PtSegment) :
    Covered (callsOf PtItem.isInsnError trace) ↔ DrainsCleanly trace := by
  constructor
  · intro h
    rcases callsOf_sameOrStops trace with ⟨_, hclean⟩ | ⟨pre, e, he, heq, _⟩
    · exact hclean
    · obtain ⟨c, hc, hend⟩ := h.ended
      rw [heq, List.getLast?_concat] at hc
      cases hc
      exact absurd (of_decide_eq_true hend) he
  · intro h
    rw [h.callsOf_eq]
    exact resyncedCalls_covered trace

end ObservableBSD.Decode
