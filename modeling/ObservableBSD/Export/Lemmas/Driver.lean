import Mathlib.Algebra.BigOperators.Group.List.Basic
import Mathlib.Logic.Relation
import ObservableBSD.Export.Lemmas.System
import ObservableBSD.Export.System

/-!
# Runs of one thread's calls
-/

namespace ObservableBSD.Export

variable {cfg : OtlpConfig} {s s' : OtlpSystem} {calls : List OtlpCall} {c : OtlpCall}

/-! ## One step -/

theorem OtlpSystem.Begins.step (h : OtlpSystem.Begins cfg s c s') (hrunning : s.phase.isRunning = true) :
    OtlpSystem.Step cfg s s' := by
  cases h with
  | reportDrops count => exact .reportDrops count
  | emitEvent event => exact .emitEvent event hrunning
  | emitSnapshot snapshot => exact .emitSnapshot snapshot hrunning
  | flush => exact .flush

theorem emitEvent_given (cfg : OtlpConfig) (l : OtlpLedger) (event : ProbeEvent) :
    (l.emitEvent cfg event).1.events = l.events ++ [event] ∧ (l.emitEvent cfg event).1.snapshots = l.snapshots ∧
      (l.emitEvent cfg event).1.reported = l.reported := by
  unfold OtlpLedger.emitEvent
  cases logRecord? cfg event <;> exact ⟨rfl, rfl, rfl⟩

theorem emitSnapshot_given (l : OtlpLedger) (snapshot : AggregationSnapshot) :
    (l.emitSnapshot snapshot).events = l.events ∧ (l.emitSnapshot snapshot).snapshots = l.snapshots ++ [snapshot] ∧
      (l.emitSnapshot snapshot).reported = l.reported := by
  unfold OtlpLedger.emitSnapshot
  dsimp only
  split <;> exact ⟨rfl, rfl, rfl⟩

theorem OtlpSystem.Begins.given (h : OtlpSystem.Begins cfg s c s') (hgiven : s.ledger.GivenBy calls) :
    s'.ledger.GivenBy (calls ++ [c]) := by
  obtain ⟨hevents, hsnapshots, hreported⟩ := hgiven
  cases h with
  | reportDrops count =>
      refine ⟨?_, ?_, ?_⟩
      · simp [OtlpLedger.reportDrops, hevents, OtlpCall.event?]
      · simp [OtlpLedger.reportDrops, hsnapshots, OtlpCall.snapshot?]
      · simp [OtlpLedger.reportDrops, hreported, OtlpCall.drops]
  | emitEvent event =>
      obtain ⟨he, hs, hr⟩ := emitEvent_given cfg s.ledger event
      refine ⟨?_, ?_, ?_⟩
      · simp [he, hevents, OtlpCall.event?]
      · simp [hs, hsnapshots, OtlpCall.snapshot?]
      · simp [hr, hreported, OtlpCall.drops]
  | emitSnapshot snapshot =>
      obtain ⟨he, hs, hr⟩ := emitSnapshot_given s.ledger snapshot
      refine ⟨?_, ?_, ?_⟩
      · simp [he, hevents, OtlpCall.event?]
      · simp [hs, hsnapshots, OtlpCall.snapshot?]
      · simp [hr, hreported, OtlpCall.drops]
  | flush =>
      refine ⟨?_, ?_, ?_⟩
      · simp [OtlpLedger.takeAll, hevents, OtlpCall.event?]
      · simp [OtlpLedger.takeAll, hsnapshots, OtlpCall.snapshot?]
      · simp [OtlpLedger.takeAll, hreported, OtlpCall.drops]

/-- The other steps give the exporter nothing. -/
theorem OtlpSystem.Goes.given (h : OtlpSystem.Goes cfg s s') (hgiven : s.ledger.GivenBy calls) :
    s'.ledger.GivenBy calls := by
  obtain ⟨hstep, hinner, -⟩ := h
  cases hstep with
  | reportDrops count => exact absurd (.reportDrops count) (hinner _)
  | emitEvent event hr => exact absurd (.emitEvent event) (hinner _)
  | emitSnapshot snapshot hr => exact absurd (.emitSnapshot snapshot) (hinner _)
  | flush => exact absurd .flush (hinner _)
  | runTimerFlush hw hq => exact ⟨hgiven.events, hgiven.snapshots, hgiven.reported⟩
  | shutdownFlush hp => exact ⟨hgiven.events, hgiven.snapshots, hgiven.reported⟩
  | start hr => exact hgiven
  | asyncPost hh => exact hgiven
  | flushPost hf => exact hgiven
  | flushReturn hf => exact hgiven
  | tick ht => exact hgiven
  | tickCancelled ht hw hq => exact hgiven
  | runPost hw hq => exact hgiven
  | workerPost hw => exact hgiven
  | workerDone hw => exact hgiven
  | shutdownCancel hr hh => exact hgiven
  | shutdownSync hp => exact hgiven
  | shutdownSynced hp hw hq => exact hgiven
  | shutdownPost hp => exact hgiven
  | shutdownDone hp => exact hgiven

theorem OtlpSystem.Goes.overlap (h : OtlpSystem.Goes cfg s s') : s'.overlap = s.overlap := by
  obtain ⟨hstep, hinner, hlast⟩ := h
  cases hstep with
  | flush => exact absurd .flush (hinner _)
  | shutdownCancel hr hh =>
      simp [hlast hr rfl]
  | _ => rfl

/-! ## Runs -/

theorem OtlpSystem.Driven.reachable (h : OtlpSystem.Driven cfg calls s) : OtlpSystem.Reachable cfg s := by
  induction h with
  | init => exact .init
  | call _ hrunning _ hbegins ih => exact ih.step (hbegins.step hrunning)
  | goes _ hgoes ih => exact ih.step hgoes.step

theorem OtlpSystem.Driven.given (h : OtlpSystem.Driven cfg calls s) : s.ledger.GivenBy calls := by
  induction h with
  | init => exact ⟨rfl, rfl, rfl⟩
  | call _ _ _ hbegins ih => exact hbegins.given ih
  | goes _ hgoes ih => exact hgoes.given ih

/-- `shutdown` comes when no call of `flush` is in progress. -/
theorem OtlpSystem.Driven.overlap (h : OtlpSystem.Driven cfg calls s) : s.overlap = false := by
  induction h with
  | init => rfl
  | call _ hrunning _ hbegins ih =>
      cases hbegins with
      | flush => simp [ih, hrunning]
      | _ => exact ih
  | goes _ hgoes ih => rw [hgoes.overlap, ih]

/-! ## The end of a run -/

/-- The records and the snapshots of a post, and the drops that it reports. -/
def Post.records : Post → List LogRecord
  | .logs records _ => records
  | .metrics _ => []

def Post.snapshots : Post → List AggregationSnapshot
  | .logs .. => []
  | .metrics snapshots => snapshots

def Post.drops : Post → Nat
  | .logs _ drops => drops
  | .metrics _ => 0

theorem posts_records (l : OtlpLedger) : l.posts.flatMap Post.records = l.taken.flatMap (·.1) := by
  have hlogs : ∀ taken : List (List LogRecord × Nat),
      ((taken.filter fun t => t.1 ≠ []).map fun t => Post.logs t.1 t.2).flatMap Post.records =
        taken.flatMap (·.1) := by
    intro taken
    induction taken with
    | nil => rfl
    | cons t taken ih => by_cases ht : t.1 = [] <;> simp_all [Post.records]
  have hmetrics : ∀ taken : List (List AggregationSnapshot),
      ((taken.filter fun m => m ≠ []).map Post.metrics).flatMap Post.records = [] := by
    refine fun taken => List.flatMap_eq_nil_iff.2 fun p hp => ?_
    obtain ⟨m, -, rfl⟩ := List.mem_map.1 hp
    rfl
  rw [OtlpLedger.posts, List.flatMap_append, hlogs, hmetrics, List.append_nil]

theorem posts_snapshots (l : OtlpLedger) : l.posts.flatMap Post.snapshots = l.takenMetrics.flatten := by
  have hlogs : ∀ taken : List (List LogRecord × Nat),
      ((taken.filter fun t => t.1 ≠ []).map fun t => Post.logs t.1 t.2).flatMap Post.snapshots = [] := by
    refine fun taken => List.flatMap_eq_nil_iff.2 fun p hp => ?_
    obtain ⟨t, -, rfl⟩ := List.mem_map.1 hp
    rfl
  have hmetrics : ∀ taken : List (List AggregationSnapshot),
      ((taken.filter fun m => m ≠ []).map Post.metrics).flatMap Post.snapshots = taken.flatten := by
    intro taken
    induction taken with
    | nil => rfl
    | cons m taken ih => by_cases hm : m = [] <;> simp_all [Post.snapshots]
  rw [OtlpLedger.posts, List.flatMap_append, hlogs, hmetrics, List.nil_append]

theorem posts_drops (l : OtlpLedger) : (l.posts.map Post.drops).sum = handedDrops l.taken := by
  have hlogs : ∀ taken : List (List LogRecord × Nat),
      (((taken.filter fun t => t.1 ≠ []).map fun t => Post.logs t.1 t.2).map Post.drops).sum = handedDrops taken := by
    intro taken
    induction taken with
    | nil => rfl
    | cons t taken ih => by_cases ht : t.1 = [] <;> simp_all [Post.drops, handedDrops]
  have hmetrics : ∀ taken : List (List AggregationSnapshot),
      (((taken.filter fun m => m ≠ []).map Post.metrics).map Post.drops).sum = 0 := by
    intro taken
    induction taken with
    | nil => rfl
    | cons m taken ih => by_cases hm : m = [] <;> simp_all [Post.drops]
  rw [OtlpLedger.posts, List.map_append, List.sum_append, hlogs, hmetrics, Nat.add_zero]

/-- The posts hold all that was given, once, and no more drops than were reported. -/
structure Complete (cfg : OtlpConfig) (calls : List OtlpCall) (posted : List Post) : Prop where
  records : (posted.flatMap Post.records).Perm
    ((calls.filterMap OtlpCall.event?).filterMap (logRecord? cfg))
  snapshots : (posted.flatMap Post.snapshots).Perm
    ((calls.filterMap OtlpCall.snapshot?).filter fun snapshot => snapshot.dataPoints ≠ [])
  drops : (posted.map Post.drops).sum ≤ (calls.map OtlpCall.drops).sum

theorem OtlpSystem.Driven.complete (h : OtlpSystem.Driven cfg calls s) {held : List Post}
    (hdone : s.phase = .invalidated held) : Complete cfg calls s.posted := by
  have hreachable := h.reachable
  have hgiven := h.given
  have hexact := hreachable.exact
  have hheld := hreachable.draining.unheld held hdone h.overlap
  obtain ⟨hbatch, hmetrics⟩ := hreachable.draining.empty (by rw [hdone]; rfl)
  have hposted : s.ledger.posts.Perm s.posted := by
    have hdrained := hreachable.drained hdone
    rwa [hheld, List.append_nil] at hdrained
  refine ⟨?_, ?_, ?_⟩
  · have hlogs := hexact.logs
    rw [hbatch, List.append_nil, hgiven.events] at hlogs
    rw [← hlogs, ← posts_records]
    exact hposted.symm.flatMap_right _
  · have hsnapshots := hexact.metrics
    rw [hmetrics, List.append_nil, hgiven.snapshots] at hsnapshots
    rw [← hsnapshots, ← posts_snapshots]
    exact hposted.symm.flatMap_right _
  · obtain ⟨sections, hsections⟩ := hreachable.ledger
    have hle := drops_le cfg sections
    rw [← hsections, ← posts_drops, hgiven.reported] at hle
    rw [← (hposted.map Post.drops).sum_eq]
    omega

/-!
## The end is always in reach

In each state but the last the exporter has a step that leaves it less to do, which no call has to begin.
-/

variable {cfg : OtlpConfig} {s s' : OtlpSystem} {calls : List OtlpCall} {c : OtlpCall}

/-! ## What is left to do -/

def Phase.work : Phase → Nat
  | .running => 11
  | .cancelled => 10
  | .waiting => 5
  | .synced => 4
  | .flushing posts => posts.length + 1
  | .invalidated _ => 0

def workerWork : Option (List Post) → Nat
  | none => 0
  | some posts => posts.length + 1

/-- An upper bound for the steps that are left when nothing else begins. -/
def OtlpSystem.work (s : OtlpSystem) : Nat :=
  5 * s.handoffs.length + (s.flushes.map fun posts => posts.length + 1).sum + 4 * s.queue.length +
    workerWork s.worker + s.phase.work

theorem OtlpSystem.Begins.work (h : OtlpSystem.Begins cfg s c s') : s.work ≤ s'.work := by
  cases h with
  | reportDrops count => exact Nat.le_refl _
  | emitSnapshot snapshot => exact Nat.le_refl _
  | emitEvent event =>
      simp only [OtlpSystem.work, List.length_append]
      omega
  | flush =>
      simp only [OtlpSystem.work, List.map_append, List.sum_append]
      omega

/-- A step that leaves less to do is not the beginning of a call. -/
theorem OtlpSystem.Step.goes (hstep : OtlpSystem.Step cfg s s') (hwork : s'.work < s.work)
    (hlast : s.phase.isRunning = true → s'.phase.isRunning = false → s.flushes = []) : OtlpSystem.Goes cfg s s' :=
  ⟨hstep, fun _ hbegins => absurd hbegins.work (Nat.not_le.2 hwork), hlast⟩

theorem length_takenPosts (logs : List LogRecord) (metrics : List AggregationSnapshot) (drops : Nat) :
    (takenPosts logs metrics drops).length ≤ 2 := by
  unfold takenPosts
  split <;> split <;> simp

theorem length_takeAll (l : OtlpLedger) : l.takeAll.2.length ≤ 2 := length_takenPosts ..

/-- The thread comes first, then the worker, then the queue, and `shutdown` last. -/
theorem OtlpSystem.Draining.exists_goes (cfg : OtlpConfig) (h : s.Draining) (hlive : s.phase.isLive = true) :
    ∃ s', OtlpSystem.Goes cfg s s' ∧ s'.work < s.work := by
  have hgo {s' : OtlpSystem} (hstep : OtlpSystem.Step cfg s s') (hwork : s'.work < s.work)
      (hlast : s'.phase = s.phase ∨ s.flushes = []) : ∃ s', OtlpSystem.Goes cfg s s' ∧ s'.work < s.work := by
    refine ⟨s', hstep.goes hwork fun hr hr' => ?_, hwork⟩
    rcases hlast with hphase | hflushes
    · rw [hphase, hr] at hr'
      cases hr'
    · exact hflushes
  cases hhandoffs : s.handoffs with
  | cons t handoffs =>
      refine hgo (.asyncPost (show s.handoffs = [] ++ t :: handoffs from hhandoffs)) ?_ (.inl rfl)
      simp only [OtlpSystem.work, hhandoffs, List.length_append, List.length_cons, List.length_nil]
      omega
  | nil =>
  cases hflushes : s.flushes with
  | cons posts flushes =>
      cases posts with
      | nil =>
          refine hgo (.flushReturn (show s.flushes = [] ++ [] :: flushes from hflushes)) ?_ (.inl rfl)
          simp only [OtlpSystem.work, hflushes, List.nil_append, List.map_cons, List.sum_cons]
          omega
      | cons p posts =>
          refine hgo (.flushPost (show s.flushes = [] ++ (p :: posts) :: flushes from hflushes)) ?_ (.inl rfl)
          simp only [OtlpSystem.work, hflushes, List.nil_append, List.map_cons, List.sum_cons, List.length_cons]
          omega
  | nil =>
  cases hworker : s.worker with
  | some posts =>
      cases posts with
      | nil =>
          refine hgo (.workerDone hworker) ?_ (.inl rfl)
          simp only [OtlpSystem.work, hworker, workerWork]
          omega
      | cons p posts =>
          refine hgo (.workerPost hworker) ?_ (.inl rfl)
          simp only [OtlpSystem.work, hworker, workerWork, List.length_cons]
          omega
  | none =>
  cases hqueue : s.queue with
  | cons job rest =>
      cases job with
      | post records drops =>
          refine hgo (.runPost hworker hqueue) ?_ (.inl rfl)
          simp only [OtlpSystem.work, hworker, hqueue, workerWork, List.length_cons, List.length_nil]
          omega
      | timerFlush =>
          have htaken := length_takeAll s.ledger
          refine hgo (.runTimerFlush hworker hqueue) ?_ (.inl rfl)
          simp only [OtlpSystem.work, hworker, hqueue, workerWork, List.length_cons]
          omega
      | barrier =>
          have hphase : s.phase = .waiting := by
            by_contra hne
            exact h.noBarrier hne (hqueue ▸ List.mem_cons_self)
          refine hgo (.shutdownSynced hphase hworker hqueue) ?_ (.inr hflushes)
          simp only [OtlpSystem.work, hqueue, hphase, Phase.work, List.length_cons]
          omega
  | nil =>
  cases hphase : s.phase with
  | running =>
      refine hgo (.shutdownCancel (by rw [hphase]; rfl) hhandoffs) ?_ (.inr hflushes)
      simp only [OtlpSystem.work, hphase, Phase.work]
      omega
  | cancelled =>
      refine hgo (.shutdownSync hphase) ?_ (.inr hflushes)
      simp only [OtlpSystem.work, hqueue, hphase, Phase.work, List.length_append, List.length_cons, List.length_nil]
      omega
  | waiting =>
      obtain ⟨jobs, hjobs, -⟩ := h.barrier hphase
      rw [hqueue] at hjobs
      simp at hjobs
  | synced =>
      have htaken := length_takeAll s.ledger
      refine hgo (.shutdownFlush hphase) ?_ (.inr hflushes)
      simp only [OtlpSystem.work, hphase, Phase.work]
      omega
  | flushing posts =>
      cases posts with
      | nil =>
          refine hgo (.shutdownDone hphase) ?_ (.inr hflushes)
          simp only [OtlpSystem.work, hphase, Phase.work]
          omega
      | cons p posts =>
          refine hgo (.shutdownPost hphase) ?_ (.inr hflushes)
          simp only [OtlpSystem.work, hphase, Phase.work, List.length_cons]
          omega
  | invalidated held =>
      rw [hphase] at hlive
      cases hlive

/-! ## Runs to the end -/

theorem OtlpSystem.Driven.trans (h : OtlpSystem.Driven cfg calls s) (hgoes : Relation.ReflTransGen (Goes cfg) s s') :
    OtlpSystem.Driven cfg calls s' := by
  induction hgoes with
  | refl => exact h
  | tail _ hlast ih => exact ih.goes hlast

/-- Whatever has happened, the exporter can finish without a call. -/
theorem OtlpSystem.Driven.ends (h : OtlpSystem.Driven cfg calls s) :
    ∃ s' held, Relation.ReflTransGen (OtlpSystem.Goes cfg) s s' ∧ s'.phase = .invalidated held := by
  induction hwork : s.work using Nat.strongRecOn generalizing s with
  | _ n ih =>
      subst hwork
      cases hlive : s.phase.isLive with
      | false =>
          obtain ⟨held, hheld⟩ := Phase.not_live hlive
          exact ⟨s, held, .refl, hheld⟩
      | true =>
          obtain ⟨next, hgoes, hless⟩ := h.reachable.draining.exists_goes cfg hlive
          obtain ⟨s', held, hrest, hheld⟩ := ih next.work hless (h.goes hgoes) rfl
          exact ⟨s', held, .head hgoes hrest, hheld⟩

end ObservableBSD.Export
