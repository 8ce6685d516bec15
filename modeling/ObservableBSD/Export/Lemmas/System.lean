import ObservableBSD.Export.Lemmas.Otlp
import ObservableBSD.Export.System

/-!
# Where the posts are

At every moment each post of a batch taken so far has been made, or is in the hands of exactly one thread
or of the queue. The shutdown waits until only calls of `flush` can hold one.
-/

namespace ObservableBSD.Export

open Base

variable {cfg : OtlpConfig} {s s' : OtlpSystem}

/-! ## The ledger -/

theorem OtlpSystem.Step.ledger (h : OtlpSystem.Step cfg s s') :
    s'.ledger = s.ledger ∨ ∃ c, s'.ledger = s.ledger.call cfg c := by
  cases h with
  | reportDrops count => exact Or.inr ⟨.reportDrops count, rfl⟩
  | emitEvent event => exact Or.inr ⟨.emitEvent event, rfl⟩
  | emitSnapshot snapshot => exact Or.inr ⟨.emitSnapshot snapshot, rfl⟩
  | flush => exact Or.inr ⟨.flush, rfl⟩
  | runTimerFlush => exact Or.inr ⟨.timerFlush, rfl⟩
  | shutdownFlush => exact Or.inr ⟨.flush, rfl⟩
  | _ => exact Or.inl rfl

theorem OtlpSystem.Reachable.ledger (h : OtlpSystem.Reachable cfg s) :
    ∃ calls, s.ledger = otlpRun cfg calls := by
  induction h with
  | init => exact ⟨[], rfl⟩
  | step _ hstep ih =>
      obtain ⟨calls, hcalls⟩ := ih
      rcases hstep.ledger with heq | ⟨c, heq⟩
      · exact ⟨calls, heq.trans hcalls⟩
      · exact ⟨calls ++ [c], by rw [heq, hcalls, otlpRun_concat]⟩

theorem OtlpLedger.Exact.call {l : OtlpLedger} (h : l.Exact cfg) (c : OtlpCall) : (l.call cfg c).Exact cfg := by
  cases c with
  | reportDrops count => exact ⟨h.logs, h.metrics, h.pending, h.sizes⟩
  | emitEvent event => exact h.emitEvent event
  | emitSnapshot snapshot => exact h.emitSnapshot snapshot
  | timerFlush | flush => exact h.takeAll

theorem otlpRun_exact (cfg : OtlpConfig) (calls : List OtlpCall) : (otlpRun cfg calls).Exact cfg := by
  induction calls using List.reverseRecOn with
  | nil => exact exact_init cfg
  | append_singleton calls c ih => rw [otlpRun_concat]; exact ih.call c

theorem OtlpSystem.Reachable.exact (h : OtlpSystem.Reachable cfg s) : s.ledger.Exact cfg := by
  obtain ⟨calls, hcalls⟩ := h.ledger
  rw [hcalls]
  exact otlpRun_exact cfg calls

/-! ## Taking batches -/

def batchPost (t : List LogRecord × Nat) : Post := .logs t.1 t.2

theorem posts_emitSnapshot (l : OtlpLedger) (snapshot : AggregationSnapshot) :
    (l.emitSnapshot snapshot).posts = l.posts := by
  unfold OtlpLedger.emitSnapshot
  split <;> rfl

theorem posts_emitEvent (l : OtlpLedger) (event : ProbeEvent) (p : Post) :
    (l.emitEvent cfg event).1.posts.count p =
      l.posts.count p + ((l.emitEvent cfg event).2.toList.map batchPost).count p := by
  unfold OtlpLedger.emitEvent
  cases logRecord? cfg event with
  | none => simp [OtlpLedger.posts]
  | some record =>
      simp only [OtlpExporter.append]
      split
      · simp [OtlpLedger.posts, batchPost, List.count_append, List.count_cons]
        omega
      · simp [OtlpLedger.posts]

theorem posts_takeAll (l : OtlpLedger) (p : Post) :
    l.takeAll.1.posts.count p = l.posts.count p + l.takeAll.2.count p := by
  unfold OtlpLedger.takeAll OtlpExporter.takeAll takenPosts OtlpLedger.posts
  by_cases hb : l.exporter.batch = [] <;> by_cases hm : l.exporter.metricsBatch = [] <;>
    simp [hb, hm, List.count_append, List.count_cons, List.filter_append] <;> omega

/-! ## Who holds a post -/

def Job.post? : Job → Option Post
  | .post records drops => some (.logs records drops)
  | _ => none

/-- The posts left to calls of `flush`, until the session is invalidated. -/
def Phase.flushPosts (flushes : List (List Post)) : Phase → List Post
  | .invalidated held => held
  | _ => flushes.flatten

def Phase.posts : Phase → List Post
  | .flushing posts => posts
  | _ => []

/-- The posts made and those in hand. -/
def OtlpSystem.accounted (s : OtlpSystem) : List Post :=
  s.posted ++ s.worker.getD [] ++ s.phase.flushPosts s.flushes ++ s.phase.posts ++ s.queue.filterMap Job.post? ++
    s.handoffs.map batchPost

/-- Every post of a batch taken is accounted for once. -/
def OtlpSystem.Balanced (s : OtlpSystem) : Prop := ∀ p, s.ledger.posts.count p = s.accounted.count p

/-! ## The shutdown -/

def Phase.pastSync : Phase → Bool
  | .synced | .flushing _ | .invalidated _ => true
  | _ => false

def Phase.pastFlush : Phase → Bool
  | .flushing _ | .invalidated _ => true
  | _ => false

/-- What `shutdown` has settled in each of its phases. -/
structure OtlpSystem.Draining (s : OtlpSystem) : Prop where
  quiet : s.phase.isRunning = false → s.handoffs = [] ∧ s.timerLive = false
  barrier : s.phase = .waiting → ∃ jobs, s.queue = jobs ++ [.barrier] ∧ .barrier ∉ jobs
  noBarrier : s.phase ≠ .waiting → .barrier ∉ s.queue
  idle : s.phase.pastSync = true → s.queue = [] ∧ s.worker = none
  empty : s.phase.pastFlush = true → s.ledger.exporter.batch = [] ∧ s.ledger.exporter.metricsBatch = []
  alone : s.phase.isRunning = false → s.overlap = false → s.flushes = []
  unheld : ∀ held, s.phase = .invalidated held → s.overlap = false → held = []

theorem draining_init : OtlpSystem.Draining {} where
  quiet h := by cases h
  barrier h := by cases h
  noBarrier _ h := by cases h
  idle h := by cases h
  empty h := by cases h
  alone h := by cases h
  unheld _ h := by cases h

theorem Phase.pastFlush_pastSync {phase : Phase} (h : phase.pastFlush = true) : phase.pastSync = true := by
  cases phase <;> first | rfl | cases h

/-- A queue that takes no new jobs keeps the barrier at its end while its head is run. -/
theorem barrier_tail {queue rest jobs : List Job} {j : Job} (hq : queue = j :: rest)
    (hb : queue = jobs ++ [.barrier]) (hn : .barrier ∉ jobs) (hj : j ≠ .barrier) :
    ∃ jobs', rest = jobs' ++ [.barrier] ∧ .barrier ∉ jobs' := by
  cases jobs with
  | nil =>
      rw [hb] at hq
      exact absurd (List.cons.inj hq).1.symm hj
  | cons k jobs =>
      rw [hb] at hq
      obtain ⟨_, rfl⟩ := List.cons.inj hq
      exact ⟨jobs, rfl, fun h => hn (List.mem_cons_of_mem _ h)⟩

theorem barrier_head {queue rest jobs : List Job} (hq : queue = .barrier :: rest)
    (hb : queue = jobs ++ [.barrier]) (hn : .barrier ∉ jobs) : rest = [] := by
  cases jobs with
  | nil =>
      rw [hb] at hq
      exact (List.cons.inj hq).2.symm
  | cons k jobs =>
      rw [hb] at hq
      obtain ⟨rfl, _⟩ := List.cons.inj hq
      exact absurd List.mem_cons_self hn

/-- Running the head of the queue keeps what the shutdown has settled. -/
theorem OtlpSystem.Draining.pop (h : s.Draining) {j : Job} {rest : List Job} (hq : s.queue = j :: rest)
    (hj : j ≠ .barrier) (ledger : OtlpLedger) (worker : Option (List Post)) :
    OtlpSystem.Draining { s with queue := rest, ledger, worker } := by
  have hpast : s.phase.pastSync = false := by
    cases hp : s.phase.pastSync with
    | false => rfl
    | true => rw [(h.idle hp).1] at hq; cases hq
  refine ⟨h.quiet, fun hw => ?_, fun hw hmem => ?_, fun hp => ?_, fun hp => ?_, h.alone, h.unheld⟩
  · obtain ⟨jobs, hjobs, hn⟩ := h.barrier hw
    exact barrier_tail hq hjobs hn hj
  · exact h.noBarrier hw (hq ▸ List.mem_cons_of_mem _ hmem)
  · exact absurd hp (by simp [hpast])
  · exact absurd (Phase.pastFlush_pastSync hp) (by simp [hpast])

theorem Phase.eq_running {phase : Phase} (h : phase.isRunning = true) : phase = .running := by
  cases phase <;> first | rfl | cases h

theorem draining_of_running (hr : s.phase = .running) (hn : .barrier ∉ s.queue) : s.Draining where
  quiet h := by rw [hr] at h; cases h
  barrier h := by rw [hr] at h; cases h
  noBarrier _ := hn
  idle h := by rw [hr] at h; cases h
  empty h := by rw [hr] at h; cases h
  alone h := by rw [hr] at h; cases h
  unheld _ h := by rw [hr] at h; cases h

theorem OtlpSystem.Draining.running_queue (h : s.Draining) (hr : s.phase = .running) :
    .barrier ∉ s.queue :=
  h.noBarrier (by rw [hr]; simp)

theorem OtlpSystem.Draining.flushes (h : s.Draining) (hf : s.flushes ≠ []) (flushes : List (List Post))
    (posted : List Post) : OtlpSystem.Draining { s with flushes, posted } where
  quiet := h.quiet
  barrier := h.barrier
  noBarrier := h.noBarrier
  idle := h.idle
  empty := h.empty
  alone hr ho := absurd (h.alone hr ho) hf
  unheld := h.unheld

theorem OtlpSystem.Draining.worker (h : s.Draining) (hw : s.worker ≠ none) (worker : Option (List Post))
    (posted : List Post) : OtlpSystem.Draining { s with worker, posted } where
  quiet := h.quiet
  barrier := h.barrier
  noBarrier := h.noBarrier
  idle hp := absurd (h.idle hp).2 hw
  empty := h.empty
  alone := h.alone
  unheld := h.unheld

/-- What `shutdown` has settled stays settled. -/
theorem OtlpSystem.Draining.step (h : s.Draining) (hstep : OtlpSystem.Step cfg s s') : s'.Draining := by
  cases hstep with
  | start hr =>
      have hp := Phase.eq_running hr
      exact draining_of_running hp (h.running_queue hp)
  | reportDrops count => exact ⟨h.quiet, h.barrier, h.noBarrier, h.idle, h.empty, h.alone, h.unheld⟩
  | emitEvent event hr =>
      have hp := Phase.eq_running hr
      exact draining_of_running hp (h.running_queue hp)
  | asyncPost hh =>
      cases hr : s.phase.isRunning with
      | true =>
          have hp := Phase.eq_running hr
          refine draining_of_running hp fun hmem => ?_
          rcases List.mem_append.mp hmem with hmem | hmem
          · exact h.running_queue hp hmem
          · cases List.mem_singleton.mp hmem
      | false =>
          rw [(h.quiet hr).1] at hh
          simp at hh
  | emitSnapshot snapshot hr =>
      have hp := Phase.eq_running hr
      exact draining_of_running hp (h.running_queue hp)
  | flush =>
      refine ⟨h.quiet, h.barrier, h.noBarrier, h.idle, fun _ => ⟨rfl, rfl⟩, fun hr ho => ?_, fun held hp ho => ?_⟩
      · simp [hr] at ho
      · exact h.unheld held hp (Bool.or_eq_false_iff.mp ho).1
  | flushPost hf => exact h.flushes (by rw [hf]; simp) _ _
  | flushReturn hf => exact h.flushes (by rw [hf]; simp) _ _
  | tick ht =>
      cases hr : s.phase.isRunning with
      | true =>
          have hp := Phase.eq_running hr
          refine draining_of_running hp fun hmem => ?_
          rcases List.mem_append.mp hmem with hmem | hmem
          · exact h.running_queue hp hmem
          · cases List.mem_singleton.mp hmem
      | false =>
          rw [(h.quiet hr).2] at ht
          cases ht
  | tickCancelled ht hw hq => exact h.pop hq (by simp) _ _
  | runPost hw hq => exact h.pop hq (by simp) _ _
  | runTimerFlush hw hq => exact h.pop hq (by simp) _ _
  | workerPost hw => exact h.worker (by rw [hw]; simp) _ _
  | workerDone hw => exact h.worker (by rw [hw]; simp) _ _
  | shutdownCancel hr hh =>
      have hp := Phase.eq_running hr
      refine ⟨fun _ => ⟨hh, rfl⟩, nofun, fun _ => h.running_queue hp,
        nofun, nofun, fun _ ho => ?_, nofun⟩
      simpa using (Bool.or_eq_false_iff.mp ho).2
  | shutdownSync hp =>
      have hr : s.phase.isRunning = false := by rw [hp]; rfl
      exact ⟨fun _ => h.quiet hr, fun _ => ⟨s.queue, rfl, h.noBarrier (by rw [hp]; simp)⟩,
        fun hw => absurd rfl hw, nofun, nofun,
        fun _ => h.alone hr, nofun⟩
  | shutdownSynced hp hw hq =>
      have hr : s.phase.isRunning = false := by rw [hp]; rfl
      obtain ⟨jobs, hjobs, hn⟩ := h.barrier hp
      have hrest := barrier_head hq hjobs hn
      refine ⟨fun _ => h.quiet hr, nofun, fun _ => ?_, fun _ => ⟨hrest, hw⟩,
        nofun, fun _ => h.alone hr, nofun⟩
      simp [hrest]
  | shutdownFlush hp =>
      have hr : s.phase.isRunning = false := by rw [hp]; rfl
      have hidle := h.idle (by rw [hp]; rfl)
      refine ⟨fun _ => h.quiet hr, nofun, fun _ => ?_, fun _ => hidle, fun _ => ⟨rfl, rfl⟩,
        fun _ => h.alone hr, nofun⟩
      simp [hidle.1]
  | shutdownPost hp =>
      have hr : s.phase.isRunning = false := by rw [hp]; rfl
      have hidle := h.idle (by rw [hp]; rfl)
      refine ⟨fun _ => h.quiet hr, nofun, fun _ => ?_, fun _ => hidle,
        fun _ => h.empty (by rw [hp]; rfl), fun _ => h.alone hr, nofun⟩
      simp [hidle.1]
  | shutdownDone hp =>
      have hr : s.phase.isRunning = false := by rw [hp]; rfl
      have hidle := h.idle (by rw [hp]; rfl)
      refine ⟨fun _ => h.quiet hr, nofun, fun _ => ?_, fun _ => hidle,
        fun _ => h.empty (by rw [hp]; rfl), fun _ => h.alone hr, fun held hi ho => ?_⟩
      · simp [hidle.1]
      · cases hi
        rw [h.alone hr ho]
        rfl

theorem OtlpSystem.Reachable.draining (h : OtlpSystem.Reachable cfg s) : s.Draining := by
  induction h with
  | init => exact draining_init
  | step _ hstep ih => exact ih.step hstep

/-! ## Every post is accounted for -/

theorem count_accounted (s : OtlpSystem) (p : Post) :
    s.accounted.count p =
      s.posted.count p + (s.worker.getD []).count p + (s.phase.flushPosts s.flushes).count p +
        s.phase.posts.count p + (s.queue.filterMap Job.post?).count p + (s.handoffs.map batchPost).count p := by
  simp only [OtlpSystem.accounted, List.count_append]

theorem balanced_init : OtlpSystem.Balanced {} := fun _ => rfl

theorem flushPosts_live {phase : Phase} (h : phase.isLive = true) (flushes : List (List Post)) :
    phase.flushPosts flushes = flushes.flatten := by
  cases phase with
  | invalidated held => cases h
  | _ => rfl

theorem Phase.not_live {phase : Phase} (h : phase.isLive = false) : ∃ held, phase = .invalidated held := by
  cases phase with
  | invalidated held => exact ⟨held, rfl⟩
  | _ => cases h

theorem takeAll_empty {l : OtlpLedger} (hb : l.exporter.batch = []) (hm : l.exporter.metricsBatch = []) :
    l.takeAll.2 = [] := by
  simp [OtlpLedger.takeAll, OtlpExporter.takeAll, takenPosts, hb, hm]

theorem count_flushPosts_flush (hd : s.Draining) (p : Post) :
    (s.phase.flushPosts (s.flushes ++ [s.ledger.takeAll.2])).count p =
      (s.phase.flushPosts s.flushes).count p + s.ledger.takeAll.2.count p := by
  cases hl : s.phase.isLive with
  | true => simp [flushPosts_live hl]
  | false =>
      obtain ⟨held, hp⟩ := Phase.not_live hl
      obtain ⟨hb, hm⟩ := hd.empty (by rw [hp]; rfl)
      simp [hp, Phase.flushPosts, takeAll_empty hb hm]

/-- A call of `flush` makes a post, or the session no longer takes it. -/
theorem count_flushPosts_post (phase : Phase) (pre post : List (List Post)) (q : Post)
    (posts posted : List Post) (p : Post) :
    (if phase.isLive then posted ++ [q] else posted).count p +
        (phase.flushPosts (pre ++ posts :: post)).count p =
      posted.count p + (phase.flushPosts (pre ++ (q :: posts) :: post)).count p := by
  cases hl : phase.isLive with
  | true =>
      simp only [flushPosts_live hl, if_true, List.flatten_append, List.flatten_cons, List.cons_append,
        List.count_append, List.count_cons, List.count_nil]
      omega
  | false =>
      obtain ⟨held, rfl⟩ := Phase.not_live hl
      rfl

theorem flushPosts_return (phase : Phase) (pre post : List (List Post)) :
    phase.flushPosts (pre ++ [] :: post) = phase.flushPosts (pre ++ post) := by
  cases hl : phase.isLive with
  | true => simp [flushPosts_live hl]
  | false =>
      obtain ⟨held, rfl⟩ := Phase.not_live hl
      rfl

theorem OtlpSystem.Balanced.step (h : s.Balanced) (hd : s.Draining) (hstep : OtlpSystem.Step cfg s s') :
    s'.Balanced := by
  intro p
  have hp := h p
  rw [count_accounted] at hp ⊢
  cases hstep with
  | start hr => exact hp
  | reportDrops count => exact hp
  | emitEvent event hr =>
      simp only [posts_emitEvent, List.map_append, List.count_append]
      rw [hp]
      exact Nat.add_assoc _ _ _
  | @asyncPost pre t post hh =>
      simp only [hh, List.map_append, List.map_cons, List.count_append, List.count_cons] at hp
      have hjob : Job.post? (.post t.1 t.2) = some (batchPost t) := rfl
      simp only [List.map_append, List.filterMap_append, List.filterMap_cons, List.filterMap_nil, hjob,
        List.count_append, List.count_cons, List.count_nil]
      omega
  | emitSnapshot snapshot hr => rw [posts_emitSnapshot]; exact hp
  | flush =>
      simp only [posts_takeAll, count_flushPosts_flush hd]
      omega
  | @flushPost pre q posts post hf =>
      have hpost := count_flushPosts_post s.phase pre post q posts s.posted p
      simp only [hf] at hp ⊢
      omega
  | flushReturn hf => rw [hf, flushPosts_return] at hp; exact hp
  | tick ht =>
      simp only [List.filterMap_append, List.filterMap_cons, List.filterMap_nil, Job.post?, List.append_nil]
      exact hp
  | tickCancelled ht hw hq =>
      rw [hq] at hp
      exact hp
  | runPost hw hq =>
      simp only [hq, hw, List.filterMap_cons, Job.post?, List.count_cons, Option.getD_none,
        List.count_nil] at hp
      simp only [Option.getD_some, List.count_cons, List.count_nil]
      omega
  | runTimerFlush hw hq =>
      simp only [hq, hw, List.filterMap_cons, Job.post?, Option.getD_none, List.count_nil] at hp
      simp only [posts_takeAll, Option.getD_some]
      omega
  | workerPost hw =>
      simp only [hw, Option.getD_some, List.count_cons] at hp
      simp only [Option.getD_some, List.count_append, List.count_cons, List.count_nil]
      omega
  | workerDone hw => rw [hw] at hp; exact hp
  | shutdownCancel hr hh =>
      rw [Phase.eq_running hr] at hp
      exact hp
  | shutdownSync hph =>
      rw [hph] at hp
      simp only [List.filterMap_append, List.filterMap_cons, List.filterMap_nil, Job.post?, List.append_nil]
      exact hp
  | shutdownSynced hph hw hq =>
      rw [hph, hq] at hp
      exact hp
  | shutdownFlush hph =>
      rw [hph] at hp
      simp only [posts_takeAll, Phase.posts, Phase.flushPosts, List.count_nil] at hp ⊢
      omega
  | shutdownPost hph =>
      rw [hph] at hp
      simp only [Phase.posts, Phase.flushPosts, List.count_append, List.count_cons, List.count_nil] at hp ⊢
      omega
  | shutdownDone hph =>
      rw [hph] at hp
      exact hp

theorem OtlpSystem.Reachable.balanced (h : OtlpSystem.Reachable cfg s) : s.Balanced := by
  induction h with
  | init => exact balanced_init
  | step hs hstep ih => exact ih.step hs.draining hstep

/-- Once the session is invalidated, only calls of `flush` hold posts that were not made. -/
theorem OtlpSystem.Reachable.drained (h : OtlpSystem.Reachable cfg s) {held : List Post}
    (hi : s.phase = .invalidated held) : s.ledger.posts.Perm (s.posted ++ held) := by
  have hd := h.draining
  have hidle := hd.idle (by rw [hi]; rfl)
  have hquiet := hd.quiet (by rw [hi]; rfl)
  refine List.perm_iff_count.mpr fun p => ?_
  rw [h.balanced p, count_accounted, hi, hidle.1, hidle.2, hquiet.1, List.count_append]
  rfl

end ObservableBSD.Export
