import ObservableBSD.Base.Splits
import ObservableBSD.Export.Otlp

/-!
# Conservation over the sections of the exporter
-/

namespace ObservableBSD.Export

open Base

variable {cfg : OtlpConfig}

theorem otlpRun_concat (cfg : OtlpConfig) (calls : List OtlpCall) (c : OtlpCall) :
    otlpRun cfg (calls ++ [c]) = (otlpRun cfg calls).call cfg c := by
  simp [otlpRun]

/-- The sections of `flush` and `timerFlush`. -/
def OtlpCall.takesAll : OtlpCall → Bool
  | .timerFlush | .flush => true
  | _ => false

/-! ## Records and snapshots -/

/-- What was taken and what is still in the batches is what was emitted, in this order, and no batch of
log records outgrows the batch size. -/
structure OtlpLedger.Exact (cfg : OtlpConfig) (l : OtlpLedger) : Prop where
  logs : l.taken.flatMap (·.1) ++ l.exporter.batch = l.events.filterMap (logRecord? cfg)
  metrics : l.takenMetrics.flatten ++ l.exporter.metricsBatch =
    l.snapshots.filter fun s => s.dataPoints ≠ []
  pending : (l.exporter.batch.length : Int) < max 1 cfg.batchSize
  sizes : ∀ t ∈ l.taken, (t.1.length : Int) ≤ max 1 cfg.batchSize

theorem exact_init (cfg : OtlpConfig) : OtlpLedger.Exact cfg {} where
  logs := rfl
  metrics := rfl
  pending := by
    show (0 : Int) < max 1 cfg.batchSize
    omega
  sizes := fun t ht => by cases ht

theorem OtlpLedger.Exact.emitEvent {l : OtlpLedger} (h : l.Exact cfg) (event : ProbeEvent) :
    (l.emitEvent cfg event).1.Exact cfg := by
  have hpending := h.pending
  unfold OtlpLedger.emitEvent
  cases hr : logRecord? cfg event with
  | none =>
      refine ⟨?_, h.metrics, h.pending, h.sizes⟩
      simp only [List.filterMap_append, List.filterMap_cons, hr, List.filterMap_nil, List.append_nil]
      exact h.logs
  | some record =>
      have hevents : (l.events ++ [event]).filterMap (logRecord? cfg) =
          l.taken.flatMap (·.1) ++ l.exporter.batch ++ [record] := by
        rw [List.filterMap_append, ← h.logs]
        simp [hr]
      simp only [OtlpExporter.append]
      split
      · refine ⟨?_, h.metrics, ?_, ?_⟩
        · simp [hevents, List.flatMap_append]
        · show (0 : Int) < max 1 cfg.batchSize
          omega
        · intro t ht
          rcases List.mem_append.mp ht with ht | ht
          · exact h.sizes t ht
          · obtain rfl := List.mem_singleton.mp ht
            simp only [List.length_append, List.length_singleton]
            omega
      · rename_i hlt
        refine ⟨?_, h.metrics, ?_, ?_⟩
        · simp [hevents]
        · show ((l.exporter.batch ++ [record]).length : Int) < max 1 cfg.batchSize
          omega
        · simpa using h.sizes

theorem OtlpLedger.Exact.emitSnapshot {l : OtlpLedger} (h : l.Exact cfg) (snapshot : AggregationSnapshot) :
    (l.emitSnapshot snapshot).Exact cfg := by
  unfold OtlpLedger.emitSnapshot
  by_cases hs : snapshot.dataPoints = []
  · simp only [hs, if_pos]
    refine ⟨h.logs, ?_, h.pending, h.sizes⟩
    simp only [List.filter_append]
    rw [← h.metrics]
    simp [hs]
  · simp only [if_neg hs]
    refine ⟨h.logs, ?_, h.pending, h.sizes⟩
    simp only [List.filter_append, OtlpExporter.appendSnapshot]
    rw [← h.metrics]
    simp [hs]

theorem OtlpLedger.Exact.takeAll {l : OtlpLedger} (h : l.Exact cfg) : l.takeAll.1.Exact cfg where
  logs := by simpa [OtlpLedger.takeAll, OtlpExporter.takeAll] using h.logs
  metrics := by simpa [OtlpLedger.takeAll, OtlpExporter.takeAll] using h.metrics
  pending := by
    show (0 : Int) < max 1 cfg.batchSize
    omega
  sizes := by
    have hpending := h.pending
    intro t ht
    rcases List.mem_append.mp ht with ht | ht
    · exact h.sizes t ht
    · obtain rfl := List.mem_singleton.mp ht
      exact Int.le_of_lt hpending

/-! ## Drops -/

/-- Every reported drop was handed out with a batch or is still pending. -/
def OtlpLedger.DropsConserved (l : OtlpLedger) : Prop :=
  handedDrops l.taken + l.exporter.pendingDrops = l.reported

/-- The pending drops that the section of a call resets although the batch it takes is empty. -/
def OtlpLedger.dropsLost (l : OtlpLedger) (c : OtlpCall) : Nat :=
  if c.takesAll ∧ l.exporter.batch = [] then l.exporter.pendingDrops else 0

theorem handedDrops_append (taken taken' : List (List LogRecord × Nat)) :
    handedDrops (taken ++ taken') = handedDrops taken + handedDrops taken' := by
  induction taken with
  | nil => simp [handedDrops]
  | cons t taken ih => rw [List.cons_append, handedDrops, handedDrops, ih, Nat.add_assoc]

theorem call_drops (cfg : OtlpConfig) (l : OtlpLedger) (c : OtlpCall) :
    (l.call cfg c).reported + (handedDrops l.taken + l.exporter.pendingDrops) =
      l.reported + (handedDrops (l.call cfg c).taken + (l.call cfg c).exporter.pendingDrops) +
        l.dropsLost c := by
  cases c with
  | reportDrops count =>
      simp [OtlpLedger.call, OtlpLedger.reportDrops, OtlpExporter.reportDrops, OtlpLedger.dropsLost,
        OtlpCall.takesAll]
      omega
  | emitEvent event =>
      simp only [OtlpLedger.call, OtlpLedger.emitEvent, OtlpLedger.dropsLost, OtlpCall.takesAll]
      cases logRecord? cfg event with
      | none => simp
      | some record =>
          simp only [OtlpExporter.append]
          split
          · simp [handedDrops_append, handedDrops]
          · simp
  | emitSnapshot snapshot =>
      simp only [OtlpLedger.call, OtlpLedger.emitSnapshot, OtlpLedger.dropsLost, OtlpCall.takesAll]
      split <;> simp [OtlpExporter.appendSnapshot]
  | timerFlush | flush =>
      simp only [OtlpLedger.call, OtlpLedger.takeAll, OtlpExporter.takeAll, OtlpLedger.dropsLost,
        OtlpCall.takesAll, handedDrops_append, handedDrops]
      by_cases hb : l.exporter.batch = []
      · simp [hb]; omega
      · simp [hb]

theorem drops_le (cfg : OtlpConfig) (calls : List OtlpCall) :
    handedDrops (otlpRun cfg calls).taken + (otlpRun cfg calls).exporter.pendingDrops ≤
      (otlpRun cfg calls).reported := by
  induction calls using List.reverseRecOn with
  | nil => simp [otlpRun, handedDrops]
  | append_singleton calls c ih =>
      have hcall := call_drops cfg (otlpRun cfg calls) c
      rw [otlpRun_concat]
      omega

/-- No call of `flush` or `timerFlush` finds an empty log batch while drops are pending. -/
def FlushesCarryDrops (cfg : OtlpConfig) (calls : List OtlpCall) : Prop :=
  ∀ pre c post, calls = pre ++ c :: post → c.takesAll = true → (otlpRun cfg pre).exporter.batch = [] →
    (otlpRun cfg pre).exporter.pendingDrops = 0

theorem dropsLost_eq_zero {l : OtlpLedger} {c : OtlpCall} : l.dropsLost c = 0 ↔
    (c.takesAll = true → l.exporter.batch = [] → l.exporter.pendingDrops = 0) := by
  unfold OtlpLedger.dropsLost
  split
  · rename_i h
    simp [h.1, h.2]
  · rename_i h
    exact ⟨fun _ ht hb => absurd ⟨ht, hb⟩ h, fun _ => rfl⟩

theorem flushesCarryDrops_concat {calls : List OtlpCall} {c : OtlpCall} :
    FlushesCarryDrops cfg (calls ++ [c]) ↔
      FlushesCarryDrops cfg calls ∧ (otlpRun cfg calls).dropsLost c = 0 := by
  rw [dropsLost_eq_zero]
  exact forall_split_concat

end ObservableBSD.Export
