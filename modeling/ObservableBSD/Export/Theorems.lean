import ObservableBSD.Export.Lemmas.Collector
import ObservableBSD.Export.Lemmas.Driver
import ObservableBSD.Export.Lemmas.Jsonl
import ObservableBSD.Export.Lemmas.Metrics
import ObservableBSD.Export.Lemmas.System

/-!
# What the exporter keeps

Drops over the lock-protected sections, in any order, and telemetry over the runs of the exporter's
threads, up to and after the shutdown.
-/

namespace ObservableBSD.Export

open Base

variable {cfg : OtlpConfig} {s : OtlpSystem}

/-! ## Drops -/

/-- Exactly the flushes of an empty log batch lose drops: those pending then. -/
theorem drops_conserved_iff (cfg : OtlpConfig) (calls : List OtlpCall) :
    (otlpRun cfg calls).DropsConserved ↔ FlushesCarryDrops cfg calls := by
  unfold OtlpLedger.DropsConserved
  induction calls using List.reverseRecOn with
  | nil =>
      refine ⟨fun _ pre c post h => ?_, fun _ => rfl⟩
      cases pre <;> cases h
  | append_singleton calls c ih =>
      have hcall := call_drops cfg (otlpRun cfg calls) c
      have hbefore := drops_le cfg calls
      have hafter := drops_le cfg (calls ++ [c])
      rw [flushesCarryDrops_concat, ← ih]
      rw [otlpRun_concat] at hafter ⊢
      omega

/-- Five drops are reported, and the timer fires before the next record. -/
theorem timerFlush_loses_drops :
    ¬ (otlpRun { scopeName := [], profileName := [] } [.reportDrops 5, .timerFlush]).DropsConserved := by
  unfold OtlpLedger.DropsConserved
  decide

/-! ## Records and snapshots -/

theorem OtlpSystem.Balanced.mem_posts (h : s.Balanced) {p : Post} (hp : p ∈ s.posted) : p ∈ s.ledger.posts := by
  have hcount := List.count_pos_iff.mpr hp
  have hle := h p
  rw [count_accounted] at hle
  exact List.count_pos_iff.mp (by omega)

theorem OtlpLedger.Exact.post_size {l : OtlpLedger} (h : l.Exact cfg) {records : List LogRecord} {drops : Nat}
    (hp : .logs records drops ∈ l.posts) :
    1 ≤ records.length ∧ (records.length : Int) ≤ max 1 cfg.batchSize := by
  rcases List.mem_append.mp hp with hp | hp
  · obtain ⟨t, ht, heq⟩ := List.mem_map.mp hp
    cases heq
    obtain ⟨hmem, hne⟩ := List.mem_filter.mp ht
    exact ⟨List.length_pos_iff.mpr (by simpa using hne), h.sizes t hmem⟩
  · obtain ⟨m, _, heq⟩ := List.mem_map.mp hp
    cases heq

/-- Nothing is lost, duplicated or reordered, and `shutdown` leaves nothing behind but the posts of
calls of `flush` that it overlaps. -/
theorem telemetry_conserved (h : OtlpSystem.Reachable cfg s) :
    s.ledger.taken.flatMap (·.1) ++ s.ledger.exporter.batch = s.ledger.events.filterMap (logRecord? cfg) ∧
      s.ledger.takenMetrics.flatten ++ s.ledger.exporter.metricsBatch =
        s.ledger.snapshots.filter (fun snapshot => snapshot.dataPoints ≠ []) ∧
      (∀ records drops, .logs records drops ∈ s.posted →
        1 ≤ records.length ∧ (records.length : Int) ≤ max 1 cfg.batchSize) ∧
      ∀ held, s.phase = .invalidated held →
        s.ledger.exporter.batch = [] ∧ s.ledger.exporter.metricsBatch = [] ∧
          s.ledger.posts.Perm (s.posted ++ held) ∧ (s.overlap = false → held = []) := by
  have hexact := h.exact
  refine ⟨hexact.logs, hexact.metrics, fun records drops hp => ?_, fun held hi => ?_⟩
  · exact hexact.post_size (h.balanced.mem_posts hp)
  · obtain ⟨hbatch, hmetrics⟩ := h.draining.empty (by rw [hi]; rfl)
    exact ⟨hbatch, hmetrics, h.drained hi, h.draining.unheld held hi⟩

def lineEvent : ProbeEvent where
  timestamp := 0
  profileName := []
  probeName := []
  pid := 0
  execname := []
  printfBody := some ['x']

/-- Its record is taken alone, put on the queue, posted; then `shutdown`. -/
theorem shutdown_after_post : ∃ s, OtlpSystem.Reachable { scopeName := [], profileName := [], batchSize := 1 } s ∧
    s.phase = .invalidated [] ∧ s.ledger.events = [lineEvent] ∧ s.ledger.posts.Perm s.posted := by
  have h : OtlpSystem.Reachable { scopeName := [], profileName := [], batchSize := 1 } {} := .init
  have h := h.step (.emitEvent lineEvent rfl)
  have h := h.step (.asyncPost (show _ = [] ++ _ :: [] from rfl))
  have h := h.step (.runPost rfl rfl)
  have h := h.step (.workerPost rfl)
  have h := h.step (.workerDone rfl)
  have h := h.step (.shutdownCancel rfl rfl)
  have h := h.step (.shutdownSync rfl)
  have h := h.step (.shutdownSynced rfl rfl rfl)
  have h := h.step (.shutdownFlush rfl)
  have h := h.step (.shutdownDone rfl)
  refine ⟨_, h, rfl, rfl, ?_⟩
  have hall := (telemetry_conserved h).2.2.2 [] rfl
  simpa using hall.2.2.1

/-- A call of `flush` has taken the only batch and is not yet at `postBatch` when another thread calls
`shutdown`. -/
theorem shutdown_overtakes_flush : ∃ s held, OtlpSystem.Reachable { scopeName := [], profileName := [] } s ∧
    s.phase = .invalidated held ∧ s.posted = [] ∧ s.ledger.posts ≠ [] := by
  have h : OtlpSystem.Reachable { scopeName := [], profileName := [] } {} := .init
  have h := h.step (.emitEvent lineEvent rfl)
  have h := h.step .flush
  have h := h.step (.shutdownCancel rfl rfl)
  have h := h.step (.shutdownSync rfl)
  have h := h.step (.shutdownSynced rfl rfl rfl)
  have h := h.step (.shutdownFlush rfl)
  have h := h.step (.shutdownDone rfl)
  exact ⟨_, _, h, rfl, rfl, nofun⟩

/-! ## Documents -/

/-- A consumer of the log document reads the attributes of the resource and every record, in order, with
the drops in a last attribute of the first record when there are any. -/
theorem logs_roundtrip (doubleText : UInt64 → Text) (scopeName : Text) (resource : ResourceAttributes)
    {records : List LogRecord} (h : ∀ record ∈ records, record.NoDoubles) (drops : UInt64) :
    readLogs (buildEnvelope doubleText scopeName resource records drops) =
      some { resource := resourceMeant resource
             scopeName
             scopeVersion := resource.serviceVersion
             items := withDrops scopeName drops (records.map LogRecord.meant) } := by
  have hrecords : ((withDrops scopeName drops (records.map LogRecord.meant)).map recordObject).mapM
      readRecord = some (withDrops scopeName drops (records.map LogRecord.meant)) := by
    have hmap := mapM_map_some fun record hrecord =>
      readRecord_object (withDrops_strings h scopeName drops record hrecord)
    rwa [List.map_id'] at hmap
  have hscopes : text "scopeLogs" ≠ text "resource" := by decide
  have hitems : text "logRecords" ≠ text "scope" := by decide
  rw [readLogs, ← render_logs doubleText scopeName resource h, Json.parse_render,
    Option.bind_eq_bind, Option.bind_some]
  exact readEnvelope_object hscopes hitems scopeName resource hrecords

private def hostResource : ResourceAttributes :=
  { serviceName := text "dtrace", hostName := text "host\n1", osName := text "FreeBSD",
    osVersion := text "15.0", serviceVersion := text "1.0", custom := [(text "a\"b", text "c\\d")] }

private def quotedRecord : LogRecord :=
  { timeUnixNano := 7, severityNumber := 9, body := text "open(\"/etc\")\n",
    attributes := [(text "process.pid", .int (-1))] }

theorem logs_roundtrip_drops :
    readLogs (buildEnvelope (fun _ => []) (text "scope") hostResource [quotedRecord, quotedRecord] 3) =
      some { resource := resourceMeant hostResource
             scopeName := text "scope"
             scopeVersion := text "1.0"
             items := [
              { timeUnixNano := 7, observedTimeUnixNano := 7, severityNumber := 9,
                body := text "open(\"/etc\")\n",
                attributes := [(text "process.pid", .int (-1)), (text "scope.drops", .int 3)] },
              { timeUnixNano := 7, observedTimeUnixNano := 7, severityNumber := 9,
                body := text "open(\"/etc\")\n", attributes := [(text "process.pid", .int (-1))] }] } := by
  refine (logs_roundtrip (fun _ => []) (text "scope") hostResource ?_ 3).trans (by decide)
  decide

/-- A consumer of the metrics document reads one metric for each snapshot, in order, with a point for each
of its data points. -/
theorem metrics_roundtrip (scopeName : Text) (resource : ResourceAttributes)
    {snapshots : List AggregationSnapshot} (h : ∀ snapshot ∈ snapshots, snapshot.Matches) :
    ∃ document metrics, buildMetricsEnvelope scopeName resource snapshots = some document ∧
      readMetrics document =
        some { resource := resourceMeant resource
               scopeName
               scopeVersion := resource.serviceVersion
               items := metrics } ∧
      List.Forall₂ (MetricOf scopeName) snapshots metrics := by
  have hmetrics : ((snapshots.map (metricMeant scopeName)).map metricObject).mapM readMetric =
      some (snapshots.map (metricMeant scopeName)) := by
    have hread : ∀ metric ∈ snapshots.map (metricMeant scopeName),
        readMetric (metricObject metric) = some metric := by
      intro metric hmetric
      obtain ⟨snapshot, _, rfl⟩ := List.mem_map.mp hmetric
      exact readMetric_object (dataMeant_noDoubles snapshot)
    have hmap := mapM_map_some hread
    rwa [List.map_id'] at hmap
  have hscopes : text "scopeMetrics" ≠ text "resource" := by decide
  have hitems : text "metrics" ≠ text "scope" := by decide
  refine ⟨_, snapshots.map (metricMeant scopeName), render_metrics resource h, ?_, ?_⟩
  · rw [readMetrics, Json.parse_render, Option.bind_eq_bind, Option.bind_some]
    exact readEnvelope_object hscopes hitems scopeName resource hmetrics
  · rw [List.forall₂_map_right_iff, List.forall₂_same]
    exact fun snapshot hmem => metricOf_meant scopeName (h snapshot hmem)

private def latencyBuckets : List HistogramBucket := [⟨4, 1⟩, ⟨1, 5⟩, ⟨2, 10⟩]

private def latency : AggregationSnapshot :=
  { timestamp := 1000, profileName := text "iolatency", aggregationName := [], kind := .quantize,
    dataPoints := [{ keys := [text "sh\"1"], attributes := [], value := .histogram latencyBuckets }] }

private def opens : AggregationSnapshot :=
  { timestamp := -1, profileName := text "open", aggregationName := text "opens", kind := .count,
    dataPoints := [{ keys := [], attributes := [(text "cpu", text "3")], value := .scalar 7 }] }

/-- A histogram whose buckets are not in order, and a counter. -/
theorem metrics_roundtrip_quantize : ∃ document metrics,
    buildMetricsEnvelope (text "scope") hostResource [latency, opens] = some document ∧
      readMetrics document =
        some { resource := resourceMeant hostResource
               scopeName := text "scope"
               scopeVersion := hostResource.serviceVersion
               items := metrics } ∧
      List.Forall₂ (MetricOf (text "scope")) [latency, opens] metrics := by
  apply metrics_roundtrip (text "scope") hostResource
  intro snapshot hmem
  rcases List.mem_cons.mp hmem with rfl | hmem
  · intro dp hdp
    obtain rfl := List.mem_singleton.mp hdp
    exact ⟨latencyBuckets, rfl, by decide, .of_counts (by decide) (by decide)⟩
  · obtain rfl := List.mem_singleton.mp hmem
    intro dp hdp
    obtain rfl := List.mem_singleton.mp hdp
    exact ⟨7, rfl⟩

/-- Each event with a body is written as one line that says it, and a consumer that splits the output at
the newlines reads these events back, in order. -/
theorem jsonl_roundtrip (timestampFormatter : Int → Text) (events : List ProbeEvent) :
    (∀ event ∈ events, LineOf timestampFormatter event (emitLine timestampFormatter event)) ∧
      (splitLines (jsonlOutput timestampFormatter events)).mapM readEvent =
        some (events.filterMap (ProbeEvent.meant timestampFormatter)) := by
  refine ⟨fun event _ => lineOf_emitLine timestampFormatter event, ?_⟩
  have hread : ((events.filterMap (ProbeEvent.meant timestampFormatter)).map fun said =>
      Json.Escaper.render swift (eventObject said)).mapM readEvent = _ :=
    mapM_map_some fun said _ => readEvent_object said
  rw [splitLines_output, hread, List.map_id']

/-! ## Results about the calls of one thread -/

variable {cfg : OtlpConfig} {calls : List OtlpCall} {s : OtlpSystem}

end ObservableBSD.Export
