import Mathlib.Algebra.Order.BigOperators.Group.List
import Mathlib.Algebra.Order.Group.Nat
import ObservableBSD.Export.Collector
import ObservableBSD.Export.Lemmas.Driver
import ObservableBSD.Export.Lemmas.Metrics

/-!
# What the collector stores
-/

namespace ObservableBSD.Export

variable {cfg : OtlpConfig} {scopeName : Text}

/-! ## One document -/

/-- The records of a post as a consumer reads them. -/
def Post.logsMeant (scopeName : Text) : Post → List OtlpRecord
  | .logs records drops => withDrops scopeName (UInt64.ofNat drops) (records.map LogRecord.meant)
  | .metrics _ => []

/-- The document of a post can be built and read. -/
structure Post.Sound (p : Post) : Prop where
  records : ∀ record ∈ p.records, record.NoDoubles
  snapshots : ∀ snapshot ∈ p.snapshots, snapshot.Matches
  drops : p.drops < 2 ^ 64

theorem receive_request (doubleText : UInt64 → Text) (scopeName : Text) (resource : ResourceAttributes) (c : Collected)
    {p : Post} (h : p.Sound) : ∃ request, p.request doubleText scopeName resource = some request ∧
      c.receive request = some
        { logs := c.logs ++ p.logsMeant scopeName
          metrics := c.metrics ++ p.snapshots.map (metricMeant scopeName) } := by
  cases p with
  | logs records drops =>
      refine ⟨_, if_pos h.drops, ?_⟩
      have hread : ((withDrops scopeName (UInt64.ofNat drops) (records.map LogRecord.meant)).map recordObject).mapM
          readRecord = some (withDrops scopeName (UInt64.ofNat drops) (records.map LogRecord.meant)) := by
        have hmap := mapM_map_some fun record hrecord =>
          readRecord_object (withDrops_strings h.records scopeName (UInt64.ofNat drops) record hrecord)
        rwa [List.map_id'] at hmap
      have hscopes : text "scopeLogs" ≠ text "resource" := by decide
      have hitems : text "logRecords" ≠ text "scope" := by decide
      have hdocument := render_logs doubleText scopeName resource h.records (UInt64.ofNat drops)
      simp only [Post.records] at hdocument
      rw [Collected.receive, if_pos rfl, readLogs]
      dsimp only
      rw [← hdocument, Json.parse_render, Option.bind_eq_bind, Option.bind_some,
        readEnvelope_object hscopes hitems scopeName resource hread]
      simp [Post.logsMeant, Post.snapshots]
  | metrics snapshots =>
      have hread : ((snapshots.map (metricMeant scopeName)).map metricObject).mapM readMetric =
          some (snapshots.map (metricMeant scopeName)) := by
        rw [List.map_map]
        exact mapM_map_some fun snapshot _ => readMetric_object (dataMeant_noDoubles snapshot)
      have hscopes : text "scopeMetrics" ≠ text "resource" := by decide
      have hitems : text "metrics" ≠ text "scope" := by decide
      have hpath : text "v1/metrics" ≠ text "v1/logs" := by decide
      have hmatches : ∀ snapshot ∈ snapshots, snapshot.Matches := h.snapshots
      refine ⟨_, by rw [Post.request, render_metrics resource hmatches, Option.map_some], ?_⟩
      rw [Collected.receive, if_neg hpath, if_pos rfl, readMetrics, Json.parse_render, Option.bind_eq_bind,
        Option.bind_some, readEnvelope_object hscopes hitems scopeName resource hread]
      simp [Post.logsMeant, Post.snapshots]

/-! ## All documents -/

theorem foldlM_receive (doubleText : UInt64 → Text) (scopeName : Text) (resource : ResourceAttributes)
    {posts : List Post} (h : ∀ p ∈ posts, p.Sound) (c : Collected) :
    ∃ requests, posts.mapM (Post.request doubleText scopeName resource) = some requests ∧
      requests.foldlM Collected.receive c = some
        { logs := c.logs ++ posts.flatMap (Post.logsMeant scopeName)
          metrics := c.metrics ++ (posts.flatMap Post.snapshots).map (metricMeant scopeName) } := by
  induction posts generalizing c with
  | nil => exact ⟨[], rfl, by simp⟩
  | cons p posts ih =>
      obtain ⟨request, hrequest, hreceive⟩ :=
        receive_request doubleText scopeName resource c (h p List.mem_cons_self)
      obtain ⟨requests, hrequests, hrest⟩ := ih (fun q hq => h q (List.mem_cons_of_mem _ hq))
        { logs := c.logs ++ p.logsMeant scopeName, metrics := c.metrics ++ p.snapshots.map (metricMeant scopeName) }
      refine ⟨request :: requests, ?_, ?_⟩
      · rw [List.mapM_cons, hrequest, hrequests]
        rfl
      · rw [List.foldlM_cons, hreceive, Option.bind_eq_bind, Option.bind_some, hrest]
        simp

/-! ## Drops -/

/-- The attributes of the record are not the one that reports drops. -/
def LogRecord.Plain (scopeName : Text) (record : LogRecord) : Prop :=
  ∀ attr ∈ record.attributes, attr.1 ≠ scopeName ++ text ".drops"

theorem meant_withoutDrops {record : LogRecord} (h : record.Plain scopeName) :
    record.meant.withoutDrops scopeName = record.meant := by
  have hkeep : ∀ attr ∈ record.meant.attributes, attr.1 ≠ scopeName ++ text ".drops" := by
    intro attr hattr
    obtain ⟨attr, hmem, rfl⟩ := List.mem_map.1 hattr
    exact h attr hmem
  rw [OtlpRecord.withoutDrops, List.filter_eq_self.2 (by simpa using hkeep)]

theorem meant_dropsAttributes {record : LogRecord} (h : record.Plain scopeName) :
    record.meant.attributes.filter (fun attr => attr.1 = scopeName ++ text ".drops") = [] := by
  refine List.filter_eq_nil_iff.2 fun attr hattr => ?_
  obtain ⟨attr, hmem, rfl⟩ := List.mem_map.1 hattr
  simpa using h attr hmem

theorem meant_reportedDrops {record : LogRecord} (h : record.Plain scopeName) :
    record.meant.reportedDrops scopeName = 0 := by
  rw [OtlpRecord.reportedDrops, meant_dropsAttributes h]
  rfl

theorem withDrops_withoutDrops (record : OtlpRecord) (drops : UInt64) :
    (record.withDrops scopeName drops).withoutDrops scopeName = record.withoutDrops scopeName := by
  unfold OtlpRecord.withDrops OtlpRecord.withoutDrops dropsAttributes
  split <;> simp

theorem withDrops_reportedDrops {record : LogRecord} (h : record.Plain scopeName) (drops : UInt64) :
    (record.meant.withDrops scopeName drops).reportedDrops scopeName = drops.toNat := by
  have hnone := meant_dropsAttributes h
  unfold OtlpRecord.reportedDrops OtlpRecord.withDrops dropsAttributes
  rw [List.filter_append, hnone, List.nil_append]
  split
  · simp [OtlpValue.int?, total]
  · rename_i hzero
    have : drops = 0 := by simpa using hzero
    rw [this]
    rfl

theorem total_append (counts counts' : List Int) : total (counts ++ counts') = total counts + total counts' := by
  induction counts with
  | nil => simp [total]
  | cons count counts ih =>
      simp only [total, List.cons_append, List.foldr_cons] at ih ⊢
      rw [ih, Int.add_assoc]

theorem total_reportedDrops {records : List LogRecord} (h : ∀ record ∈ records, record.Plain scopeName) :
    total ((records.map LogRecord.meant).map (OtlpRecord.reportedDrops scopeName)) = 0 := by
  induction records with
  | nil => rfl
  | cons record records ih =>
      have hrest := ih fun r hr => h r (List.mem_cons_of_mem _ hr)
      simp only [List.map_cons, total, List.foldr_cons] at hrest ⊢
      rw [hrest, meant_reportedDrops (h record List.mem_cons_self), Int.add_zero]

/-- The documents of a post hold its records, and report its drops at most. -/
theorem logsMeant_plain {p : Post} (h : ∀ record ∈ p.records, record.Plain scopeName) (hdrops : p.drops < 2 ^ 64) :
    (p.logsMeant scopeName).map (OtlpRecord.withoutDrops scopeName) = p.records.map LogRecord.meant ∧
      total ((p.logsMeant scopeName).map (OtlpRecord.reportedDrops scopeName)) ≤ p.drops := by
  cases p with
  | metrics snapshots => exact ⟨rfl, Int.le_refl 0⟩
  | logs records drops =>
      have hdrops' : (UInt64.ofNat drops).toNat = drops := UInt64.toNat_ofNat_of_lt' hdrops
      cases records with
      | nil => exact ⟨rfl, Int.natCast_nonneg _⟩
      | cons record records =>
          have hrecord := h record List.mem_cons_self
          have hrecords : ∀ r ∈ records, r.Plain scopeName := fun r hr => h r (List.mem_cons_of_mem _ hr)
          constructor
          · simp only [Post.logsMeant, List.map_cons, withDrops, withDrops_withoutDrops, meant_withoutDrops hrecord,
              Post.records, List.map_map]
            congr 1
            exact List.map_congr_left fun r hr => meant_withoutDrops (hrecords r hr)
          · have hrest := total_reportedDrops hrecords
            simp only [Post.logsMeant, List.map_cons, withDrops, total, List.foldr_cons,
              withDrops_reportedDrops hrecord, hdrops'] at hrest ⊢
            rw [hrest, Int.add_zero]
            exact Int.le_refl _

/-! ## The end of a run -/

theorem ne_drops_of_getLast? {key : Text} (h : key.getLast? ≠ some 's') : key ≠ scopeName ++ text ".drops" := by
  rintro rfl
  rw [List.getLast?_append] at h
  exact h rfl

theorem logRecord?_plain {event : ProbeEvent} {record : LogRecord} (h : logRecord? cfg event = some record) :
    record.Plain cfg.scopeName ∧ record.NoDoubles := by
  unfold logRecord? at h
  dsimp only at h
  split at h
  · cases h
  cases h
  have hprofile : text ".profile" ≠ text ".drops" := by decide
  have hprobe : text ".probe" ≠ text ".drops" := by decide
  have hpid : (text "process.pid").getLast? ≠ some 's' := by decide
  have hname : (text "process.executable.name").getLast? ≠ some 's' := by decide
  constructor
  · intro attr hattr
    simp only [buildAttributes, List.mem_cons, List.not_mem_nil, or_false] at hattr
    rcases hattr with rfl | rfl | rfl | rfl
    · simpa using hprofile
    · simpa using hprobe
    · exact ne_drops_of_getLast? hpid
    · exact ne_drops_of_getLast? hname
  · intro attr hattr
    simp only [buildAttributes, List.mem_cons, List.not_mem_nil, or_false] at hattr
    rcases hattr with rfl | rfl | rfl | rfl <;> rfl

theorem Complete.sound {calls : List OtlpCall} {posted : List Post} (h : Complete cfg calls posted)
    (hsnapshots : ∀ snapshot, .emitSnapshot snapshot ∈ calls → snapshot.Matches)
    (hdrops : (calls.map OtlpCall.drops).sum < 2 ^ 64) : ∀ p ∈ posted, p.Sound := by
  intro p hp
  refine ⟨fun record hrecord => ?_, fun snapshot hsnapshot => ?_, ?_⟩
  · have hmem := h.records.subset (List.mem_flatMap.2 ⟨p, hp, hrecord⟩)
    obtain ⟨event, _, hevent⟩ := List.mem_filterMap.1 hmem
    exact (logRecord?_plain hevent).2
  · have hmem := h.snapshots.subset (List.mem_flatMap.2 ⟨p, hp, hsnapshot⟩)
    obtain ⟨c, hc, hgiven⟩ := List.mem_filterMap.1 (List.mem_filter.1 hmem).1
    cases c with
    | emitSnapshot other =>
        cases hgiven
        exact hsnapshots snapshot hc
    | _ => cases hgiven
  · have hle := List.le_sum_of_mem (List.mem_map_of_mem (f := Post.drops) hp)
    have htotal := h.drops
    omega

theorem logsMeant_flatMap {posts : List Post} (hplain : ∀ p ∈ posts, ∀ record ∈ p.records, record.Plain scopeName)
    (hdrops : ∀ p ∈ posts, p.drops < 2 ^ 64) :
    (posts.flatMap (Post.logsMeant scopeName)).map (OtlpRecord.withoutDrops scopeName) =
        (posts.flatMap Post.records).map LogRecord.meant ∧
      total ((posts.flatMap (Post.logsMeant scopeName)).map (OtlpRecord.reportedDrops scopeName)) ≤
        (posts.map Post.drops).sum := by
  induction posts with
  | nil => exact ⟨rfl, Int.le_refl 0⟩
  | cons p posts ih =>
      obtain ⟨hlogs, hle⟩ := logsMeant_plain (hplain p List.mem_cons_self) (hdrops p List.mem_cons_self)
      obtain ⟨hlogs', hle'⟩ := ih (fun q hq => hplain q (List.mem_cons_of_mem _ hq))
        fun q hq => hdrops q (List.mem_cons_of_mem _ hq)
      constructor
      · rw [List.flatMap_cons, List.map_append, hlogs, hlogs', List.flatMap_cons, List.map_append]
      · rw [List.flatMap_cons, List.map_append, total_append, List.map_cons, List.sum_cons]
        omega

/-- All documents of a complete run can be built and read, and together they say what was given. -/
theorem Complete.collected {calls : List OtlpCall} {posted : List Post} (h : Complete cfg calls posted)
    (hsnapshots : ∀ snapshot, .emitSnapshot snapshot ∈ calls → snapshot.Matches)
    (hdrops : (calls.map OtlpCall.drops).sum < 2 ^ 64) (doubleText : UInt64 → Text) (resource : ResourceAttributes) :
    ∃ requests c, posted.mapM (Post.request doubleText cfg.scopeName resource) = some requests ∧
      collect requests = some c ∧
      Holds cfg (calls.filterMap OtlpCall.event?) (calls.filterMap OtlpCall.snapshot?)
        (calls.map OtlpCall.drops).sum c := by
  have hsound := h.sound hsnapshots hdrops
  have hplain : ∀ p ∈ posted, ∀ record ∈ p.records, record.Plain cfg.scopeName := by
    intro p hp record hrecord
    have hmem := h.records.subset (List.mem_flatMap.2 ⟨p, hp, hrecord⟩)
    obtain ⟨event, _, hevent⟩ := List.mem_filterMap.1 hmem
    exact (logRecord?_plain hevent).1
  obtain ⟨hlogs, hle⟩ := logsMeant_flatMap hplain fun p hp => (hsound p hp).drops
  obtain ⟨requests, hrequests, hcollect⟩ := foldlM_receive doubleText cfg.scopeName resource hsound {}
  simp only [List.nil_append] at hcollect
  refine ⟨requests, _, hrequests, hcollect, ?_, ⟨posted.flatMap Post.snapshots, h.snapshots, ?_⟩, ?_⟩
  · rw [hlogs]
    exact h.records.map _
  · rw [List.forall₂_map_right_iff, List.forall₂_same]
    intro snapshot hmem
    obtain ⟨p, hp, hsnapshot⟩ := List.mem_flatMap.1 hmem
    exact metricOf_meant cfg.scopeName ((hsound p hp).snapshots snapshot hsnapshot)
  · have htotal := h.drops
    dsimp only
    omega

end ObservableBSD.Export
