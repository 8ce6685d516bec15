import Mathlib.Data.List.Forall2
import ObservableBSD.Export.Lemmas.Envelope
import ObservableBSD.Export.Lemmas.Histogram

/-!
# Metrics as values
-/

namespace ObservableBSD.Export

open Json

/-! ## Attributes -/

theorem dimensionsMeant_strings (dp : DataPoint) :
    ∀ attr ∈ dimensionsMeant dp, attr.2.isDouble = false := by
  intro attr hattr
  unfold dimensionsMeant at hattr
  split at hattr
  · obtain ⟨_, _, rfl⟩ := List.mem_map.mp hattr
    rfl
  · obtain ⟨_, _, rfl⟩ := List.mem_map.mp hattr
    rfl

theorem render_dimensions (dp : DataPoint) :
    swift.renderElements ((dimensionsMeant dp).map attributeObject) = buildDimensionAttributes dp := by
  rw [← joined_render, buildDimensionAttributes, dimensionsMeant]
  split
  · rw [List.map_map, List.map_map]
    refine congrArg joined (List.map_congr_left fun attr _ => ?_)
    exact render_stringAttribute attr.1 attr.2
  · rw [List.map_map, List.map_map]
    refine congrArg joined (List.map_congr_left fun key _ => ?_)
    have hkey : escapeJSON (text "key." ++ natText key.2) = text "key." ++ natText key.2 := by
      rw [escapeJSON_append, escapeJSON_natText]
      rfl
    have hattr := render_stringAttribute (text "key." ++ natText key.2) key.1
    rw [Function.comp_apply, Function.comp_apply]
    refine hattr.trans ?_
    rw [stringAttributeJSON, hkey]
    simp only [text, List.append_assoc]
    rfl

/-! ## Points -/

def scalarObject (p : ScalarPoint) : Value :=
  .object [(text "timeUnixNano", intString p.timeUnixNano), (text "asInt", intString p.value),
    (text "attributes", .array (p.attributes.map attributeObject))]

def histogramObject (p : HistogramPoint) : Value :=
  .object [(text "timeUnixNano", intString p.timeUnixNano), (text "count", intString p.count),
    (text "explicitBounds", .array (p.explicitBounds.map fun b => .number (.ofInt b))),
    (text "bucketCounts", .array (p.bucketCounts.map intString)),
    (text "attributes", .array (p.attributes.map attributeObject))]

theorem readScalarPoint_object {p : ScalarPoint} (h : ∀ attr ∈ p.attributes, attr.2.isDouble = false) :
    readScalarPoint (scalarObject p) = some p := by
  have hread : readScalarPoint (scalarObject p) =
      (intOfChars? (intText p.timeUnixNano)).bind fun time =>
      (intOfChars? (intText p.value)).bind fun value =>
      ((p.attributes.map attributeObject).mapM readAttribute).bind fun attributes =>
        some (ScalarPoint.mk time value attributes) := rfl
  rw [hread, readAttributes_map h]
  simp only [intOfChars?_intText, Option.bind_some]

theorem readHistogramPoint_object {p : HistogramPoint}
    (h : ∀ attr ∈ p.attributes, attr.2.isDouble = false) :
    readHistogramPoint (histogramObject p) = some p := by
  have hbounds : (p.explicitBounds.map fun b => Value.number (.ofInt b)).mapM Value.int? =
      some (p.explicitBounds.map id) := mapM_map_some fun b _ => int?_ofInt b
  have hcounts : (p.bucketCounts.map intString).mapM (fun v : Value => v.string?.bind intOfChars?) =
      some (p.bucketCounts.map id) := mapM_map_some fun c _ => intOfChars?_intText c
  have hread : readHistogramPoint (histogramObject p) =
      (intOfChars? (intText p.timeUnixNano)).bind fun time =>
      (intOfChars? (intText p.count)).bind fun count =>
      ((p.explicitBounds.map fun b => Value.number (.ofInt b)).mapM Value.int?).bind fun bounds =>
      ((p.bucketCounts.map intString).mapM fun v : Value => v.string?.bind intOfChars?).bind fun counts =>
      ((p.attributes.map attributeObject).mapM readAttribute).bind fun attributes =>
        some (HistogramPoint.mk time count bounds counts attributes) := rfl
  rw [hread, hbounds, hcounts, readAttributes_map h]
  simp only [intOfChars?_intText, List.map_id, Option.bind_some]

/-- The point of a data point with a scalar. -/
def scalarPoint (timeNano : UInt64) (dp : DataPoint) (v : Int64) : ScalarPoint :=
  { timeUnixNano := timeNano.toNat, value := v.toInt, attributes := dimensionsMeant dp }

/-- The point of a data point with buckets. -/
def histogramPoint (timeNano : UInt64) (dp : DataPoint) (buckets : List HistogramBucket) : HistogramPoint :=
  { timeUnixNano := timeNano.toNat
    count := countOf buckets
    explicitBounds := (sortBuckets buckets).dropLast.map fun b => b.upperBound.toInt
    bucketCounts := (sortBuckets buckets).map fun b => b.count.toInt
    attributes := dimensionsMeant dp }

theorem render_scalarObject (timeNano : UInt64) {dp : DataPoint} {v : Int64} (h : dp.value = .scalar v) :
    swift.render (scalarObject (scalarPoint timeNano dp v)) = buildScalarDataPoint timeNano dp := by
  simp only [scalarObject, scalarPoint, intString, Escaper.render, Escaper.renderMembers,
    render_dimensions, swift_quote, escapeJSON_intText, buildScalarDataPoint, h, natText_eq, text,
    List.append_assoc, List.cons_append, List.nil_append]
  rfl

theorem render_histogramObject (timeNano : UInt64) (dp : DataPoint) {buckets : List HistogramBucket}
    (h : TotalsFit buckets) :
    histogramDataPoint? timeNano dp buckets =
      some (swift.render (histogramObject (histogramPoint timeNano dp buckets))) := by
  obtain ⟨total, htotal, heq⟩ := h.totalCount?
  have hbounds : swift.renderElements
      (((sortBuckets buckets).dropLast.map fun b => b.upperBound.toInt).map fun b =>
        Value.number (.ofInt b)) =
      joined ((sortBuckets buckets).dropLast.map fun b => intText b.upperBound.toInt) := by
    rw [← joined_render, List.map_map, List.map_map]
    refine congrArg joined (List.map_congr_left fun b _ => ?_)
    rw [Function.comp_apply, Function.comp_apply, Escaper.render]
    rfl
  have hcounts : swift.renderElements (((sortBuckets buckets).map fun b => b.count.toInt).map intString) =
      joined ((sortBuckets buckets).map fun b => text "\"" ++ intText b.count.toInt ++ text "\"") := by
    rw [← joined_render, List.map_map, List.map_map]
    refine congrArg joined (List.map_congr_left fun b _ => ?_)
    rw [Function.comp_apply, Function.comp_apply, intString, Escaper.render, swift_quote, escapeJSON_intText]
    rfl
  rw [histogramDataPoint?, htotal, Option.map_some, Option.some.injEq]
  simp only [histogramObject, histogramPoint, Escaper.render, Escaper.renderMembers, hbounds, hcounts,
    render_dimensions, intString, swift_quote, escapeJSON_intText, natText_eq, heq, text,
    List.append_assoc, List.cons_append, List.nil_append]
  rfl

/-! ## Data -/

def scalarOf (dp : DataPoint) : Int64 :=
  match dp.value with
  | .scalar v => v
  | .histogram _ => 0

def bucketsOf (dp : DataPoint) : List HistogramBucket :=
  match dp.value with
  | .scalar _ => []
  | .histogram buckets => buckets

def scalarPoints (timeNano : UInt64) (dps : List DataPoint) : List ScalarPoint :=
  dps.map fun dp => scalarPoint timeNano dp (scalarOf dp)

def histogramPoints (timeNano : UInt64) (dps : List DataPoint) : List HistogramPoint :=
  dps.map fun dp => histogramPoint timeNano dp (bucketsOf dp)

/-- The member of a metric that has its data. -/
def dataMember : OtlpData → Text × Value
  | .sum points temporality isMonotonic => (text "sum", .object [
      (text "dataPoints", .array (points.map scalarObject)),
      (text "aggregationTemporality", .number (.ofInt temporality)),
      (text "isMonotonic", .bool isMonotonic)])
  | .gauge points => (text "gauge", .object [(text "dataPoints", .array (points.map scalarObject))])
  | .histogram points temporality => (text "histogram", .object [
      (text "dataPoints", .array (points.map histogramObject)),
      (text "aggregationTemporality", .number (.ofInt temporality))])

/-- The attributes of all the points have strings or integers as their values. -/
def OtlpData.NoDoubles : OtlpData → Prop
  | .sum points _ _ | .gauge points => ∀ p ∈ points, ∀ attr ∈ p.attributes, attr.2.isDouble = false
  | .histogram points _ => ∀ p ∈ points, ∀ attr ∈ p.attributes, attr.2.isDouble = false

def metricObject (m : OtlpMetric) : Value := .object [(text "name", .string m.name), dataMember m.data]

theorem readScalarPoints {points : List ScalarPoint}
    (h : ∀ p ∈ points, ∀ attr ∈ p.attributes, attr.2.isDouble = false) :
    (points.map scalarObject).mapM readScalarPoint = some points := by
  have hmap := mapM_map_some fun p hp => readScalarPoint_object (h p hp)
  rwa [List.map_id'] at hmap

theorem readHistogramPoints {points : List HistogramPoint}
    (h : ∀ p ∈ points, ∀ attr ∈ p.attributes, attr.2.isDouble = false) :
    (points.map histogramObject).mapM readHistogramPoint = some points := by
  have hmap := mapM_map_some fun p hp => readHistogramPoint_object (h p hp)
  rwa [List.map_id'] at hmap

theorem readSum_member {points : List ScalarPoint} (temporality : Int) (isMonotonic : Bool)
    (h : ∀ p ∈ points, ∀ attr ∈ p.attributes, attr.2.isDouble = false) :
    readSum (dataMember (.sum points temporality isMonotonic)).2 =
      some (.sum points temporality isMonotonic) := by
  have hread : readSum (dataMember (.sum points temporality isMonotonic)).2 =
      ((points.map scalarObject).mapM readScalarPoint).bind fun points =>
      (intOfChars? (intChars temporality)).bind fun temporality =>
        some (.sum points temporality isMonotonic) := rfl
  rw [hread, readScalarPoints h, intOfChars?_intChars]
  rfl

theorem readGauge_member {points : List ScalarPoint}
    (h : ∀ p ∈ points, ∀ attr ∈ p.attributes, attr.2.isDouble = false) :
    readGauge (dataMember (.gauge points)).2 = some (.gauge points) := by
  have hread : readGauge (dataMember (.gauge points)).2 =
      ((points.map scalarObject).mapM readScalarPoint).bind fun points => some (.gauge points) := rfl
  rw [hread, readScalarPoints h]
  rfl

theorem readHistogram_member {points : List HistogramPoint} (temporality : Int)
    (h : ∀ p ∈ points, ∀ attr ∈ p.attributes, attr.2.isDouble = false) :
    readHistogram (dataMember (.histogram points temporality)).2 = some (.histogram points temporality) := by
  have hread : readHistogram (dataMember (.histogram points temporality)).2 =
      ((points.map histogramObject).mapM readHistogramPoint).bind fun points =>
      (intOfChars? (intChars temporality)).bind fun temporality =>
        some (.histogram points temporality) := rfl
  rw [hread, readHistogramPoints h, intOfChars?_intChars]
  rfl

theorem readMetric_object {m : OtlpMetric} (h : m.data.NoDoubles) : readMetric (metricObject m) = some m := by
  obtain ⟨name, data⟩ := m
  cases data with
  | sum points temporality isMonotonic =>
      have hread : readMetric (metricObject ⟨name, .sum points temporality isMonotonic⟩) =
          (readSum (dataMember (.sum points temporality isMonotonic)).2).bind fun data =>
            some ⟨name, data⟩ := rfl
      rw [hread, readSum_member temporality isMonotonic h]
      rfl
  | gauge points =>
      have hread : readMetric (metricObject ⟨name, .gauge points⟩) =
          (readGauge (dataMember (.gauge points)).2).bind fun data => some ⟨name, data⟩ := rfl
      rw [hread, readGauge_member h]
      rfl
  | histogram points temporality =>
      have hread : readMetric (metricObject ⟨name, .histogram points temporality⟩) =
          (readHistogram (dataMember (.histogram points temporality)).2).bind fun data =>
            some ⟨name, data⟩ := rfl
      rw [hread, readHistogram_member temporality h]
      rfl

/-! ## Snapshots -/

def dataMeant (snapshot : AggregationSnapshot) : OtlpData :=
  let timeNano := dateToUnixNano snapshot.timestamp
  match snapshot.kind with
  | .count | .sum => .sum (scalarPoints timeNano snapshot.dataPoints) 2 true
  | .min | .max | .avg | .stddev => .gauge (scalarPoints timeNano snapshot.dataPoints)
  | .quantize | .lquantize | .llquantize => .histogram (histogramPoints timeNano snapshot.dataPoints) 2

def metricMeant (scopeName : Text) (snapshot : AggregationSnapshot) : OtlpMetric :=
  ⟨metricNameMeant scopeName snapshot, dataMeant snapshot⟩

theorem dataMeant_noDoubles (snapshot : AggregationSnapshot) : (dataMeant snapshot).NoDoubles := by
  have hscalar : ∀ p ∈ scalarPoints (dateToUnixNano snapshot.timestamp) snapshot.dataPoints,
      ∀ attr ∈ p.attributes, attr.2.isDouble = false := by
    intro p hp
    obtain ⟨dp, _, rfl⟩ := List.mem_map.mp hp
    exact dimensionsMeant_strings dp
  have hhistogram : ∀ p ∈ histogramPoints (dateToUnixNano snapshot.timestamp) snapshot.dataPoints,
      ∀ attr ∈ p.attributes, attr.2.isDouble = false := by
    intro p hp
    obtain ⟨dp, _, rfl⟩ := List.mem_map.mp hp
    exact dimensionsMeant_strings dp
  unfold dataMeant
  cases snapshot.kind
  all_goals first
    | exact hscalar
    | exact hhistogram

theorem escapeJSON_metricName (scopeName : Text) (snapshot : AggregationSnapshot) :
    escapeJSON (metricNameMeant scopeName snapshot) = metricName scopeName snapshot := by
  have hdot : escapeJSON (text ".") = text "." := rfl
  have hraw : escapeJSON snapshot.kind.rawValue = snapshot.kind.rawValue := by
    cases snapshot.kind <;> rfl
  unfold metricNameMeant metricName
  split
  · simp only [escapeJSON_append, hdot, hraw]
  · simp only [escapeJSON_append, hdot]

theorem render_scalarPoints {snapshot : AggregationSnapshot} (timeNano : UInt64)
    (h : ∀ dp ∈ snapshot.dataPoints, ∃ v, dp.value = .scalar v) :
    swift.renderElements ((scalarPoints timeNano snapshot.dataPoints).map scalarObject) =
      buildScalarDataPoints snapshot timeNano := by
  rw [← joined_render, buildScalarDataPoints, scalarPoints, List.map_map, List.map_map]
  refine congrArg joined (List.map_congr_left fun dp hdp => ?_)
  obtain ⟨v, hv⟩ := h dp hdp
  have hscalar : scalarOf dp = v := by rw [scalarOf, hv]
  rw [Function.comp_apply, Function.comp_apply, hscalar]
  exact render_scalarObject timeNano hv

theorem histogramDataPoints?_eq (timeNano : UInt64) {dps : List DataPoint}
    (h : ∀ dp ∈ dps, ∃ buckets, dp.value = .histogram buckets ∧ GoodBuckets buckets) :
    histogramDataPoints? timeNano dps =
      some (((histogramPoints timeNano dps).map histogramObject).map swift.render) := by
  induction dps with
  | nil => rfl
  | cons dp dps ih =>
      obtain ⟨buckets, hvalue, hgood⟩ := h dp List.mem_cons_self
      have hbuckets : bucketsOf dp = buckets := by rw [bucketsOf, hvalue]
      have hrest := ih fun d hd => h d (List.mem_cons_of_mem _ hd)
      simp only [histogramDataPoints?, hvalue, render_histogramObject timeNano dp hgood.totals, hrest,
        histogramPoints, List.map_cons, hbuckets]
      rfl

/-! ## Metrics -/

theorem render_sum (name : Text) (points : List ScalarPoint) :
    swift.render (metricObject ⟨name, .sum points 2 true⟩) =
      text "\x7b\"name\":\"" ++ escapeJSON name ++ text "\"," ++ (text "\"sum\":\x7b\"dataPoints\":[" ++
        swift.renderElements (points.map scalarObject) ++
        text "],\"aggregationTemporality\":2,\"isMonotonic\":true\x7d\x7d") := by
  simp only [metricObject, dataMember, Escaper.render, Escaper.renderMembers, swift_quote, text,
    List.append_assoc, List.cons_append, List.nil_append]
  rfl

theorem render_gauge (name : Text) (points : List ScalarPoint) :
    swift.render (metricObject ⟨name, .gauge points⟩) =
      text "\x7b\"name\":\"" ++ escapeJSON name ++ text "\"," ++
        (text "\"gauge\":\x7b\"dataPoints\":[" ++ swift.renderElements (points.map scalarObject) ++
          text "]\x7d\x7d") := by
  simp only [metricObject, dataMember, Escaper.render, Escaper.renderMembers, swift_quote, text,
    List.append_assoc, List.cons_append, List.nil_append]
  rfl

theorem render_histogram (name : Text) (points : List HistogramPoint) :
    swift.render (metricObject ⟨name, .histogram points 2⟩) =
      text "\x7b\"name\":\"" ++ escapeJSON name ++ text "\"," ++
        (text "\"histogram\":\x7b\"dataPoints\":[" ++
          swift.renderElements (points.map histogramObject) ++
          text "],\"aggregationTemporality\":2\x7d\x7d") := by
  simp only [metricObject, dataMember, Escaper.render, Escaper.renderMembers, swift_quote, text,
    List.append_assoc, List.cons_append, List.nil_append]
  rfl

/-- The text of a metric says what it is to say, one case for each form of the data. -/
theorem metricJSON?_meant (scopeName : Text) {snapshot : AggregationSnapshot} (h : snapshot.Matches) :
    metricJSON? scopeName snapshot =
      some (swift.render (metricObject (metricMeant scopeName snapshot))) := by
  unfold AggregationSnapshot.Matches at h
  unfold metricJSON? metricMeant dataMeant
  cases hkind : snapshot.kind
  case count | sum =>
    rw [hkind] at h
    simp only [render_sum, render_scalarPoints _ h, escapeJSON_metricName]
  case min | max | avg | stddev =>
    rw [hkind] at h
    simp only [render_gauge, render_scalarPoints _ h, escapeJSON_metricName]
  case quantize | lquantize | llquantize =>
    rw [hkind] at h
    simp only [render_histogram, buildHistogramDataPoints?, histogramDataPoints?_eq _ h, Option.map_some,
      joined_render, escapeJSON_metricName]

theorem metricOf_meant (scopeName : Text) {snapshot : AggregationSnapshot} (h : snapshot.Matches) :
    MetricOf scopeName snapshot (metricMeant scopeName snapshot) := by
  refine ⟨rfl, ?_⟩
  have hscalar : (∀ dp ∈ snapshot.dataPoints, ∃ v, dp.value = .scalar v) →
      List.Forall₂ (ScalarPointOf (dateToUnixNano snapshot.timestamp)) snapshot.dataPoints
        (scalarPoints (dateToUnixNano snapshot.timestamp) snapshot.dataPoints) := by
    intro hvalues
    rw [scalarPoints, List.forall₂_map_right_iff, List.forall₂_same]
    intro dp hdp
    obtain ⟨v, hv⟩ := hvalues dp hdp
    exact ⟨rfl, ⟨v, hv, by rw [scalarPoint, scalarOf, hv]⟩, rfl⟩
  have hhistogram : (∀ dp ∈ snapshot.dataPoints, ∃ buckets, dp.value = .histogram buckets ∧
        GoodBuckets buckets) →
      List.Forall₂ (HistogramPointOf (dateToUnixNano snapshot.timestamp)) snapshot.dataPoints
        (histogramPoints (dateToUnixNano snapshot.timestamp) snapshot.dataPoints) := by
    intro hvalues
    rw [histogramPoints, List.forall₂_map_right_iff, List.forall₂_same]
    intro dp hdp
    obtain ⟨buckets, hv, hgood⟩ := hvalues dp hdp
    have hbuckets : bucketsOf dp = buckets := by rw [bucketsOf, hv]
    rw [hbuckets]
    exact ⟨rfl, ⟨buckets, hv, histogramOf_sorted hgood.distinct rfl rfl rfl⟩, rfl⟩
  unfold AggregationSnapshot.Matches at h
  unfold DataOf metricMeant dataMeant
  cases hkind : snapshot.kind
  case count | sum =>
    rw [hkind] at h
    exact ⟨_, rfl, hscalar h⟩
  case min | max | avg | stddev =>
    rw [hkind] at h
    exact ⟨_, rfl, hscalar h⟩
  case quantize | lquantize | llquantize =>
    rw [hkind] at h
    exact ⟨_, rfl, hhistogram h⟩

theorem metrics_mapM {scopeName : Text} {snapshots : List AggregationSnapshot}
    (h : ∀ snapshot ∈ snapshots, snapshot.Matches) :
    snapshots.mapM (metricJSON? scopeName) =
      some (((snapshots.map (metricMeant scopeName)).map metricObject).map swift.render) := by
  rw [List.map_map, List.map_map]
  have hmap : (snapshots.map id).mapM (metricJSON? scopeName) =
      some (snapshots.map ((swift.render ∘ metricObject) ∘ metricMeant scopeName)) :=
    mapM_map_some fun snapshot hmem => metricJSON?_meant scopeName (h snapshot hmem)
  rwa [List.map_id] at hmap

theorem render_metrics {scopeName : Text} (resource : ResourceAttributes)
    {snapshots : List AggregationSnapshot} (h : ∀ snapshot ∈ snapshots, snapshot.Matches) :
    buildMetricsEnvelope scopeName resource snapshots =
      some (swift.render (envelopeObject (text "resourceMetrics") (text "scopeMetrics") (text "metrics")
        scopeName resource ((snapshots.map (metricMeant scopeName)).map metricObject))) := by
  rw [buildMetricsEnvelope, metrics_mapM h, Option.map_some, render_envelopeObject, Option.some.injEq,
    enumerated_const fun metric : Text => metric, List.map_id']
  simp only [swift_quote, text, List.append_assoc, List.cons_append, List.nil_append]
  rfl

end ObservableBSD.Export
