import Mathlib.Algebra.BigOperators.Group.List.Basic
import ObservableBSD.Export.System
import ObservableBSD.Instruments.Lemmas.Segments
import ObservableBSD.Instruments.Lemmas.Text
import ObservableBSD.Instruments.Session

/-!
# Records in the snapshots of a walk

The dictionary holds, after any part of the walk, the points of the records so far under their names and kinds.
-/

namespace ObservableBSD.Instruments

open Base Export

variable {cfg : WatchConfig} {aggKeyNames : Text → Option (List Text)} {records : List AggregationRecord}
  {w : AggregationWalk}

/-! ## Keys -/

theorem colon_notMem_rawValue (kind : AggregationKind) : ':' ∉ kind.rawValue := by
  cases kind <;> decide

theorem rawValue_injective : Function.Injective AggregationKind.rawValue := by
  intro kind kind' h
  cases kind <;> cases kind' <;> first | rfl | exact absurd h (by decide)

/-- No two pairs of a name and a kind have the same key. -/
theorem snapshotKey_inj {name name' : Text} {kind kind' : AggregationKind} :
    snapshotKey name kind = snapshotKey name' kind' ↔ name = name' ∧ kind = kind' := by
  constructor
  · intro h
    have hsplit (name : Text) (kind : AggregationKind) :
        splitLast (· = ':') (snapshotKey name kind) = some (name, kind.rawValue) := by
      refine splitLast_eq_some_iff.2 ⟨':', rfl, by decide, fun c hc => decide_eq_false fun heq => ?_⟩
      exact colon_notMem_rawValue kind (heq ▸ hc)
    have heq := hsplit name kind
    rw [h, hsplit name' kind', Option.some_inj, Prod.mk.injEq] at heq
    exact ⟨heq.1.symm, (rawValue_injective heq.2).symm⟩
  · rintro ⟨rfl, rfl⟩
    rfl

theorem AggregationRecord.isOf_iff {name : Text} {kind : AggregationKind} {record : AggregationRecord} :
    record.isOf name kind = true ↔ record.key = snapshotKey name kind := by
  rw [AggregationRecord.key, snapshotKey_inj, AggregationRecord.isOf]
  simp

/-! ## The walk -/

theorem key_newEntry (profileName : Text) (timestamp : Int) (record : AggregationRecord) :
    (newEntry profileName timestamp record).1 = record.key := rfl

theorem key_addPoint (point : DataPoint) (entry : Text × AggregationSnapshot) : (addPoint point entry).1 = entry.1 := rfl

/-- What an entry of the dictionary holds of the records. -/
structure Collects (cfg : WatchConfig) (aggKeyNames : Text → Option (List Text)) (records : List AggregationRecord)
    (entry : Text × AggregationSnapshot) : Prop where
  key : entry.1 = snapshotKey entry.2.aggregationName entry.2.kind
  profile : entry.2.profileName = cfg.profileName
  points : entry.2.dataPoints =
    (records.filter (AggregationRecord.isOf entry.2.aggregationName entry.2.kind)).map (dataPoint aggKeyNames)

structure Walked (cfg : WatchConfig) (aggKeyNames : Text → Option (List Text)) (records : List AggregationRecord)
    (w : AggregationWalk) : Prop where
  nodup : (w.snapshots.map Prod.fst).Nodup
  keys : ∀ k, k ∈ w.snapshots.map Prod.fst ↔
    ∃ record ∈ records, record.key = k
  entries : ∀ entry ∈ w.snapshots, Collects cfg aggKeyNames records entry

theorem walked_nil (cfg : WatchConfig) (aggKeyNames : Text → Option (List Text)) (dates : Nat) :
    Walked cfg aggKeyNames [] { dates } where
  nodup := List.nodup_nil
  keys := by simp
  entries := by simp

theorem Collects.other {entry : Text × AggregationSnapshot} (h : Collects cfg aggKeyNames records entry)
    {record : AggregationRecord} (hne : entry.1 ≠ record.key) :
    Collects cfg aggKeyNames (records ++ [record]) entry where
  key := h.key
  profile := h.profile
  points := by
    have hnot : ¬ record.isOf entry.2.aggregationName entry.2.kind = true := by
      rw [AggregationRecord.isOf_iff, ← h.key]
      exact hne.symm
    rw [h.points, List.filter_append, List.filter_singleton, Bool.eq_false_iff.2 hnot, cond_false, List.append_nil]

theorem Collects.add {entry : Text × AggregationSnapshot} (h : Collects cfg aggKeyNames records entry)
    {record : AggregationRecord} (hkey : entry.1 = record.key) :
    Collects cfg aggKeyNames (records ++ [record])
      (addPoint (dataPoint aggKeyNames record) entry) where
  key := h.key
  profile := h.profile
  points := by
    have hof : record.isOf entry.2.aggregationName entry.2.kind = true := by
      rw [AggregationRecord.isOf_iff, ← h.key, hkey]
    simp only [addPoint]
    rw [h.points, List.filter_append, List.filter_singleton, hof, cond_true, List.map_append, List.map_singleton]

/-- A new snapshot has the points of the records so far: there are none. -/
theorem Walked.fresh (h : Walked cfg aggKeyNames records w) {record : AggregationRecord} {timestamp : Int}
    (hnone : lookupKey Prod.fst (record.key) w.snapshots = none) :
    Collects cfg aggKeyNames records (newEntry cfg.profileName timestamp record) where
  key := rfl
  profile := rfl
  points := by
    have hnot : ∀ other ∈ records, ¬ other.isOf record.name (mapAction record.action) = true := by
      intro other hother hof
      obtain ⟨entry, hentry, hkey⟩ := List.mem_map.1
        ((h.keys _).2 ⟨other, hother, AggregationRecord.isOf_iff.1 hof⟩)
      have hfound := lookupKey_of_mem h.nodup hentry
      rw [hkey, ← AggregationRecord.key, hnone] at hfound
      cases hfound
    have hnil := List.filter_eq_nil_iff.2 hnot
    simp only [newEntry, hnil, List.map_nil]

theorem Walked.visit (h : Walked cfg aggKeyNames records w) (record : AggregationRecord) :
    Walked cfg aggKeyNames (records ++ [record]) (visitRecord cfg aggKeyNames w record) where
  nodup := nodup_upsert (key_newEntry ..) (key_addPoint _) h.nodup
  keys := by
    intro k
    have hmem : ∀ key : Text, key ∈ (visitRecord cfg aggKeyNames w record).snapshots.map Prod.fst ↔
        key ∈ w.snapshots.map Prod.fst ∨ key = record.key := by
      intro key
      unfold visitRecord
      dsimp only
      rw [map_key_upsert (key_newEntry ..) (key_addPoint _)]
      split
      · rename_i hthere
        exact ⟨.inl, fun hor => hor.elim id fun heq => heq ▸ hthere⟩
      · simp
    rw [hmem, h.keys]
    constructor
    · rintro (⟨other, hother, hkey⟩ | rfl)
      · exact ⟨other, List.mem_append_left _ hother, hkey⟩
      · exact ⟨record, by simp, rfl⟩
    · rintro ⟨other, hother, hkey⟩
      rcases List.mem_append.1 hother with hother | hother
      · exact .inl ⟨other, hother, hkey⟩
      · rw [List.mem_singleton.1 hother] at hkey
        exact .inr hkey.symm
  entries := by
    intro entry hentry
    rcases mem_upsert (key_newEntry ..) (key_addPoint _) h.nodup hentry with ⟨-, heq⟩ | ⟨hne, hold⟩
    · subst heq
      cases hfound : lookupKey Prod.fst (record.key) w.snapshots with
      | none => exact (h.fresh hfound).add rfl
      | some old =>
          obtain ⟨hold, hkey⟩ := mem_of_lookupKey hfound
          exact (h.entries old hold).add hkey
    · exact (h.entries entry hold).other hne

theorem walked (cfg : WatchConfig) (aggKeyNames : Text → Option (List Text)) (dates : Nat)
    (records : List AggregationRecord) :
    Walked cfg aggKeyNames records (records.foldl (visitRecord cfg aggKeyNames) { dates }) := by
  induction records using List.reverseRecOn with
  | nil => exact walked_nil cfg aggKeyNames dates
  | append_singleton records record ih =>
      rw [List.foldl_append, List.foldl_cons, List.foldl_nil]
      exact ih.visit record

/-! ## Snapshots -/

theorem walkSnapshots_grouped (cfg : WatchConfig) (aggKeyNames : Text → Option (List Text)) (dates : Nat)
    (records : List AggregationRecord) :
    Grouped cfg.profileName aggKeyNames records (walkSnapshots cfg aggKeyNames dates records) := by
  have h := walked cfg aggKeyNames dates records
  refine ⟨?_, fun record hrecord => ?_, fun s hs => ?_⟩
  · have hkeys : (walkSnapshots cfg aggKeyNames dates records).map (fun s => snapshotKey s.aggregationName s.kind) =
        (records.foldl (visitRecord cfg aggKeyNames) { dates }).snapshots.map Prod.fst := by
      rw [walkSnapshots, List.map_map]
      exact List.map_congr_left fun entry hentry => (h.entries entry hentry).key.symm
    refine List.Nodup.of_map (fun p : Text × AggregationKind => snapshotKey p.1 p.2) ?_
    rw [List.map_map]
    exact hkeys ▸ h.nodup
  · obtain ⟨entry, hentry, hkey⟩ := List.mem_map.1 ((h.keys _).2 ⟨record, hrecord, rfl⟩)
    rw [(h.entries entry hentry).key] at hkey
    exact ⟨entry.2, List.mem_map_of_mem hentry, AggregationRecord.isOf_iff.2 hkey.symm⟩
  · obtain ⟨entry, hentry, rfl⟩ := List.mem_map.1 hs
    have hcollects := h.entries entry hentry
    refine ⟨hcollects.profile, ?_, hcollects.points⟩
    obtain ⟨record, hrecord, hkey⟩ := (h.keys entry.1).1 (List.mem_map_of_mem hentry)
    rw [hcollects.key] at hkey
    rw [hcollects.points, ne_eq, List.map_eq_nil_iff, List.filter_eq_nil_iff]
    exact fun hnone => hnone record hrecord (AggregationRecord.isOf_iff.2 hkey)

/-! ## The calls of a session -/

variable {cfg : WatchConfig} {aggKeyNames : Text → Option (List Text)} {s : SessionState}

/-! ## Events are emitted for good -/

theorem flushPending_emitted (cfg : WatchConfig) (w : WatchState) : w.emitted <+: (flushPending cfg w).emitted := by
  unfold flushPending
  split
  · exact List.prefix_rfl
  · exact List.prefix_append ..

theorem handleLine_emitted (cfg : WatchConfig) (w : WatchState) (raw : Text) :
    w.emitted <+: (handleLine cfg w raw).emitted := by
  unfold handleLine
  split
  · exact List.prefix_rfl
  split
  · dsimp only
    split <;> exact List.prefix_rfl
  split
  · exact List.prefix_rfl
  · exact flushPending_emitted cfg w

theorem onBufferedOutput_emitted (cfg : WatchConfig) (w : WatchState) (data : BufferedOutput) :
    w.emitted <+: (onBufferedOutput cfg w data).emitted := by
  unfold onBufferedOutput
  induction data.lines generalizing w with
  | nil => exact List.prefix_rfl
  | cons line lines ih => exact (handleLine_emitted cfg w line).trans (ih (handleLine cfg w line))

/-! ## The loop -/

/-- The exporter has been given what the handlers made of the callbacks so far. -/
structure Tracks (cfg : WatchConfig) (callbacks : List Callback) (s : SessionState) : Prop where
  watch : s.watch = (callbacks.filterMap Callback.output?).foldl (onBufferedOutput cfg) (watchInit cfg)
  events : s.calls.filterMap OtlpCall.event? = s.watch.emitted
  snapshots : s.calls.filterMap OtlpCall.snapshot? = []
  drops : (s.calls.map OtlpCall.drops).sum = (callbacks.map Callback.drops).sum

theorem tracks_nil (cfg : WatchConfig) : Tracks cfg [] { watch := watchInit cfg } := ⟨rfl, rfl, rfl, rfl⟩

theorem filterMap_event?_emitEvent (events : List ProbeEvent) :
    (events.map OtlpCall.emitEvent).filterMap OtlpCall.event? = events := by
  rw [List.filterMap_map]
  exact List.filterMap_some

theorem filterMap_snapshot?_emitEvent (events : List ProbeEvent) :
    (events.map OtlpCall.emitEvent).filterMap OtlpCall.snapshot? = [] := by
  simp [OtlpCall.snapshot?]

theorem sum_drops_emitEvent (events : List ProbeEvent) : ((events.map OtlpCall.emitEvent).map OtlpCall.drops).sum = 0 := by
  induction events with
  | nil => rfl
  | cons event events ih => simpa [OtlpCall.drops] using ih

/-- The calls of a step give the exporter the new events, and nothing else. -/
theorem SessionState.advance_given {watch : WatchState} (hfront : s.watch.emitted <+: watch.emitted)
    (hevents : s.calls.filterMap OtlpCall.event? = s.watch.emitted) :
    (s.advance watch).calls.filterMap OtlpCall.event? = watch.emitted ∧
      (s.advance watch).calls.filterMap OtlpCall.snapshot? = s.calls.filterMap OtlpCall.snapshot? ∧
      ((s.advance watch).calls.map OtlpCall.drops).sum = (s.calls.map OtlpCall.drops).sum := by
  unfold SessionState.advance
  refine ⟨?_, ?_, ?_⟩
  · rw [List.filterMap_append, hevents, filterMap_event?_emitEvent]
    exact (List.prefix_iff_eq_append.1 hfront)
  · rw [List.filterMap_append, filterMap_snapshot?_emitEvent, List.append_nil]
  · rw [List.map_append, List.sum_append, sum_drops_emitEvent, Nat.add_zero]

theorem Tracks.callback {callbacks : List Callback} (h : Tracks cfg callbacks s) (callback : Callback) :
    Tracks cfg (callbacks ++ [callback]) (handleCallback cfg s callback) := by
  obtain ⟨hwatch, hevents, hsnapshots, hdrops⟩ := h
  cases callback with
  | drop drops =>
      refine ⟨?_, ?_, ?_, ?_⟩
      · rw [List.filterMap_append, List.foldl_append, ← hwatch]
        rfl
      · simp [handleCallback, hevents, OtlpCall.event?]
      · simp [handleCallback, hsnapshots, OtlpCall.snapshot?]
      · simp [handleCallback, hdrops, OtlpCall.drops, Callback.drops]
  | output data =>
      obtain ⟨he, hs, hd⟩ := SessionState.advance_given (onBufferedOutput_emitted cfg s.watch data) hevents
      refine ⟨?_, he, hs.trans hsnapshots, ?_⟩
      · simp [handleCallback, SessionState.advance, hwatch, Callback.output?]
      · simp [handleCallback, hd, hdrops, Callback.drops]

theorem Tracks.callbacks {callbacks : List Callback} (h : Tracks cfg callbacks s) (more : List Callback) :
    Tracks cfg (callbacks ++ more) (more.foldl (handleCallback cfg) s) := by
  induction more generalizing callbacks s with
  | nil => rwa [List.append_nil]
  | cons callback more ih =>
      have hrest := ih (h.callback callback)
      rwa [List.append_assoc] at hrest

theorem pollLoop_tracks {turns : List PollTurn} {callbacks : List Callback} {s' : SessionState}
    (h : Tracks cfg callbacks s) (hloop : pollLoop cfg turns s = some s') :
    Tracks cfg (callbacks ++ callbacksOf turns) s' := by
  induction turns generalizing callbacks s with
  | nil => cases hloop
  | cons turn turns ih =>
      unfold pollLoop at hloop
      unfold callbacksOf
      split at hloop
      · rename_i hstop
        cases hloop
        rwa [if_pos hstop, List.append_nil]
      · rename_i hstop
        rw [if_neg hstop]
        have hturn := h.callbacks turn.callbacks
        rw [← List.append_assoc]
        cases hstatus : turn.status with
        | okay =>
            rw [hstatus] at hloop
            exact ih hturn hloop
        | done | error =>
            rw [hstatus] at hloop
            cases hloop
            rwa [List.append_nil]

/-! ## Snapshots -/

theorem dataPoint_value (aggKeyNames : Text → Option (List Text)) (record : AggregationRecord) :
    (dataPoint aggKeyNames record).value =
      if record.action.isHistogram then .histogram record.buckets else .scalar record.value := rfl

/-- The buckets of the histograms have bounds of their own, and counts that can be added up. -/
def GoodRecords (records : List AggregationRecord) : Prop :=
  ∀ record ∈ records, record.action.isHistogram = true → GoodBuckets record.buckets

theorem Grouped.matches {profileName : Text} {records : List AggregationRecord} {snapshots : List AggregationSnapshot}
    (h : Grouped profileName aggKeyNames records snapshots) (hgood : GoodRecords records) :
    ∀ snapshot ∈ snapshots, snapshot.Matches := by
  intro snapshot hsnapshot dp hdp
  rw [(h.points snapshot hsnapshot).2.2] at hdp
  obtain ⟨record, hrecord, rfl⟩ := List.mem_map.1 hdp
  obtain ⟨hmem, hof⟩ := List.mem_filter.1 hrecord
  have hkind : mapAction record.action = snapshot.kind := by
    simpa [AggregationRecord.isOf] using (Bool.and_eq_true_iff.1 hof).2
  have hbuckets := hgood record hmem
  rw [← hkind]
  cases haction : record.action <;>
    simp only [mapAction, dataPoint_value, haction, AggregationAction.isHistogram] <;>
    simp only [haction, AggregationAction.isHistogram, forall_const] at hbuckets
  case count | sum | min | max | avg | stddev => exact ⟨_, rfl⟩
  case quantize | lquantize | llquantize => exact ⟨_, rfl, hbuckets⟩

theorem Grouped.perm {profileName : Text} {records : List AggregationRecord}
    {snapshots snapshots' : List AggregationSnapshot} (h : Grouped profileName aggKeyNames records snapshots)
    (hperm : snapshots'.Perm snapshots) : Grouped profileName aggKeyNames records snapshots' where
  distinct := (hperm.map _).nodup_iff.2 h.distinct
  covered := fun record hrecord =>
    have ⟨s, hs, hof⟩ := h.covered record hrecord
    ⟨s, hperm.symm.subset hs, hof⟩
  points := fun s hs => h.points s (hperm.subset hs)

theorem grouped_nil (profileName : Text) (aggKeyNames : Text → Option (List Text)) :
    Grouped profileName aggKeyNames [] [] where
  distinct := List.nodup_nil
  covered := nofun
  points := nofun

/-! ## The calls -/

/-- The snapshots and the `flush` behind the calls of the loop. -/
theorem given_behind (calls : List OtlpCall) (snapshots : List AggregationSnapshot) :
    (calls ++ snapshots.map OtlpCall.emitSnapshot ++ [OtlpCall.flush]).filterMap OtlpCall.event? =
        calls.filterMap OtlpCall.event? ∧
      (calls ++ snapshots.map OtlpCall.emitSnapshot ++ [OtlpCall.flush]).filterMap OtlpCall.snapshot? =
        calls.filterMap OtlpCall.snapshot? ++ snapshots ∧
      ((calls ++ snapshots.map OtlpCall.emitSnapshot ++ [OtlpCall.flush]).map OtlpCall.drops).sum =
        (calls.map OtlpCall.drops).sum := by
  have hevents : (snapshots.map OtlpCall.emitSnapshot).filterMap OtlpCall.event? = [] := by simp [OtlpCall.event?]
  have hsnapshots : (snapshots.map OtlpCall.emitSnapshot).filterMap OtlpCall.snapshot? = snapshots := by
    rw [List.filterMap_map]
    exact List.filterMap_some
  have hdrops : ((snapshots.map OtlpCall.emitSnapshot).map OtlpCall.drops).sum = 0 := by
    clear hevents hsnapshots
    induction snapshots with
    | nil => rfl
    | cons snapshot snapshots ih => simpa [OtlpCall.drops] using ih
  refine ⟨?_, ?_, ?_⟩
  · rw [List.filterMap_append, List.filterMap_append, hevents]
    simp [OtlpCall.event?]
  · rw [List.filterMap_append, List.filterMap_append, hsnapshots]
    simp [OtlpCall.snapshot?]
  · rw [List.map_append, List.map_append, List.sum_append, List.sum_append, hdrops]
    simp [OtlpCall.drops]

/-- What the exporter is given in a session: the events of the output, the snapshots of the walk, the drops. -/
theorem sessionCalls_given {values : List AggregationSnapshot → List AggregationSnapshot}
    (hvalues : ∀ snapshots, (values snapshots).Perm snapshots) {turns : List PollTurn}
    {walk : Option (List AggregationRecord)} {calls : List OtlpCall}
    (h : sessionCalls cfg aggKeyNames values turns walk = some calls) :
    calls.filterMap OtlpCall.event? = structuredEvents cfg (outputsOf turns) ∧
      Grouped cfg.profileName aggKeyNames (walk.getD []) (calls.filterMap OtlpCall.snapshot?) ∧
      (calls.map OtlpCall.drops).sum = dropsOf turns := by
  obtain ⟨s, hloop, rfl⟩ := Option.map_eq_some_iff.1 h
  obtain ⟨hwatch, hevents, hsnapshots, hdrops⟩ := pollLoop_tracks (tracks_nil cfg) hloop
  rw [List.nil_append] at hwatch hdrops
  obtain ⟨he, hs, hd⟩ := SessionState.advance_given (flushPending_emitted cfg s.watch) hevents
  dsimp only
  rw [(given_behind _ _).1, (given_behind _ _).2.1, (given_behind _ _).2.2, he, hs, hd, hsnapshots, hdrops, hwatch,
    List.nil_append]
  refine ⟨rfl, ?_, rfl⟩
  cases walk with
  | none => exact grouped_nil ..
  | some records => exact (walkSnapshots_grouped cfg aggKeyNames _ records).perm (hvalues _)

/-! ## Bodies -/

theorem map_body_segments (boundary : CharacterBoundary) (lines : List Text) :
    (segments boundary lines).map Segment.body = lines.filter (isBody boundary) := by
  induction lines with
  | nil => rfl
  | cons line lines ih =>
      rw [segments]
      by_cases h : isBody boundary line = true
      · rw [if_pos h, List.map_cons, ih, List.filter_cons_of_pos h]
      · rw [if_neg h, ih, List.filter_cons_of_neg h]

/-- The body of an event, and what `parseMetadata` reads from it. -/
def ownOf (cfg : WatchConfig) (body : Text) : Option Text × Text × Int32 :=
  (some body, parseMetadata cfg.boundary cfg.isNumber body)

theorem map_own_eventsFrom (i : Nat) (gs : List Segment) :
    (eventsFrom cfg i gs).map (fun e => (e.printfBody, e.execname, e.pid)) =
      (gs.map Segment.body).map fun body => ownOf cfg (trimmed body) := by
  induction gs generalizing i with
  | nil => rfl
  | cons g gs ih =>
      rw [eventsFrom, List.map_cons, ih]
      rfl

/-- There is one event for each body line, with the name and the pid in it. -/
theorem map_own_structuredEvents (cfg : WatchConfig) (calls : List BufferedOutput) :
    (structuredEvents cfg calls).map (fun e => (e.printfBody, e.execname, e.pid)) =
      (bodiesOf cfg.boundary calls).map (ownOf cfg) := by
  have hbodies : (bodiesOf cfg.boundary calls).map (ownOf cfg) =
      ((segments cfg.boundary (calls.flatMap (·.lines))).map Segment.body).map fun body => ownOf cfg (trimmed body) := by
    rw [map_body_segments, bodiesOf, List.map_map]
    rfl
  rw [structuredEvents_eq, hbodies]
  cases segments cfg.boundary (calls.flatMap (·.lines)) with
  | nil => rfl
  | cons g gs =>
      rw [eventsWith, List.map_cons, map_own_eventsFrom]
      rfl

theorem map_printfBody_structuredEvents (cfg : WatchConfig) (calls : List BufferedOutput) :
    (structuredEvents cfg calls).map ProbeEvent.printfBody = (bodiesOf cfg.boundary calls).map some := by
  have hown := congrArg (List.map Prod.fst) (map_own_structuredEvents cfg calls)
  rwa [List.map_map, List.map_map] at hown

theorem trimmed_ne_of_body {boundary : CharacterBoundary} {line : Text} (h : isBody boundary line = true) :
    trimmed line ≠ [] := by
  intro hnil
  simp [isBody, lineKind, hnil] at h

/-- Every body is logged. -/
theorem map_body_logRecords (ocfg : OtlpConfig) {events : List ProbeEvent} {bodies : List Text}
    (h : events.map ProbeEvent.printfBody = bodies.map some) (hne : ∀ body ∈ bodies, body ≠ []) :
    (events.filterMap (logRecord? ocfg)).map LogRecord.body = bodies := by
  induction events generalizing bodies with
  | nil =>
      cases bodies with
      | nil => rfl
      | cons body bodies => cases h
  | cons event events ih =>
      cases bodies with
      | nil => cases h
      | cons body bodies =>
          rw [List.map_cons, List.map_cons, List.cons.injEq] at h
          have hrest := ih h.2 fun b hb => hne b (List.mem_cons_of_mem _ hb)
          have hbody : body ≠ [] := hne body List.mem_cons_self
          simp only [List.filterMap_cons, logRecord?, h.1, Option.getD_some, if_neg hbody, List.map_cons, hrest]

end ObservableBSD.Instruments
