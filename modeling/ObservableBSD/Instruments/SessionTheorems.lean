import ObservableBSD.Export.Lemmas.Collector
import ObservableBSD.Export.Lemmas.Driver
import ObservableBSD.Instruments.Lemmas.Session

/-!
# Results about structured sessions
-/

namespace ObservableBSD.Instruments

open Export

/-- When a session is over, the collector has read a document for each post, and has a record for each body line, a
metric with a point for each aggregation record, and no drops beyond those of libdtrace. -/
theorem session_delivered (ocfg : OtlpConfig) (cfg : WatchConfig) (aggKeyNames : Text → Option (List Text))
    {values : List AggregationSnapshot → List AggregationSnapshot}
    (hvalues : ∀ snapshots, (values snapshots).Perm snapshots) {turns : List PollTurn}
    {walk : Option (List AggregationRecord)} {calls : List OtlpCall}
    (hcalls : sessionCalls cfg aggKeyNames values turns walk = some calls)
    (hgood : GoodRecords (walk.getD [])) (hdrops : dropsOf turns < 2 ^ 64)
    (doubleText : UInt64 → Text) (resource : ResourceAttributes) {s : OtlpSystem} {held : List Post}
    (hdriven : OtlpSystem.Driven ocfg calls s) (hdone : s.phase = .invalidated held) :
    ∃ requests c, s.posted.mapM (Post.request doubleText ocfg.scopeName resource) = some requests ∧
      collect requests = some c ∧ Delivered ocfg cfg aggKeyNames turns walk c := by
  obtain ⟨hevents, hgrouped, hreported⟩ := sessionCalls_given hvalues hcalls
  have hmatches : ∀ snapshot, .emitSnapshot snapshot ∈ calls → snapshot.Matches := fun snapshot hmem =>
    hgrouped.matches hgood snapshot (List.mem_filterMap.2 ⟨_, hmem, rfl⟩)
  obtain ⟨requests, c, hrequests, hcollect, hholds⟩ :=
    (hdriven.complete hdone).collected hmatches (by rwa [hreported]) doubleText resource
  rw [hevents, hreported] at hholds
  refine ⟨requests, c, hrequests, hcollect, hholds.logs, map_own_structuredEvents cfg _, ?_, ?_,
    hholds.drops⟩
  · have hbodies : ∀ body ∈ bodiesOf cfg.boundary (outputsOf turns), body ≠ [] := by
      intro body hbody
      obtain ⟨line, hline, rfl⟩ := List.mem_map.1 hbody
      exact trimmed_ne_of_body (List.mem_filter.1 hline).2
    have hmap := hholds.logs.map OtlpRecord.body
    rw [List.map_map, List.map_map] at hmap
    have hlogged := map_body_logRecords ocfg (map_printfBody_structuredEvents cfg (outputsOf turns)) hbodies
    rw [← hlogged]
    exact hmap
  · obtain ⟨order, hperm, hmetrics⟩ := hholds.metrics
    have hall : (calls.filterMap OtlpCall.snapshot?).filter (fun snapshot => snapshot.dataPoints ≠ []) =
        calls.filterMap OtlpCall.snapshot? :=
      List.filter_eq_self.2 fun snapshot hmem => by simpa using (hgrouped.points snapshot hmem).2.1
    rw [hall] at hperm
    exact ⟨order, hgrouped.perm hperm, hmetrics⟩

private def quietTurns : List PollTurn :=
  [{ callbacks := [.output { output := text "cat[42] open\n" }, .drop 3] },
    { callbacks := [.output { output := text " `f+0x2\n" }], status := .done }]

private def opensRecord : AggregationRecord where
  name := text "opens"
  action := .count
  keys := [text "cat"]
  value := 5

private def ioConfig : WatchConfig where
  profileName := text "io"
  joining := accentJoining
  isNumber := Char.isDigit
  clock _ := 0

private def catEvent : ProbeEvent where
  timestamp := 0
  profileName := text "io"
  probeName := []
  pid := 42
  execname := text "cat"
  printfBody := some (text "cat[42] open")
  stack := some [{ address := 0, module := text "", symbol := text "f", offset := some 2 }]

private def opensSnapshot : AggregationSnapshot where
  timestamp := 0
  profileName := text "io"
  aggregationName := text "opens"
  kind := .count
  dataPoints := [{ keys := [text "cat"], attributes := [(text "key.0", text "cat")], value := .scalar 5 }]

private def watchResource : ResourceAttributes where
  serviceName := text "bsdinstruments"
  hostName := text "host"
  osName := text "FreeBSD"
  osVersion := text "15.0"
  serviceVersion := text "0.1"

/-- Two turns of the loop, an event with a frame, drops, and an aggregation with one record. -/
theorem session_delivered_turns : ∃ s requests c,
    OtlpSystem.Reachable { scopeName := text "s", profileName := text "io" } s ∧
      s.posted.mapM (Post.request (fun _ => []) (text "s") watchResource) = some requests ∧
      collect requests = some c ∧
      Delivered { scopeName := text "s", profileName := text "io" } ioConfig (fun _ => none) quietTurns
        (some [opensRecord]) c := by
  have h : OtlpSystem.Driven { scopeName := text "s", profileName := text "io" } [] {} := .init
  have h := h.call rfl ⟨rfl, rfl⟩ (.reportDrops 3)
  have h := h.call rfl ⟨rfl, rfl⟩ (.emitEvent catEvent)
  have h := h.call rfl ⟨rfl, rfl⟩ (.emitSnapshot opensSnapshot)
  have h := h.call rfl ⟨rfl, rfl⟩ .flush
  obtain ⟨s, held, hgoes, hdone⟩ := h.ends
  have hdriven := h.trans hgoes
  have hgood : GoodRecords [opensRecord] := by
    intro record hrecord hhistogram
    obtain rfl := List.mem_singleton.1 hrecord
    cases hhistogram
  have hcalls : sessionCalls ioConfig (fun _ => none) id quietTurns (some [opensRecord]) = some _ := rfl
  obtain ⟨requests, c, hrequests, hcollect, hdelivered⟩ := session_delivered _ ioConfig (fun _ => none)
    (fun _ => .refl _) hcalls hgood (by decide) (fun _ => []) _ hdriven hdone
  exact ⟨s, requests, c, hdriven.reachable, hrequests, hcollect, hdelivered⟩

end ObservableBSD.Instruments
