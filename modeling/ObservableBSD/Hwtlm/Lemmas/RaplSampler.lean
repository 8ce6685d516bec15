import Mathlib.Data.List.Count
import Mathlib.Data.List.Nodup
import ObservableBSD.Base.Word
import ObservableBSD.Base.WrapCounter
import ObservableBSD.Hwtlm.RaplSampler

/-!
# Runs of the sampler

The sampler holds the last reading that succeeded (`Tracks`), so the deltas it reports for a domain are the
differences of neighbouring readings of that domain's counter.
-/

namespace ObservableBSD.Hwtlm

open Base

/-- A RAPL counter has 32 bits. -/
abbrev counterRange : Nat := 0x100000000

theorem toNat_counterRange : (0x100000000 : UInt64).toNat = counterRange := by decide

theorem checkedSub_of_le {a b : UInt64} (h : b ≤ a) : checkedSub a b = some (a - b) := if_pos h

theorem checkedAdd_of_lt {a b : UInt64} (h : a.toNat + b.toNat < UInt64.size) :
    checkedAdd a b = some (a + b) := if_pos h

theorem raplCounterDelta_spec {cur prev : UInt64} (hcur : cur.toNat < counterRange)
    (hprev : prev.toNat < counterRange) :
    ∃ delta, raplCounterDelta cur prev = some delta ∧
      delta.toNat = wrapDelta counterRange cur.toNat prev.toNat := by
  by_cases h : prev ≤ cur
  · have hle : prev.toNat ≤ cur.toNat := UInt64.le_iff_toNat_le.1 h
    refine ⟨cur - prev, ?_, ?_⟩
    · rw [raplCounterDelta, if_pos h, checkedSub_of_le h]
    · rw [UInt64.toNat_sub_of_le _ _ h, wrapDelta, if_pos hle]
  · have hlt : ¬ prev.toNat ≤ cur.toNat := fun hle => h (UInt64.le_iff_toNat_le.2 hle)
    have hrange : prev ≤ 0x100000000 := by
      rw [UInt64.le_iff_toNat_le, toNat_counterRange]
      exact Nat.le_of_lt hprev
    have hrest : (0x100000000 - prev : UInt64).toNat = counterRange - prev.toNat := by
      rw [UInt64.toNat_sub_of_le _ _ hrange, toNat_counterRange]
    have hsum : (0x100000000 - prev : UInt64).toNat + cur.toNat < UInt64.size := by
      unfold counterRange at hrest hcur
      unfold UInt64.size
      omega
    refine ⟨0x100000000 - prev + cur, ?_, ?_⟩
    · rw [raplCounterDelta, if_neg h, checkedSub_of_le hrange, Option.bind_eq_bind, Option.bind_some,
        checkedAdd_of_lt hsum]
    · rw [toNat_add_of_lt hsum, hrest, wrapDelta, if_neg hlt]

/-! ## Reading the counters -/

/-- Where the device answers, the low 32 bits of a domain's register are its energy modulo 2^32. -/
def SampleCall.Accurate (c : SampleCall) : Prop :=
  ∀ d raw, c.device.rdmsr d.energyMSR = .ok raw → raw.toNat % counterRange = c.energy d % counterRange

/-- All counters of the domains `ds` are there and right. -/
def Shows (ds : List RAPLDomain) (energy : RAPLDomain → Nat) (counters : Counters) : Prop :=
  ∀ d ∈ ds, ∃ v, counters d = some v ∧ v.toNat = energy d % counterRange

theorem readMSR_accurate {c : SampleCall} (hc : c.Accurate) {reader : CpuctlReader}
    (hdev : reader.device = c.device) {d : RAPLDomain} {raw : UInt64}
    (h : reader.readMSR d.energyMSR = .ok raw) :
    (raw &&& 0xFFFFFFFF).toNat = c.energy d % counterRange := by
  have hraw : c.device.rdmsr d.energyMSR = .ok raw := by
    unfold CpuctlReader.readMSR at h
    rw [hdev] at h
    split at h
    · cases h
      assumption
    · cases h
  rw [← hc d raw hraw, UInt64.toNat_and]
  exact Nat.and_two_pow_sub_one_eq_mod raw.toNat 32

theorem readDomains_spec {c : SampleCall} (hc : c.Accurate) {reader : CpuctlReader}
    (hdev : reader.device = c.device) {ds : List RAPLDomain} {counters m : Counters}
    (h : readDomains reader ds counters = .ok m) :
    Shows ds c.energy m ∧ ∀ d ∉ ds, m d = counters d := by
  induction ds generalizing counters with
  | nil =>
      cases h
      exact ⟨nofun, fun _ _ => rfl⟩
  | cons e ds ih =>
      cases hread : reader.readMSR e.energyMSR with
      | error err => simp [readDomains, hread, bind, Except.bind] at h
      | ok raw =>
          simp only [readDomains, hread, bind, Except.bind] at h
          obtain ⟨hshows, hother⟩ := ih h
          constructor
          · intro d hd
            by_cases hmem : d ∈ ds
            · exact hshows d hmem
            · -- only the head is left, whose entry the rest of the loop does not touch
              obtain rfl : d = e := (List.mem_cons.1 hd).resolve_right hmem
              exact ⟨raw &&& 0xFFFFFFFF, by simp [hother d hmem], readMSR_accurate hc hdev hread⟩
          · intro d hd
            obtain ⟨hne, hmem⟩ := List.ne_and_not_mem_of_not_mem_cons hd
            rw [hother d hmem, Function.update_of_ne hne]

theorem readCounters_shows {c : SampleCall} (hc : c.Accurate) {s : RAPLSampler} {m : Counters}
    (h : s.readCounters c.device = .ok m) : Shows s.domains c.energy m := by
  unfold RAPLSampler.readCounters at h
  cases hopen : CpuctlReader.open packageCPU c.device with
  | error err => simp [hopen, bind, Except.bind] at h
  | ok reader =>
      have hdev : reader.device = c.device := by
        unfold CpuctlReader.open at hopen
        split at hopen
        · cases hopen; rfl
        · split at hopen <;> cases hopen
      simp only [hopen, bind, Except.bind] at h
      exact (readDomains_spec hc hdev h).1

/-! ## One call -/

/-- The growth of a domain's counter that two readings show. -/
def shownDelta (d : RAPLDomain) (prev cur : RAPLDomain → Nat) : Nat :=
  wrapDelta counterRange (cur d % counterRange) (prev d % counterRange)

theorem raplCounterDelta_shown {d : RAPLDomain} {prev cur : RAPLDomain → Nat} {p c : UInt64}
    (hp : p.toNat = prev d % counterRange) (hc : c.toNat = cur d % counterRange) :
    ∃ delta, raplCounterDelta c p = some delta ∧ delta.toNat = shownDelta d prev cur := by
  have hpos : 0 < counterRange := by decide
  have hclt : c.toNat < counterRange := hc ▸ Nat.mod_lt _ hpos
  have hplt : p.toNat < counterRange := hp ▸ Nat.mod_lt _ hpos
  obtain ⟨delta, hdelta, hval⟩ := raplCounterDelta_spec hclt hplt
  exact ⟨delta, hdelta, by rw [hval, hc, hp, shownDelta]⟩

theorem sampleDomains_spec {counters previous : Counters} {ds : List RAPLDomain}
    {prev cur : RAPLDomain → Nat} (hprev : Shows ds prev previous) (hcur : Shows ds cur counters)
    (now prevTime : Date) :
    ∃ samples, sampleDomains now prevTime counters previous ds = some samples ∧
      samples.map (fun x => (x.domain, x.rawDelta.toNat)) = ds.map fun d => (d, shownDelta d prev cur) := by
  induction ds with
  | nil => exact ⟨[], rfl, rfl⟩
  | cons d ds ih =>
      obtain ⟨p, hp, hpval⟩ := hprev d List.mem_cons_self
      obtain ⟨c, hc, hcval⟩ := hcur d List.mem_cons_self
      obtain ⟨delta, hdelta, hval⟩ := raplCounterDelta_shown hpval hcval
      obtain ⟨samples, hrest, hmap⟩ := ih (fun e he => hprev e (List.mem_cons_of_mem d he))
        (fun e he => hcur e (List.mem_cons_of_mem d he))
      refine ⟨{ cpu := packageCPU, domain := d, timestamp := now, rawDelta := delta, prevTime } :: samples,
        ?_, ?_⟩
      · simp [sampleDomains, hp, hc, hdelta, hrest]
      · simp [hmap, hval]

/-- One value for each key picked out of a list without repetitions. -/
theorem filter_map_of_nodup {ds : List RAPLDomain} (hnodup : ds.Nodup) {d : RAPLDomain} (hd : d ∈ ds)
    (f : RAPLDomain → Nat) :
    ((ds.map fun e => (e, f e)).filter fun x => x.1 = d).map (·.2) = [f d] := by
  have hone : ds.filter (fun e => e = d) = [d] := by
    have h := List.filter_eq (l := ds) d
    rw [List.count_eq_one_of_mem hnodup hd] at h
    simpa using h
  simp only [List.filter_map, Function.comp_def, hone, List.map_cons, List.map_nil]

theorem rawDeltas_of_map {samples : List RAPLSample} {ds : List RAPLDomain} {f : RAPLDomain → Nat}
    (h : samples.map (fun x => (x.domain, x.rawDelta.toNat)) = ds.map fun e => (e, f e)) (hnodup : ds.Nodup)
    {d : RAPLDomain} (hd : d ∈ ds) (now : Date) :
    rawDeltas d (.ok (some { timestamp := now, samples })) = [f d] := by
  rw [← filter_map_of_nodup hnodup hd f, ← h]
  simp [rawDeltas, List.filter_map, Function.comp_def]

theorem execDeltas_spec {before after : Counters} {ds : List RAPLDomain} {prev cur : RAPLDomain → Nat}
    (hprev : Shows ds prev before) (hcur : Shows ds cur after) :
    ∃ power, execDeltas before after ds = some power ∧
      power.map (fun x => (x.1, x.2.toNat)) = ds.map fun d => (d, shownDelta d prev cur) := by
  induction ds with
  | nil => exact ⟨[], rfl, rfl⟩
  | cons d ds ih =>
      obtain ⟨b, hb, hbval⟩ := hprev d List.mem_cons_self
      obtain ⟨a, ha, haval⟩ := hcur d List.mem_cons_self
      obtain ⟨delta, hdelta, hval⟩ := raplCounterDelta_shown hbval haval
      obtain ⟨power, hrest, hmap⟩ := ih (fun e he => hprev e (List.mem_cons_of_mem d he))
        (fun e he => hcur e (List.mem_cons_of_mem d he))
      refine ⟨(d, delta) :: power, ?_, ?_⟩
      · simp [execDeltas, hb, ha, hdelta, hrest]
      · simp [hmap, hval]

theorem execRawDeltas_of_map {power : List (RAPLDomain × UInt64)} {ds : List RAPLDomain}
    {f : RAPLDomain → Nat} (h : power.map (fun x => (x.1, x.2.toNat)) = ds.map fun e => (e, f e))
    (hnodup : ds.Nodup) {d : RAPLDomain} (hd : d ∈ ds) : execRawDeltas d power = [f d] := by
  rw [← filter_map_of_nodup hnodup hd f, ← h]
  simp [execRawDeltas, List.filter_map, Function.comp_def]

/-! ## Runs -/

/-- The call reads all counters of the microarchitecture. -/
def SampleCall.reads (arch : IntelMicroarch) (c : SampleCall) : Bool :=
  (({ microarch := arch } : RAPLSampler).readCounters c.device).isOk

/-- The reading depends on the sampler only through its domains. -/
theorem SampleCall.reads_eq (s : RAPLSampler) (c : SampleCall) :
    c.reads s.microarch = (s.readCounters c.device).isOk := rfl

theorem exists_readCounters {s : RAPLSampler} {c : SampleCall} (h : c.reads s.microarch = true) :
    ∃ m, s.readCounters c.device = .ok m := by
  rw [SampleCall.reads_eq] at h
  cases hread : s.readCounters c.device with
  | error e => simp [hread, Except.isOk, Except.toBool] at h
  | ok m => exact ⟨m, rfl⟩

/-- `prev` is the last call so far whose reading succeeded, and the sampler holds what it read. -/
def Tracks (s : RAPLSampler) : Option SampleCall → Prop
  | none => s.previousTime = none
  | some prev => s.previousTime.isSome ∧ Shows s.domains prev.energy s.previous

theorem sampleOnce_throws {s s' : RAPLSampler} {now : Date} {device : CpuctlDevice} {e : HWError}
    (h : s.sampleOnce now device = some (.error e, s')) : s' = s := by
  unfold RAPLSampler.sampleOnce at h
  split at h
  · cases h; rfl
  · split at h
    · cases h
    · rw [Option.bind_eq_bind, Option.bind_eq_some_iff] at h
      obtain ⟨samples, -, hres⟩ := h
      cases hres

theorem sampleOnce_of_not_reads {s : RAPLSampler} {c : SampleCall} (h : c.reads s.microarch = false) :
    ∃ e, s.sampleOnce c.now c.device = some (.error e, s) := by
  rw [SampleCall.reads_eq] at h
  cases hread : s.readCounters c.device with
  | error e => exact ⟨e, by simp [RAPLSampler.sampleOnce, hread]⟩
  | ok m => simp [hread, Except.isOk, Except.toBool] at h

/-- A call that reads the counters reports for each domain how far its counter went since the last one that
did, and is tracked from then on. -/
theorem sampleOnce_of_reads {s : RAPLSampler} {prev : Option SampleCall} {c : SampleCall}
    (hs : Tracks s prev) (hc : c.Accurate) (h : c.reads s.microarch = true) :
    ∃ result s', s.sampleOnce c.now c.device = some (result, s') ∧ s'.microarch = s.microarch ∧
      Tracks s' (some c) ∧
      ∀ d ∈ s.domains, rawDeltas d result =
        (prev.map fun p => shownDelta d p.energy c.energy).toList := by
  obtain ⟨m, hread⟩ := exists_readCounters h
  have hshows := readCounters_shows hc hread
  cases prev with
  | none =>
      have hnone : s.previousTime = none := hs
      refine ⟨.ok none, { s with previous := m, previousTime := some c.now }, ?_, rfl, ⟨rfl, hshows⟩,
        fun d _ => rfl⟩
      simp only [RAPLSampler.sampleOnce, hread, hnone]
  | some p =>
      obtain ⟨hsome, hprev⟩ : s.previousTime.isSome ∧ Shows s.domains p.energy s.previous := hs
      obtain ⟨prevTime, htime⟩ := Option.isSome_iff_exists.1 hsome
      obtain ⟨samples, hsamples, hmap⟩ :=
        sampleDomains_spec hprev hshows c.now prevTime
      refine ⟨.ok (some { timestamp := c.now, samples }),
        { s with previous := m, previousTime := some c.now }, ?_, rfl, ⟨rfl, hshows⟩, fun d hd => ?_⟩
      · simp [RAPLSampler.sampleOnce, hread, htime, hsamples]
      · exact rawDeltas_of_map hmap s.microarch.supportedDomains_nodup hd c.now

/-- The true counts of a domain at the calls of a run that read the counters. -/
def trueCounts (arch : IntelMicroarch) (d : RAPLDomain) (cs : List SampleCall) : List Nat :=
  (cs.filter (SampleCall.reads arch)).map (·.energy d)

/-- The deltas of a run are the differences of the readings that succeeded. -/
theorem sampleRun_spec {s : RAPLSampler} {prev : Option SampleCall} {cs : List SampleCall}
    (hs : Tracks s prev) (hcs : ∀ c ∈ cs, c.Accurate) :
    ∃ results last, sampleRun s cs = some (results, last) ∧
      ∀ d ∈ s.domains, results.flatMap (rawDeltas d) =
        wrapDeltas counterRange ((prev.map (·.energy d)).toList ++ trueCounts s.microarch d cs) := by
  induction cs generalizing s prev with
  | nil =>
      refine ⟨[], s, rfl, fun d _ => ?_⟩
      cases prev <;> rfl
  | cons c cs ih =>
      have hrest := fun x hx => hcs x (List.mem_cons_of_mem c hx)
      cases hreads : c.reads s.microarch with
      | false =>
          obtain ⟨e, hstep⟩ := sampleOnce_of_not_reads hreads
          obtain ⟨results, last, hrun, hdeltas⟩ := ih hs hrest
          refine ⟨.error e :: results, last, by simp [sampleRun, hstep, hrun], fun d hd => ?_⟩
          simpa [rawDeltas, trueCounts, hreads] using hdeltas d hd
      | true =>
          obtain ⟨result, s', hstep, harch, hs', hresult⟩ :=
            sampleOnce_of_reads hs (hcs c List.mem_cons_self) hreads
          obtain ⟨results, last, hrun, hdeltas⟩ := ih hs' hrest
          refine ⟨result :: results, last, by simp [sampleRun, hstep, hrun], fun d hd => ?_⟩
          have hd' : d ∈ s'.domains := by rwa [RAPLSampler.domains, harch]
          rw [List.flatMap_cons, hresult d hd, hdeltas d hd', harch]
          cases prev <;> simp [wrapDeltas, shownDelta, trueCounts, hreads]

/-- `hwtlm exec` reports for each domain how far its counter went between the two readings. -/
theorem execPower_spec {s : RAPLSampler} {before after : SampleCall} (hb : before.Accurate)
    (ha : after.Accurate) (hbreads : before.reads s.microarch = true)
    (hareads : after.reads s.microarch = true) :
    ∃ power, execPower (some s) before.device after.device = some power ∧
      ∀ d ∈ s.domains, execRawDeltas d power = [shownDelta d before.energy after.energy] := by
  obtain ⟨b, hbread⟩ := exists_readCounters hbreads
  obtain ⟨a, haread⟩ := exists_readCounters hareads
  obtain ⟨power, hpower, hmap⟩ :=
    execDeltas_spec (readCounters_shows hb hbread) (readCounters_shows ha haread)
  refine ⟨power, by simp [execPower, hbread, haread, hpower], fun d hd => ?_⟩
  exact execRawDeltas_of_map hmap s.microarch.supportedDomains_nodup hd

end ObservableBSD.Hwtlm
