import Mathlib.Tactic.Linarith
import ObservableBSD.Hwtlm.Watch
import ObservableBSD.Instruments.KeyValue

/-!
# Results about intervals and durations
-/

namespace ObservableBSD.Hwtlm

open Base Export Instruments

/-- No accepted `--interval` traps, and none becomes a pause of nothing. -/
def AcceptedIntervalFits (interval : ℚ) : Prop :=
  ∀ (c : WatchCommand) (host : WatchHost), c.interval = interval → c.validate host = .ok () →
    ∃ r, c.run host = some r ∧ ∀ micros, r = .ok micros → micros ≠ 0

/-- No accepted `--duration` traps when a profile is rendered. -/
def AcceptedDurationFits (duration : ℚ) : Prop :=
  ∀ boundary (c : TimedCommand), c.durationSeconds = some duration → c.validate boundary = .ok () →
    ∀ (p : Profile) parameters i, (p.renderTimed boundary parameters i c.durationSeconds).isSome

variable {x : ℚ}

/-! ## Intervals -/

theorem uint32Of?_ne_zero (h1 : 1 ≤ x) (h2 : x < 2 ^ 32) : ∃ m, uint32Of? x = some m ∧ m ≠ 0 := by
  have h0 : 0 ≤ x := le_trans zero_le_one h1
  have hfloor : 1 ≤ ⌊x⌋ := Int.le_floor.mpr (by exact_mod_cast h1)
  have hlt : ⌊x⌋ < 2 ^ 32 := Int.floor_lt.mpr (by exact_mod_cast h2)
  have hvalue : (UInt32.ofNat ⌊x⌋.toNat).toNat = ⌊x⌋.toNat := UInt32.toNat_ofNat_of_lt' (by
    simp only [UInt32.size]
    omega)
  refine ⟨UInt32.ofNat ⌊x⌋.toNat, ?_, fun hzero => ?_⟩
  · rw [uint32Of?, integerOf?_of_nonneg h0 le_rfl (by exact_mod_cast h2), Option.map_some]
  · rw [hzero] at hvalue
    have : (0 : UInt32).toNat = 0 := rfl
    omega

theorem one_le_of_uint32Of? {m : UInt32} (h0 : 0 < x) (h : uint32Of? x = some m) (hne : m ≠ 0) :
    1 ≤ x ∧ x < 2 ^ 32 := by
  obtain ⟨n, hn, rfl⟩ := Option.map_eq_some_iff.mp h
  have hlt := lt_of_integerOf? (by norm_num) hn
  refine ⟨?_, by exact_mod_cast hlt⟩
  by_contra hsmall
  rw [not_le] at hsmall
  rw [integerOf?_of_nonneg h0.le le_rfl hlt, Int.floor_eq_zero_iff.mpr ⟨h0.le, hsmall⟩] at hn
  cases hn
  exact hne rfl

theorem exporterStart_isSome (hx : x * 1000000 < 2 ^ 32) : (exporterStart x).isSome := by
  unfold exporterStart
  split
  · rename_i h0
    have hlt : x * 1000000000 < 2 ^ 63 := by linarith
    have hfloor : ⌊x * 1000000000⌋ < 2 ^ 63 := Int.floor_lt.mpr (by exact_mod_cast hlt)
    have hconvert : uint64Of? (x * 1000000000) = some (UInt64.ofNat ⌊x * 1000000000⌋.toNat) := by
      rw [uint64Of?, integerOf?_of_nonneg (by linarith) le_rfl (by push_cast; linarith), Option.map_some]
    have hvalue : (UInt64.ofNat ⌊x * 1000000000⌋.toNat).toNat < 2 ^ 63 := by
      rw [UInt64.toNat_ofNat_of_lt' (by simp only [UInt64.size]; omega)]
      omega
    simp only [hconvert, Option.bind_eq_bind, Option.bind_some, int64OfUInt64?, if_pos hvalue]
    rfl
  · rfl

theorem startExporter_isSome {c : WatchCommand} (h : c.interval * 1000000 < 2 ^ 32) (host : WatchHost) :
    ∃ r, c.startExporter host = some r := by
  obtain ⟨n, hn⟩ := Option.isSome_iff_exists.mp (exporterStart_isSome h)
  unfold WatchCommand.startExporter
  split
  · dsimp only
    generalize (if c.endpoint = text "http://localhost:4318" then host.otelEndpoint else none) = override
    split
    · exact ⟨.ok (), by rw [hn, Option.map_some]⟩
    · exact ⟨_, rfl⟩
  · exact ⟨_, rfl⟩

/-- The first sample has nothing to subtract. -/
theorem sampleOnce_first (microarch : IntelMicroarch) (now : Date) (device : CpuctlDevice) :
    ∃ r, RAPLSampler.sampleOnce { microarch } now device = some r := by
  unfold RAPLSampler.sampleOnce
  split <;> exact ⟨_, rfl⟩

theorem WatchCommand.run_of_fits {c : WatchCommand} (h1 : 1 ≤ c.interval * 1000000)
    (h2 : c.interval * 1000000 < 2 ^ 32) (host : WatchHost) :
    ∃ r, c.run host = some r ∧ ∀ micros, r = .ok micros → micros ≠ 0 := by
  obtain ⟨m, hm, hne⟩ := uint32Of?_ne_zero h1 h2
  obtain ⟨started, hstart⟩ := startExporter_isSome h2 host
  unfold WatchCommand.run
  simp only [hstart, Option.bind_eq_bind, Option.bind_some]
  cases started with
  | error e => exact ⟨.error e, rfl, fun _ h => by cases h⟩
  | ok _ =>
      have hok : ∀ micros, (Except.ok m : Except WatchError UInt32) = .ok micros → micros ≠ 0 := by
        rintro _ ⟨⟩
        exact hne
      cases host.rapl with
      | none => exact ⟨.ok m, by simp only [hm, Option.bind_some], hok⟩
      | some microarch =>
          obtain ⟨⟨result, s⟩, hsample⟩ := sampleOnce_first microarch host.now host.device
          simp only [RAPLSampler.run, hsample, Option.bind_eq_bind, Option.bind_some]
          cases result with
          | error e => exact ⟨.error (.failure e), rfl, fun _ h => by cases h⟩
          | ok _ =>
              refine ⟨.ok m, ?_, hok⟩
              simp only [hm, Option.bind_some, Option.map_some]
              rfl

/-- A host without RAPL. -/
private def plainHost : WatchHost where
  scheme _ := none
  device := { rdmsr := fun _ => .ok 0 }

theorem acceptedIntervalFits_iff (x : ℚ) :
    AcceptedIntervalFits x ↔ (0 < x → 1 ≤ x * 1000000 ∧ x * 1000000 < 2 ^ 32) := by
  constructor
  · intro h h0
    have hvalid : WatchCommand.validate { interval := x } plainHost = .ok () := by
      simp [WatchCommand.validate, not_le.mpr h0]
    obtain ⟨r, hrun, hne⟩ := h { interval := x } plainHost rfl hvalid
    have hrun : (uint32Of? (x * 1000000)).bind (fun micros => some (.ok micros)) = some r := hrun
    obtain ⟨micros, hmicros, hr⟩ := Option.bind_eq_some_iff.mp hrun
    exact one_le_of_uint32Of? (by linarith) hmicros (hne micros (Option.some.inj hr).symm)
  · rintro h c host rfl hvalid
    have h0 : 0 < c.interval := by
      by_contra hle
      rw [WatchCommand.validate, if_pos (not_lt.mp hle)] at hvalid
      cases hvalid
    exact WatchCommand.run_of_fits (h h0).1 (h h0).2 host

/-! ## Durations -/

theorem acceptedDurationFits_iff (d : ℚ) : AcceptedDurationFits d ↔ d * 1000000000 < 2 ^ 63 := by
  constructor
  · intro h
    rcases le_or_gt d 0 with hle | h0
    · linarith
    have hsome := h (fun _ _ => true) { profile := some [], durationSeconds := some d } rfl rfl
      { name := [], source := [] } (fun _ => none) {}
    have hrender : Profile.renderTimed (fun _ _ => true) { name := [], source := [] } (fun _ => none) {} (some d) =
        (durationNanos? (some d)).map _ := rfl
    rw [hrender, Option.isSome_map, durationNanos?, if_pos h0, Option.isSome_map] at hsome
    obtain ⟨_, hnanos⟩ := Option.isSome_iff_exists.mp hsome
    obtain ⟨n, hn, _⟩ := Option.map_eq_some_iff.mp hnanos
    exact_mod_cast lt_of_integerOf? (by norm_num) hn
  · intro h boundary c hduration _ p parameters i
    rw [hduration, Profile.renderTimed]
    split
    · rfl
    · rw [Option.isSome_map, durationNanos?]
      split
      · rename_i h0
        rw [int64Of?, integerOf?_of_nonneg (by linarith) (by norm_num) (by exact_mod_cast h)]
        rfl
      · rfl

/-- Accepted intervals and durations never trap, and no pause is empty, exactly when the interval is at least a
microsecond and below 2^32 of them, and the duration is below 2^63 nanoseconds. -/
theorem accepted_fit_iff (interval duration : ℚ) :
    AcceptedIntervalFits interval ∧ AcceptedDurationFits duration ↔
      (0 < interval → 1 ≤ interval * 1000000 ∧ interval * 1000000 < 2 ^ 32) ∧ duration * 1000000000 < 2 ^ 63 := by
  rw [acceptedIntervalFits_iff, acceptedDurationFits_iff]

/-- `--interval 5000` traps: 5 · 10^9 microseconds are too many for 32 bits. -/
theorem accepted_not_fit : ¬ ∀ interval duration, AcceptedIntervalFits interval ∧ AcceptedDurationFits duration := by
  intro h
  have hfits := (acceptedIntervalFits_iff 5000).mp (h 5000 1).1 (by norm_num)
  exact absurd hfits.2 (by norm_num)

end ObservableBSD.Hwtlm
