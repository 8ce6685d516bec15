import ObservableBSD.Hwtlm.Lemmas.RaplSampler

/-!
# Energy over a run

The deltas of the sampler add up to the energy consumed between its first and its last reading. `hwtlm exec`
takes one difference over the whole run, which is right as long as no counter goes round in it.
-/

namespace ObservableBSD.Hwtlm

open Base

/-! ## Calls of one device -/

/-- A call at which each domain has consumed `n` units and the device answers. -/
def workingCall (n : Nat) : SampleCall :=
  { now := n, device := { rdmsr := fun _ => .ok (UInt64.ofNat n) }, energy := fun _ => n }

/-- A call at which the device cannot be opened. -/
def brokenCall (n : Nat) : SampleCall :=
  { now := n, device := { openErrno := some ENOENT, rdmsr := fun _ => .error ENOENT },
    energy := fun _ => n }

theorem workingCall_accurate {n : Nat} (h : n < UInt64.size) : (workingCall n).Accurate := by
  intro d raw hraw
  cases hraw
  rw [UInt64.toNat_ofNat_of_lt' h]
  rfl

theorem brokenCall_accurate (n : Nat) : (brokenCall n).Accurate := by
  intro d raw hraw
  cases hraw

theorem workingCall_reads (arch : IntelMicroarch) (n : Nat) : (workingCall n).reads arch = true := by
  cases arch <;> rfl

theorem workingCalls (arch : IntelMicroarch) {l : List Nat} (h : ∀ n ∈ l, n < UInt64.size) :
    ∀ c ∈ l.map workingCall, c.Accurate ∧ c.reads arch = true := by
  intro c hc
  obtain ⟨n, hn, rfl⟩ := List.mem_map.1 hc
  exact ⟨workingCall_accurate (h n hn), workingCall_reads arch n⟩

/-! ## The sampler -/

theorem sampleRun_telescopes (arch : IntelMicroarch) (cs : List SampleCall)
    (haccurate : ∀ c ∈ cs, c.Accurate) :
    (∀ (s s' : RAPLSampler) (now : Date) (device : CpuctlDevice) (e : HWError),
      s.sampleOnce now device = some (.error e, s') → s' = s) ∧
    ∃ results last, sampleRun { microarch := arch } cs = some (results, last) ∧
      ∀ d ∈ arch.supportedDomains,
        (∀ delta ∈ results.flatMap (rawDeltas d), delta ≤ counterRange - 1) ∧
        ((trueCounts arch d cs).IsChain (Slow counterRange) →
          ∀ first final, (trueCounts arch d cs).head? = some first →
            (trueCounts arch d cs).getLast? = some final →
            first + total (results.flatMap (rawDeltas d)) = final) := by
  refine ⟨fun s s' now device e h => sampleOnce_throws h, ?_⟩
  have hinit : Tracks { microarch := arch } none := rfl
  obtain ⟨results, last, hrun, hdeltas⟩ := sampleRun_spec hinit haccurate
  refine ⟨results, last, hrun, fun d hd => ?_⟩
  have hd' : results.flatMap (rawDeltas d) = wrapDeltas counterRange (trueCounts arch d cs) := hdeltas d hd
  rw [hd']
  constructor
  · intro delta hdelta
    exact Nat.le_sub_one_of_lt (wrapDeltas_lt (by decide) hdelta)
  · intro hslow first final hfirst hfinal
    exact add_total_wrapDeltas hslow hfirst hfinal

/-- Two intervals with a rollover in the second and a call that fails in front of it. -/
theorem sampleRun_rollover :
    ∃ results last,
      sampleRun { microarch := .atom } [workingCall 0, workingCall 4000000000, brokenCall 4100000000,
        workingCall 5000000000] = some (results, last) ∧
      total (results.flatMap (rawDeltas .package)) = 5000000000 := by
  have haccurate : ∀ c ∈ [workingCall 0, workingCall 4000000000, brokenCall 4100000000,
      workingCall 5000000000], c.Accurate := by
    simp only [List.forall_mem_cons]
    exact ⟨workingCall_accurate (by decide), workingCall_accurate (by decide), brokenCall_accurate _,
      workingCall_accurate (by decide), nofun⟩
  obtain ⟨-, results, last, hrun, hdeltas⟩ := sampleRun_telescopes .atom _ haccurate
  have hsum := (hdeltas .package (by decide)).2 (by decide) 0 5000000000 rfl rfl
  exact ⟨results, last, hrun, by omega⟩

/-! ## One difference over the whole run -/

/-- The sampler and `hwtlm exec`, which reads the counters at the first and at the last call only, report the
same for a domain. -/
def ExecAgrees (arch : IntelMicroarch) (cs : List SampleCall) (d : RAPLDomain) : Prop :=
  ∃ first final results last power, cs.head? = some first ∧ cs.getLast? = some final ∧
    sampleRun { microarch := arch } cs = some (results, last) ∧
    execPower (some { microarch := arch }) first.device final.device = some power ∧
    execRawDeltas d power = [total (results.flatMap (rawDeltas d))]

theorem execAgrees_iff_delta {arch : IntelMicroarch} {cs : List SampleCall} {first final : SampleCall}
    (hfirst : cs.head? = some first) (hfinal : cs.getLast? = some final) (haccurate : ∀ c ∈ cs, c.Accurate)
    (hreads : ∀ c ∈ cs, c.reads arch = true) {d : RAPLDomain} (hd : d ∈ arch.supportedDomains) :
    ExecAgrees arch cs d ↔
      shownDelta d first.energy final.energy = total (wrapDeltas counterRange (trueCounts arch d cs)) := by
  have hinit : Tracks { microarch := arch } none := rfl
  obtain ⟨results, last, hrun, hdeltas⟩ := sampleRun_spec hinit haccurate
  have hmem : first ∈ cs := List.mem_of_mem_head? hfirst
  have hmem' : final ∈ cs := List.mem_of_mem_getLast? hfinal
  obtain ⟨power, hpower, hexec⟩ := execPower_spec (s := { microarch := arch }) (haccurate _ hmem)
    (haccurate _ hmem') (hreads _ hmem) (hreads _ hmem')
  have hreported : results.flatMap (rawDeltas d) = wrapDeltas counterRange (trueCounts arch d cs) :=
    hdeltas d hd
  rw [← hreported]
  constructor
  · rintro ⟨first', final', results', last', power', hfirst', hfinal', hrun', hpower', hagree⟩
    cases hfirst.symm.trans hfirst'
    cases hfinal.symm.trans hfinal'
    cases hrun.symm.trans hrun'
    cases hpower.symm.trans hpower'
    rw [hexec d hd] at hagree
    exact List.singleton_inj.1 hagree
  · intro hsum
    exact ⟨first, final, results, last, power, hfirst, hfinal, hrun, hpower, by rw [hexec d hd, hsum]⟩

theorem execAgrees_iff (arch : IntelMicroarch) (cs : List SampleCall) (first final : SampleCall)
    (hfirst : cs.head? = some first) (hfinal : cs.getLast? = some final) (haccurate : ∀ c ∈ cs, c.Accurate)
    (hreads : ∀ c ∈ cs, c.reads arch = true) (d : RAPLDomain) (hd : d ∈ arch.supportedDomains)
    (hslow : (trueCounts arch d cs).IsChain (Slow counterRange)) :
    ExecAgrees arch cs d ↔ final.energy d - first.energy d < counterRange := by
  have hcounts : trueCounts arch d cs = cs.map (·.energy d) := by
    rw [trueCounts, List.filter_eq_self.2 hreads]
  rw [execAgrees_iff_delta hfirst hfinal haccurate hreads hd]
  exact wrapDelta_eq_total_iff (by decide) hslow (by simp [hcounts, hfirst]) (by simp [hcounts, hfinal])

theorem execAgrees_small :
    ExecAgrees .atom [workingCall 0, workingCall 3000000000, workingCall 4200000000] .package := by
  have hcalls := workingCalls .atom (l := [0, 3000000000, 4200000000]) (by decide)
  exact (execAgrees_iff .atom _ (workingCall 0) (workingCall 4200000000) rfl rfl
    (fun c hc => (hcalls c hc).1) (fun c hc => (hcalls c hc).2) .package (by decide) (by decide)).2 (by decide)

/-- Two intervals of 3·10⁹ units each: the counter goes round once, and one difference misses 2^32 units. -/
theorem not_execAgrees_wrapped :
    ¬ ∀ (arch : IntelMicroarch) (cs : List SampleCall) (first final : SampleCall), cs.head? = some first →
      cs.getLast? = some final → (∀ c ∈ cs, c.Accurate) → (∀ c ∈ cs, c.reads arch = true) →
      ∀ d ∈ arch.supportedDomains, (trueCounts arch d cs).IsChain (Slow counterRange) → ExecAgrees arch cs d := by
  intro h
  have hcalls := workingCalls .atom (l := [0, 3000000000, 6000000000]) (by decide)
  have haccurate := fun c hc => (hcalls c hc).1
  have hreads := fun c hc => (hcalls c hc).2
  have hagrees := h .atom _ (workingCall 0) (workingCall 6000000000) rfl rfl haccurate hreads .package
    (by decide) (by decide)
  rw [execAgrees_iff_delta rfl rfl haccurate hreads (by decide)] at hagrees
  exact absurd hagrees (by decide)

end ObservableBSD.Hwtlm
