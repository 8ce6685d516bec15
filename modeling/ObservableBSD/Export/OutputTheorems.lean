import ObservableBSD.Export.Lemmas.Collapsed
import ObservableBSD.Export.Lemmas.Post

/-!
# What the exporters print and send
-/

namespace ObservableBSD.Export

open Base Json CollapsedStackExporter

/-! ## Folded stacks -/

/-- Counting stops the program only where a count of 64 bits has no room. -/
theorem countsBelow_paths_iff {events : List ProbeEvent} (hplain : ∀ e ∈ events, e.sample.Plain) (n : Nat) :
    CountsBelow n (paths events) ↔ ∀ s ∈ samples events, (samples events).countP (s.Shares ·) < n := by
  have hcount {s : Sample} (hs : s ∈ samples events) :
      ((paths events).countP fun p => p = s.path) = (samples events).countP (s.Shares ·) := by
    rw [paths, List.countP_map]
    refine List.countP_congr fun t ht => ?_
    have hshares := (plain_of_mem hplain hs).path_eq_iff (plain_of_mem hplain ht)
    simpa [eq_comm] using hshares
  rw [countsBelow_iff_countP]
  constructor
  · intro h s hs
    rw [← hcount hs]
    exact h _ (List.mem_map_of_mem hs)
  · intro h p hp
    obtain ⟨s, hs, rfl⟩ := List.mem_map.1 hp
    rw [hcount hs]
    exact h s hs

theorem samples_perm {events events' : List ProbeEvent} (h : events'.Perm events) :
    (samples events').Perm (samples events) := (h.map _).filter _

/-- Every event is counted in the one line of its stack, and neither the order of the events nor the order in which the
dictionary is walked through shows in what is printed. -/
theorem shutdown_printsFolded (events : List ProbeEvent) (hplain : ∀ e ∈ events, e.sample.Plain) :
    (emitAll {} events = none ↔ ∃ s ∈ samples events, 2 ^ 64 ≤ (samples events).countP (s.Shares ·)) ∧
    ∀ x, emitAll {} events = some x → ∀ snapshot, snapshot.Perm x.folded →
      PrintsFolded (samples events) (shutdown snapshot) ∧
      ∀ events', events'.Perm events → ∃ x', emitAll {} events' = some x' ∧
        ∀ snapshot', snapshot'.Perm x'.folded → shutdown snapshot' = shutdown snapshot := by
  have hpaths {events' : List ProbeEvent} (h : events'.Perm events) : (paths events').Perm (paths events) :=
    (samples_perm h).map _
  constructor
  · have hbelow := countsBelow_paths_iff hplain (2 ^ 64)
    rw [emitAll_eq]
    split
    · rename_i h
      refine iff_of_false (Option.some_ne_none _) ?_
      rintro ⟨s, hs, hcount⟩
      exact absurd (hbelow.1 h s hs) (by omega)
    · rename_i h
      refine iff_of_true rfl ?_
      rw [hbelow] at h
      simpa using h
  · intro x hx snapshot hsnapshot
    rw [emitAll_eq] at hx
    split at hx
    · rename_i hbelow
      cases hx
      refine ⟨?_, fun events' hevents => ?_⟩
      · rw [shutdown_eq]
        exact printsFolded_of_perm ((List.mergeSort_perm snapshot _).trans hsnapshot) fun s hs => plain_of_mem hplain hs
      · have hx' : emitAll {} events' = some { folded := tally (paths events') } := by
          rw [emitAll_eq, if_pos (hbelow.perm (hpaths hevents))]
        refine ⟨_, hx', fun snapshot' hsnapshot' => ?_⟩
        have hperm : snapshot'.Perm snapshot :=
          (hsnapshot'.trans (tally_perm (hpaths hevents))).trans hsnapshot.symm
        have hnodup : (snapshot.map Prod.fst).Nodup :=
          (hsnapshot.map Prod.fst).nodup_iff.2 (nodup_map_fst_tally _)
        rw [shutdown_eq, shutdown_eq, mergeSort_eq_of_perm hperm hnodup]
    · cases hx

def stackEvent (execname : Text) (stack ustack : List Text) : ProbeEvent where
  timestamp := 0
  profileName := text "sched-on-cpu"
  probeName := text "sched:::on-cpu"
  pid := 1
  execname
  printfBody := none
  stack := some (stack.map fun symbol => { address := 0, symbol := some symbol })
  ustack := some (ustack.map fun symbol => { address := 0, symbol := some symbol })

/-- A kernel stack and the same frames as a process stack are one line, both together are another one. -/
theorem shutdown_printsFolded_three :
    let events := [stackEvent (text "sh") [text "f"] [], stackEvent (text "sh") [] [text "f"],
      stackEvent (text "sh") [text "f"] [text "f"], stackEvent (text "sh") [] []]
    ∃ x, emitAll {} events = some x ∧ shutdown x.folded = [text "sh;f 2\n", text "sh;f;--;f 1\n"] ∧
      PrintsFolded (samples events) (shutdown x.folded) := by
  intro events
  have hplain : ∀ e ∈ events, e.sample.Plain := by
    intro e he
    simp only [events, List.mem_cons, List.not_mem_nil, or_false] at he
    rcases he with rfl | rfl | rfl | rfl <;> exact ⟨by decide, by decide⟩
  let folded := [(text "sh;f", 2), (text "sh;f;--;f", 1)]
  have hx : emitAll {} events = some { folded } := by rfl
  have hsorted : (folded.mergeSort fun a b => a.1 ≤ b.1) = folded := List.mergeSort_of_pairwise (by decide)
  refine ⟨{ folded }, hx, ?_, ((shutdown_printsFolded events hplain).2 _ hx _ (List.Perm.refl _)).1⟩
  rw [shutdown_eq, hsorted]
  decide

/-! ## Posts -/

theorem attempts_post (F : Foundation) (cfg : PostConfig) (path : Text) (data : Data) (responses : Nat → Response) :
    (post F cfg path data responses).Attempts (postRequest F cfg path data) responses cfg.maxRetries 0 :=
  attempts_postFrom (Nat.zero_add _)

theorem returned_post_iff (F : Foundation) (cfg : PostConfig) (path : Text) (data : Data) (responses : Nat → Response) :
    (post F cfg path data responses).ending = .returned ↔ WaitsEnd F cfg.maxRetries responses := by
  rw [← waitsEndFrom_iff]
  exact returned_postFrom_iff (Nat.zero_add _)

/-- The requests that the protocol asks for are sent exactly when no wait before one of them goes wrong. -/
theorem post_followsRetries_iff (F : Foundation) (cfg : PostConfig) (path : Text) (data : Data)
    (responses : Nat → Response) :
    FollowsRetries (postRequest F cfg path data) cfg.maxRetries responses (post F cfg path data responses) ↔
      WaitsEnd F cfg.maxRetries responses := by
  rw [(attempts_post F cfg path data responses).followsRetries_iff, returned_post_iff]

/-- Requests without compression; of the numbers, only `inf` is read. -/
def plainFoundation : Foundation where
  appendingPathComponent url component := url ++ text "/" ++ component
  setValue fields field value := upsert Prod.fst field (field, value) (fun _ => (field, value)) fields
  deflate _ := none
  jsonObject _ := none
  asInt := Value.int?
  double s := if s = text "inf" then some .infinity else none

/-- The collector is overloaded and asks to wait for `inf` seconds; the next request would be accepted. -/
theorem infinite_retryAfter_not_followsRetries :
    let cfg : PostConfig := { endpoint := text "http://localhost:4318", serviceVersion := text "0.1.0" }
    let responses : Nat → Response := fun
      | 0 => .http 503 (some (text "inf")) none
      | _ => .http 200 none none
    ¬ FollowsRetries (postRequest plainFoundation cfg (text "v1/logs") [123, 125]) cfg.maxRetries responses
      (post plainFoundation cfg (text "v1/logs") [123, 125] responses) := by
  intro cfg responses h
  have hretry : (responses 0).Retryable ∧ 0 < cfg.maxRetries := ⟨by simp [responses, Response.Retryable], by decide⟩
  have hagain := (h.again 0 (by decide)).2 hretry
  exact absurd hagain (by decide)

end ObservableBSD.Export
