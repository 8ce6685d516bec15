import ObservableBSD.Export.Post

/-!
# Posts

What one attempt does, and what the attempts have sent when they come to an end.
-/

namespace ObservableBSD.Export

open Base

variable {F : Foundation} {cfg : PostConfig} {path : Text} {request : URLRequest} {responses : Nat → Response}
  {r : Response} {run : PostRun} {left attempt : Nat}

/-! ## Waits -/

theorem bmod_nonneg_of_lt {x : Int} (hpos : 0 < x) (hlt : x < 2 ^ 63) : 0 ≤ x.bmod (2 ^ 64) := by
  rw [Int.bmod_def]
  omega

theorem bmod_nonneg_of_dvd {x : Int} (h : 2 ^ 64 ∣ x) : 0 ≤ x.bmod (2 ^ 64) := by
  rw [Int.bmod_def]
  omega

theorem shiftedOne_neg_iff (n : Nat) : shiftedOne n < 0 ↔ n = 63 := by
  rcases Nat.lt_trichotomy n 63 with hlt | rfl | hgt
  · have hpow : 2 ^ n < 2 ^ 63 := Nat.pow_lt_pow_right (by decide) hlt
    have hnonneg : 0 ≤ shiftedOne n := bmod_nonneg_of_lt (Int.pow_pos (by decide)) (by exact_mod_cast hpow)
    exact iff_of_false hnonneg.not_gt hlt.ne
  · exact iff_of_true (by decide) rfl
  · have hnonneg : 0 ≤ shiftedOne n := bmod_nonneg_of_dvd (pow_dvd_pow 2 hgt)
    exact iff_of_false hnonneg.not_gt hgt.ne'

/-- Only the wait before retry 64 has no length. -/
theorem backoff?_eq_none_iff : 0 < attempt ∧ backoff? attempt = none ↔ attempt = 64 := by
  have hneg := shiftedOne_neg_iff (attempt - 1)
  have hnone : backoff? attempt = none ↔ shiftedOne (attempt - 1) < 0 := by
    simp only [backoff?, ite_eq_right_iff, reduceCtorEq, imp_false]
    omega
  rw [hnone, hneg]
  omega

/-! ## One attempt -/

theorem complete_of_retryable (F : Foundation) (path : Text) (h : r.Retryable) :
    ∃ error, (complete F path r).1.error = some error ∧
    (complete F path r).1.retryable = true ∧
    ((complete F path r).1.retryAfterSeconds.filter Seconds.isPositive = some .infinity ↔ r.Endless F) := by
  cases r with
  | error description => exact ⟨_, rfl, rfl, iff_of_false (by simp [complete]) id⟩
  | http statusCode retryAfter body =>
      have hcode : ¬ (200 ≤ statusCode ∧ statusCode < 300) := by
        rintro ⟨-, hlt⟩
        simp only [Response.Retryable, List.mem_cons, List.not_mem_nil, or_false] at h
        omega
      simp only [complete, if_neg hcode]
      refine ⟨_, rfl, decide_eq_true h, ?_⟩
      rw [Option.filter_eq_some_iff]
      exact and_iff_left rfl
  | other => exact h.elim

theorem complete_of_final (F : Foundation) (path : Text) (h : ¬ r.Retryable) :
    (complete F path r).1.error = none ∨ (complete F path r).1.retryable = false := by
  cases r with
  | error description => exact absurd trivial h
  | http statusCode retryAfter body =>
      unfold complete
      dsimp only
      split
      · exact .inl rfl
      · exact .inr (decide_eq_false h)
  | other => exact .inl rfl

theorem postFrom_trapped : postFrom F cfg path request responses (left + 1) 64 = { ending := .trapped } := by
  rw [postFrom, if_pos (backoff?_eq_none_iff.2 rfl)]

theorem postFrom_final (hwait : attempt ≠ 64) (h : ¬ (responses attempt).Retryable) :
    ∃ stderr, postFrom F cfg path request responses (left + 1) attempt = { sent := [request], stderr } := by
  rw [postFrom, if_neg (backoff?_eq_none_iff.not.2 hwait)]
  dsimp only
  rcases complete_of_final F path h with herror | hretry
  · rw [herror]
    exact ⟨_, rfl⟩
  · rw [hretry]
    cases (complete F path (responses attempt)).1.error with
    | none => exact ⟨_, rfl⟩
    | some error => exact ⟨_, rfl⟩

theorem postFrom_last (hwait : attempt ≠ 64) (h : (responses attempt).Retryable) (hlast : attempt = cfg.maxRetries) :
    ∃ stderr, postFrom F cfg path request responses (left + 1) attempt = { sent := [request], stderr } := by
  obtain ⟨error, herror, hretry, -⟩ := complete_of_retryable F path h
  rw [postFrom, if_neg (backoff?_eq_none_iff.not.2 hwait)]
  dsimp only
  rw [herror, hretry]
  exact ⟨_, if_pos hlast⟩

theorem postFrom_asleep (hwait : attempt ≠ 64) (h : (responses attempt).Retryable) (hlast : attempt ≠ cfg.maxRetries)
    (hendless : (responses attempt).Endless F) :
    postFrom F cfg path request responses (left + 1) attempt = { sent := [request], ending := .asleep } := by
  obtain ⟨error, herror, hretry, hsleep⟩ := complete_of_retryable F path h
  rw [postFrom, if_neg (backoff?_eq_none_iff.not.2 hwait)]
  dsimp only
  rw [herror, hretry]
  exact (if_neg hlast).trans (if_pos (hsleep.2 hendless))

theorem postFrom_again (hwait : attempt ≠ 64) (h : (responses attempt).Retryable) (hlast : attempt ≠ cfg.maxRetries)
    (hendless : ¬ (responses attempt).Endless F) :
    postFrom F cfg path request responses (left + 1) attempt =
      (postFrom F cfg path request responses left (attempt + 1)).after request := by
  obtain ⟨error, herror, hretry, hsleep⟩ := complete_of_retryable F path h
  rw [postFrom, if_neg (backoff?_eq_none_iff.not.2 hwait)]
  dsimp only
  rw [herror, hretry]
  exact (if_neg hlast).trans (if_neg (hsleep.not.2 hendless))

theorem postFrom_zero (F : Foundation) (path : Text) (request : URLRequest) (responses : Nat → Response)
    (hwait : attempt ≠ 64) (hlast : attempt = cfg.maxRetries) :
    ∃ stderr, postFrom F cfg path request responses 1 attempt = { sent := [request], stderr } := by
  by_cases hretry : (responses attempt).Retryable
  · exact postFrom_last hwait hretry hlast
  · exact postFrom_final hwait hretry

/-! ## All attempts -/

/-- What has been sent from an attempt on, with `left` retries behind it. -/
structure PostRun.Attempts (request : URLRequest) (responses : Nat → Response) (left attempt : Nat) (run : PostRun) :
    Prop where
  same : run.sent = List.replicate run.sent.length request
  bounded : run.sent.length ≤ left + 1
  earlier : ∀ i, i + 1 < run.sent.length → (responses (attempt + i)).Retryable
  ended : run.ending = .returned → 0 < run.sent.length ∧
    (run.sent.length = left + 1 ∨ ¬ (responses (attempt + (run.sent.length - 1))).Retryable)
  stuck : run.ending ≠ .returned → run.sent.length < left + 1 ∧
    ∀ i < run.sent.length, (responses (attempt + i)).Retryable

theorem PostRun.Attempts.again (h : run.Attempts request responses left (attempt + 1))
    (hretry : (responses attempt).Retryable) :
    (run.after request).Attempts request responses (left + 1) attempt := by
  have hshift (i : Nat) : attempt + 1 + i = attempt + (i + 1) := by omega
  refine ⟨?_, ?_, fun i hi => ?_, fun hend => ?_, fun hend => ?_⟩
  · rw [PostRun.after_sent, List.length_cons, List.replicate_succ]
    exact congrArg _ h.same
  · exact Nat.succ_le_succ h.bounded
  · cases i with
    | zero => exact hretry
    | succ i => exact hshift i ▸ h.earlier i (Nat.lt_of_succ_lt_succ hi)
  · obtain ⟨hpos, hlast⟩ := h.ended hend
    refine ⟨Nat.succ_pos _, hlast.imp (congrArg Nat.succ) fun hfinal => ?_⟩
    have hplace : attempt + 1 + (run.sent.length - 1) = attempt + ((run.after request).sent.length - 1) := by
      rw [PostRun.after_sent, List.length_cons]
      omega
    exact hplace ▸ hfinal
  · obtain ⟨hlt, hall⟩ := h.stuck hend
    refine ⟨Nat.succ_lt_succ hlt, fun i hi => ?_⟩
    cases i with
    | zero => exact hretry
    | succ i => exact hshift i ▸ hall i (Nat.lt_of_succ_lt_succ hi)

theorem attempts_trapped : PostRun.Attempts request responses left attempt { ending := .trapped } where
  same := rfl
  bounded := Nat.zero_le _
  earlier i hi := absurd hi (by simp)
  ended hend := by cases hend
  stuck _ := ⟨Nat.succ_pos _, fun i hi => absurd hi (by simp)⟩

theorem attempts_asleep (h : (responses attempt).Retryable) :
    PostRun.Attempts request responses (left + 1) attempt { sent := [request], ending := .asleep } where
  same := rfl
  bounded := Nat.succ_le_succ (Nat.zero_le _)
  earlier i hi := absurd hi (by simp)
  ended hend := by cases hend
  stuck _ := by
    refine ⟨Nat.succ_lt_succ (Nat.succ_pos _), fun i hi => ?_⟩
    cases Nat.lt_one_iff.1 hi
    exact h

theorem attempts_once {stderr : List Text} (h : left = 0 ∨ ¬ (responses attempt).Retryable) :
    PostRun.Attempts request responses left attempt { sent := [request], stderr } where
  same := rfl
  bounded := Nat.succ_le_succ (Nat.zero_le _)
  earlier i hi := absurd hi (by simp)
  ended _ := ⟨Nat.one_pos, h.imp (fun hleft => by rw [hleft]; rfl) id⟩
  stuck hend := absurd rfl hend

theorem attempts_postFrom (hleft : attempt + left = cfg.maxRetries) :
    (postFrom F cfg path request responses (left + 1) attempt).Attempts request responses left attempt := by
  induction left generalizing attempt with
  | zero =>
      rcases eq_or_ne attempt 64 with rfl | hwait
      · rw [postFrom_trapped]
        exact attempts_trapped
      · obtain ⟨stderr, hrun⟩ := postFrom_zero F path request responses hwait hleft
        rw [hrun]
        exact attempts_once (.inl rfl)
  | succ left ih =>
      rcases eq_or_ne attempt 64 with rfl | hwait
      · rw [postFrom_trapped]
        exact attempts_trapped
      · by_cases hretry : (responses attempt).Retryable
        · have hlast : attempt ≠ cfg.maxRetries := by omega
          by_cases hendless : (responses attempt).Endless F
          · rw [postFrom_asleep hwait hretry hlast hendless]
            exact attempts_asleep hretry
          · rw [postFrom_again hwait hretry hlast hendless]
            exact (ih (by omega)).again hretry
        · obtain ⟨stderr, hrun⟩ : ∃ stderr, postFrom F cfg path request responses (left + 1 + 1) attempt =
              { sent := [request], stderr } := postFrom_final hwait hretry
          rw [hrun]
          exact attempts_once (.inr hretry)

/-- From an attempt on, the retries that are due have waits that come to an end. -/
structure WaitsEndFrom (F : Foundation) (responses : Nat → Response) (left attempt : Nat) : Prop where
  before : attempt ≠ 64
  due : ∀ i < left, (∀ j ≤ i, (responses (attempt + j)).Retryable) →
    ¬ (responses (attempt + i)).Endless F ∧ attempt + i + 1 ≠ 64

theorem waitsEndFrom_zero (hwait : attempt ≠ 64) : WaitsEndFrom F responses 0 attempt :=
  ⟨hwait, fun i hi => absurd hi (Nat.not_lt_zero i)⟩

theorem waitsEndFrom_final (hwait : attempt ≠ 64) (h : ¬ (responses attempt).Retryable) :
    WaitsEndFrom F responses left attempt :=
  ⟨hwait, fun i _ hall => absurd (hall 0 (Nat.zero_le i)) h⟩

theorem waitsEndFrom_succ (hwait : attempt ≠ 64) (h : (responses attempt).Retryable) :
    WaitsEndFrom F responses (left + 1) attempt ↔
      ¬ (responses attempt).Endless F ∧ WaitsEndFrom F responses left (attempt + 1) := by
  have hshift (i : Nat) : attempt + 1 + i = attempt + (i + 1) := by omega
  have hfirst : ∀ j ≤ 0, (responses (attempt + j)).Retryable := fun j hj => by
    rw [Nat.le_zero.1 hj]
    exact h
  constructor
  · intro hdue
    obtain ⟨hends, hnext⟩ := hdue.due 0 (Nat.succ_pos left) hfirst
    refine ⟨hends, hnext, fun i hi hall => ?_⟩
    rw [hshift]
    refine hdue.due (i + 1) (Nat.succ_lt_succ hi) fun j hj => ?_
    cases j with
    | zero => exact h
    | succ j => exact hshift j ▸ hall j (Nat.le_of_succ_le_succ hj)
  · rintro ⟨hends, hnext⟩
    refine ⟨hwait, fun i hi hall => ?_⟩
    cases i with
    | zero => exact ⟨hends, hnext.before⟩
    | succ i =>
        rw [← hshift]
        exact hnext.due i (Nat.lt_of_succ_lt_succ hi) fun j hj => hshift j ▸ hall (j + 1) (Nat.succ_le_succ hj)

theorem returned_postFrom_iff (hleft : attempt + left = cfg.maxRetries) :
    (postFrom F cfg path request responses (left + 1) attempt).ending = .returned ↔
      WaitsEndFrom F responses left attempt := by
  induction left generalizing attempt with
  | zero =>
      rcases eq_or_ne attempt 64 with rfl | hwait
      · rw [postFrom_trapped]
        exact iff_of_false (by simp) fun h => h.before rfl
      · obtain ⟨stderr, hrun⟩ := postFrom_zero F path request responses hwait hleft
        rw [hrun]
        exact iff_of_true rfl (waitsEndFrom_zero hwait)
  | succ left ih =>
      rcases eq_or_ne attempt 64 with rfl | hwait
      · rw [postFrom_trapped]
        exact iff_of_false (by simp) fun h => h.before rfl
      by_cases hretry : (responses attempt).Retryable
      · have hlast : attempt ≠ cfg.maxRetries := by omega
        rw [waitsEndFrom_succ hwait hretry]
        by_cases hendless : (responses attempt).Endless F
        · rw [postFrom_asleep hwait hretry hlast hendless]
          exact iff_of_false (by simp) fun h => h.1 hendless
        · have hleft' : attempt + 1 + left = cfg.maxRetries := by omega
          rw [postFrom_again hwait hretry hlast hendless, PostRun.after_ending, ← ih hleft']
          exact iff_and_self.2 fun _ => hendless
      · obtain ⟨stderr, hrun⟩ : ∃ stderr, postFrom F cfg path request responses (left + 1 + 1) attempt =
            { sent := [request], stderr } := postFrom_final hwait hretry
        rw [hrun]
        exact iff_of_true rfl (waitsEndFrom_final hwait hretry)

theorem waitsEndFrom_iff (F : Foundation) (responses : Nat → Response) (maxRetries : Nat) :
    WaitsEndFrom F responses maxRetries 0 ↔ WaitsEnd F maxRetries responses := by
  have hplace (i : Nat) : 0 + i = i := Nat.zero_add i
  constructor
  · intro h i hi hall
    have hdue := h.due i hi
    simp only [hplace] at hdue
    exact hdue hall
  · intro h
    refine ⟨by decide, fun i hi hall => ?_⟩
    simp only [hplace] at hall ⊢
    exact h i hi hall

/-! ## What is sent -/

theorem PostRun.Attempts.followsRetries_iff {maxRetries : Nat} (h : run.Attempts request responses maxRetries 0) :
    FollowsRetries request maxRetries responses run ↔ run.ending = .returned := by
  have hplace (i : Nat) : 0 + i = i := Nat.zero_add i
  have hearlier := h.earlier
  simp only [hplace] at hearlier
  constructor
  · intro hfollows
    by_contra hend
    obtain ⟨hlt, hall⟩ := h.stuck hend
    simp only [hplace] at hall
    obtain ⟨hpos, -, -, hlast⟩ := eq_min_firstHit_iff.1 hfollows.count
    rcases hlast with hlast | hlast
    · omega
    · exact hlast (hall _ (Nat.sub_lt hpos Nat.one_pos))
  · intro hend
    obtain ⟨hpos, hlast⟩ := h.ended hend
    rw [hplace] at hlast
    have hbounded := h.bounded
    refine ⟨h.same, eq_min_firstHit_iff.2 ⟨hpos, hbounded, fun i hi => not_not_intro (hearlier i hi), hlast⟩,
      fun i hi => ?_, fun i hi => ⟨fun hnext => ⟨hearlier i hnext, by omega⟩, ?_⟩⟩
    · by_contra hlt
      exact hi (hearlier i (by omega))
    · rintro ⟨hretry, hbound⟩
      by_contra hnext
      have hi : i = run.sent.length - 1 := by omega
      rcases hlast with hlast | hlast
      · omega
      · exact hlast (hi ▸ hretry)

end ObservableBSD.Export
