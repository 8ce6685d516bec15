import ObservableBSD.Base.Aligned
import ObservableBSD.Hwtlm.CState

/-!
# Results about C-states
-/

namespace ObservableBSD.Hwtlm

open Base Export Instruments

variable {D : Type} {double : Text → Option D}

/-! ## The columns of the kernel's table -/

/-- The percentage tokens, well formed or not: all but `last` with its duration. -/
def percentageTokens : List Text → List Text
  | [] => []
  | [token] => [token]
  | token :: next :: rest =>
      if token = text "last" then percentageTokens rest else token :: percentageTokens (next :: rest)

def percentage? (double : Text → Option D) (token : Text) : Option D :=
  if token.getLast? = some '%' then double token.dropLast else none

/-- The levels at the places of their tokens. A malformed token is a gap. -/
def levelColumn (supported : Text) : List (Option CStateLevel) := (tokens supported).map parseLevel

/-- The percentages at the places of their tokens. -/
def percentageColumn (double : Text → Option D) (usage : Text) : List (Option D) :=
  (percentageTokens (tokens usage)).map (percentage? double)

theorem parseSupported_eq (supported : Text) : parseSupported supported = (levelColumn supported).reduceOption := by
  rw [levelColumn, List.reduceOption, List.filterMap_map]
  rfl

theorem parseUsageLoop_cons (token : Text) (rest : List Text) (r : CStateResidency D)
    (hlast : (if token = text "last" then rest.head? else none) = none) :
    parseUsageLoop double false (token :: rest) r =
      parseUsageLoop double false rest
        { r with percentages := r.percentages ++ (percentage? double token).toList } := by
  rw [parseUsageLoop, percentage?, hlast]
  split
  · split
    · rename_i hpct
      rw [hpct, Option.toList_some]
    · rename_i hpct
      rw [hpct, Option.toList_none, List.append_nil]
  · rw [Option.toList_none, List.append_nil]

theorem parseUsageLoop_percentages (tokens : List Text) (r : CStateResidency D) :
    (parseUsageLoop double false tokens r).percentages =
      r.percentages ++ ((percentageTokens tokens).map (percentage? double)).reduceOption := by
  induction tokens using percentageTokens.induct generalizing r with
  | case1 => simp [parseUsageLoop, percentageTokens, List.reduceOption]
  | case2 token =>
      rw [parseUsageLoop_cons token [] r (by split <;> rfl)]
      cases h : percentage? double token <;> simp [parseUsageLoop, percentageTokens, List.reduceOption, h]
  | case3 next rest ih =>
      have hpercent : ¬ (text "last").getLast? = some '%' := by decide
      rw [parseUsageLoop, if_neg hpercent, if_pos rfl]
      show (parseUsageLoop double true (next :: rest) _).percentages = _
      rw [parseUsageLoop, ih, percentageTokens, if_pos rfl]
  | case4 token next rest hlast ih =>
      rw [parseUsageLoop_cons token _ r (if_neg hlast), ih, percentageTokens, if_neg hlast]
      cases h : percentage? double token <;> simp [List.reduceOption, h]

theorem parseUsage_percentages (usage : Text) :
    (parseUsage double usage).percentages = (percentageColumn double usage).reduceOption := by
  rw [parseUsage, parseUsageLoop_percentages, List.nil_append]
  rfl

/-! ## Attribution -/

/-- What is expected of the residencies that are reported of the two strings of a CPU. The one at an index goes under
the name of the level with that index; this level and the percentage have the same place in the strings. A level whose
percentage is malformed has none. -/
structure OwnResidencies (double : Text → Option D) (supported usage : Text) (cstate : CStateInfo D) : Prop where
  own : ∀ (i : Nat) (name : Text) (pct : D), (emitResidencies cstate)[i]? = some (name, pct) →
    ∃ (p : Nat) (level : CStateLevel), (filled (levelColumn supported))[i]? = some p ∧
      (levelColumn supported)[p]? = some (some level) ∧ level.name = name ∧
      (filled (percentageColumn double usage))[i]? = some p ∧ (percentageColumn double usage)[p]? = some (some pct)
  gap : ∀ i p : Nat, (filled (levelColumn supported))[i]? = some p → ¬ Has (percentageColumn double usage) p →
    (emitResidencies cstate)[i]? = none

theorem emitResidencies_eq {cstate : CStateInfo D} {residency : CStateResidency D}
    (h : cstate.residency = some residency) : emitResidencies cstate =
      (cstate.supported.map CStateLevel.name).zip residency.percentages := by
  have hfrom : ∀ (levels : List CStateLevel) (n : Nat), (levels.zipIdx n).filterMap (fun x =>
      residency.percentages[x.2]?.map fun pct => (x.1.name, pct)) =
        (levels.map CStateLevel.name).zip (residency.percentages.drop n) := by
    intro levels
    induction levels with
    | nil => simp
    | cons level levels ih =>
        intro n
        rw [List.zipIdx_cons, List.filterMap_cons, ih, List.map_cons]
        cases hn : residency.percentages[n]? with
        | none =>
            have hle := List.getElem?_eq_none_iff.mp hn
            simp [List.drop_eq_nil_of_le hle, List.drop_eq_nil_of_le (Nat.le_succ_of_le hle)]
        | some pct =>
            obtain ⟨hlt, rfl⟩ := List.getElem?_eq_some_iff.mp hn
            rw [List.drop_eq_getElem_cons hlt, List.zip_cons_cons]
            rfl
  unfold emitResidencies
  rw [h]
  exact hfrom cstate.supported 0

theorem exists_filled {α : Type} {xs : List (Option α)} {i : Nat} {a : α} (h : xs.reduceOption[i]? = some a) :
    ∃ p : Nat, (filled xs)[i]? = some p ∧ xs[p]? = some (some a) := by
  have hlt : i < (filled xs).length := by
    rw [length_filled]
    exact (List.getElem?_eq_some_iff.mp h).1
  obtain ⟨p, hp⟩ : ∃ p, (filled xs)[i]? = some p := ⟨_, List.getElem?_eq_getElem hlt⟩
  obtain ⟨b, hb, hbi⟩ := getElem?_of_filled hp
  obtain rfl := Option.some.inj (h.symm.trans hbi)
  exact ⟨p, hp, hb⟩

/-- The residencies are attributed to their own levels exactly when no well-formed token of either string stands beside
a malformed one that has a well-formed one behind it. -/
theorem emitResidencies_own_iff {getString : Text → Option Text} {cpu : Nat} {supported usage : Text}
    {cstate : CStateInfo D} (hsupported : getString (cpuSysctl cpu "cx_supported") = some supported)
    (husage : getString (cpuSysctl cpu "cx_usage") = some usage)
    (hcstate : cstateInfo double getString cpu = some cstate) :
    OwnResidencies double supported usage cstate ↔
      Covers (levelColumn supported) (percentageColumn double usage) ∧
        Covers (percentageColumn double usage) (levelColumn supported) := by
  have hemit : emitResidencies cstate = ((levelColumn supported).reduceOption.map CStateLevel.name).zip
      (percentageColumn double usage).reduceOption := by
    unfold cstateInfo at hcstate
    rw [hsupported, husage] at hcstate
    obtain rfl := Option.some.inj hcstate
    rw [emitResidencies_eq rfl, ← parseSupported_eq, ← parseUsage_percentages]
  have hentry : ∀ {i : Nat} {name : Text} {pct : D}, (emitResidencies cstate)[i]? = some (name, pct) ↔
      (∃ level : CStateLevel, (levelColumn supported).reduceOption[i]? = some level ∧ level.name = name) ∧
        (percentageColumn double usage).reduceOption[i]? = some pct := by
    intro i name pct
    rw [hemit, List.getElem?_zip_eq_some, List.getElem?_map, Option.map_eq_some_iff]
  rw [← aligned_iff]
  constructor
  · intro h j p q hp hq
    obtain ⟨level, _, hlevel⟩ := getElem?_of_filled hp
    obtain ⟨pct, _, hpct⟩ := getElem?_of_filled hq
    obtain ⟨p', _, hp', _, _, hq', _⟩ := h.own j level.name pct (hentry.mpr ⟨⟨level, hlevel, rfl⟩, hpct⟩)
    obtain rfl := Option.some.inj (hp.symm.trans hp')
    exact Option.some.inj (hq'.symm.trans hq)
  · intro h
    constructor
    · intro i name pct hreport
      obtain ⟨⟨level, hlevel, hname⟩, hpct⟩ := hentry.mp hreport
      obtain ⟨p, hp, hlevel⟩ := exists_filled hlevel
      obtain ⟨q, hq, hpct⟩ := exists_filled hpct
      obtain rfl := h i p q hp hq
      exact ⟨p, level, hp, hlevel, hname, hq, hpct⟩
    · intro i p hp hgap
      by_contra hsome
      obtain ⟨⟨name, pct⟩, hreport⟩ := Option.ne_none_iff_exists'.mp hsome
      obtain ⟨q, hq, hpct⟩ := exists_filled (hentry.mp hreport).2
      obtain rfl := h i p q hp hq
      exact hgap ⟨pct, hpct⟩

/-- `Double(_:)` for two decimals, in hundredths. -/
private def hundredths (s : Text) : Option Nat :=
  match splitFirst (· = '.') s with
  | some (whole, [a, b]) => digitsValue? 10 (whole ++ [a, b])
  | _ => none

/-- The strings of the first CPU. -/
private def kernelStrings (supported usage : Text) (name : Text) : Option Text :=
  if name = cpuSysctl 0 "cx_supported" then some supported
  else if name = cpuSysctl 0 "cx_usage" then some usage
  else none

theorem twoLevels_own : ∃ cstate,
    cstateInfo hundredths (kernelStrings (text "C1/1/1 C2/2/127") (text "90.00% 10.00% last 775us")) 0 = some cstate ∧
    OwnResidencies hundredths (text "C1/1/1 C2/2/127") (text "90.00% 10.00% last 775us") cstate := by
  have hcolumns : ∀ {α β : Type} (a a' : α) (b b' : β), Covers [some a, some a'] [some b, some b'] := by
    rintro α β a a' b b' i k ⟨_, hx⟩ hy _
    rcases i with _ | _ | i
    · exact absurd ⟨b, rfl⟩ hy
    · exact absurd ⟨b', rfl⟩ hy
    · cases hx
  have hsupported : kernelStrings (text "C1/1/1 C2/2/127") (text "90.00% 10.00% last 775us")
      (cpuSysctl 0 "cx_supported") = some (text "C1/1/1 C2/2/127") := rfl
  have husage : kernelStrings (text "C1/1/1 C2/2/127") (text "90.00% 10.00% last 775us")
      (cpuSysctl 0 "cx_usage") = some (text "90.00% 10.00% last 775us") := rfl
  have hcstate : cstateInfo hundredths
      (kernelStrings (text "C1/1/1 C2/2/127") (text "90.00% 10.00% last 775us")) 0 = some _ := rfl
  have hlevels : levelColumn (text "C1/1/1 C2/2/127") =
      [some ⟨text "C1", 1, 1⟩, some ⟨text "C2", 2, 127⟩] := by decide
  have hpercentages : percentageColumn hundredths (text "90.00% 10.00% last 775us") = [some 9000, some 1000] := by
    decide
  refine ⟨_, hcstate, (emitResidencies_own_iff hsupported husage hcstate).mpr ?_⟩
  rw [hlevels, hpercentages]
  exact ⟨hcolumns _ _ _ _, hcolumns _ _ _ _⟩

/-- Behind a malformed level, the third level gets the second percentage. -/
theorem malformedLevel_not_own : ¬ ∀ (getString : Text → Option Text) (cpu : Nat) (supported usage : Text)
    (cstate : CStateInfo Nat), getString (cpuSysctl cpu "cx_supported") = some supported →
    getString (cpuSysctl cpu "cx_usage") = some usage → cstateInfo hundredths getString cpu = some cstate →
    (levelColumn supported).length = (percentageColumn hundredths usage).length →
    OwnResidencies hundredths supported usage cstate := by
  intro h
  have hown := (h (kernelStrings (text "C1/1/1 garbage C3/3/1048") (text "10.00% 20.00% 70.00%")) 0 _ _ _ rfl rfl rfl
    rfl).own 1 (text "C3") 2000 (by decide)
  obtain ⟨p, _, hlevel, _, _, hpct, _⟩ := hown
  have htwo : (filled (levelColumn (text "C1/1/1 garbage C3/3/1048")))[1]? = some 2 := by decide
  have hone : (filled (percentageColumn hundredths (text "10.00% 20.00% 70.00%")))[1]? = some 1 := by decide
  rw [htwo] at hlevel
  rw [hone, ← hlevel] at hpct
  cases hpct

end ObservableBSD.Hwtlm
