import ObservableBSD.Export.Lemmas.Json
import ObservableBSD.Hwtlm.CStateTheorems
import ObservableBSD.Hwtlm.Formatter

/-!
# Results about the per-core output
-/

namespace ObservableBSD.Hwtlm

open Export

variable {D : Type} {names : List Text} {core : CoreSnapshot D} {cstate : CStateInfo D} {residency : CStateResidency D}

/-! ## What is shown of a core -/

/-- The percentages in the text, each with the name of its column. -/
def textResidencies (names : List Text) (core : CoreSnapshot D) : List (Text × D) :=
  (names.zip (cstateCells names core)).filterMap fun (name, cell) => cell.map fun pct => (name, pct)

/-- The percentages in the JSON object, each with its key. -/
def jsonResidencies (core : CoreSnapshot D) : List (Text × D) := (core.cstate.map emitResidencies).getD []

def CStateResidency.numbered (residency : CStateResidency D) : CStateResidency (D × Nat) where
  percentages := residency.percentages.zipIdx
  lastDuration := residency.lastDuration

def CStateInfo.numbered (cstate : CStateInfo D) : CStateInfo (D × Nat) where
  cpu := cstate.cpu
  supported := cstate.supported
  residency := cstate.residency.map CStateResidency.numbered
  transitionCounts := cstate.transitionCounts
  lowestAllowed := cstate.lowestAllowed

/-- The core with a number on each percentage, so that two equal ones are told apart. -/
def CoreSnapshot.numbered (core : CoreSnapshot D) : CoreSnapshot (D × Nat) where
  cpu := core.cpu
  temperatureC := core.temperatureC.map fun temp => (temp, 0)
  frequencyMHz := core.frequencyMHz
  cstate := core.cstate.map CStateInfo.numbered

/-- What is expected of the two renderers for a core: a percentage in the text stands in the JSON object under the name
of its column, and one of the JSON object stands in the text in the column of its own name, if anywhere. -/
structure CoreAgrees (names : List Text) (core : CoreSnapshot D) : Prop where
  text : ∀ x ∈ textResidencies names core.numbered, x ∈ jsonResidencies core.numbered
  json : ∀ x ∈ jsonResidencies core.numbered, ∀ name, (name, x.2) ∈ textResidencies names core.numbered → name = x.1

def PerCoreAgrees (sys : SystemSnapshot D) : Prop := ∀ core ∈ sys.cores, CoreAgrees (cstateNames sys.cores) core

theorem mem_textResidencies (hcstate : core.cstate = some cstate) (hresidency : cstate.residency = some residency)
    {x : Text × D} : x ∈ textResidencies names core ↔
      ∃ i : Nat, names[i]? = some x.1 ∧ residency.percentages[i]? = some x.2 := by
  have hcells : cstateCells names core = names.zipIdx.map fun x => residency.percentages[x.2]? := by
    rw [cstateCells, hcstate, Option.bind_some, hresidency]
  have hcell : ∀ {i : Nat} {cell}, (cstateCells names core)[i]? = some cell ↔
      i < names.length ∧ residency.percentages[i]? = cell := by
    intro i cell
    rw [hcells, List.getElem?_map, List.getElem?_zipIdx]
    by_cases hi : i < names.length <;> simp [hi]
  rw [textResidencies, List.mem_filterMap]
  constructor
  · rintro ⟨⟨name, cell⟩, hmem, hx⟩
    obtain ⟨i, hi⟩ := List.mem_iff_getElem?.mp hmem
    obtain ⟨hname, hin⟩ := List.getElem?_zip_eq_some.mp hi
    obtain ⟨pct, rfl, rfl⟩ := Option.map_eq_some_iff.mp hx
    exact ⟨i, hname, (hcell.mp hin).2⟩
  · rintro ⟨i, hname, hpct⟩
    have hin := hcell.mpr ⟨(List.getElem?_eq_some_iff.mp hname).1, hpct⟩
    have hzip : (names.zip (cstateCells names core))[i]? = some (x.1, some x.2) :=
      List.getElem?_zip_eq_some.mpr ⟨hname, hin⟩
    exact ⟨_, List.mem_of_getElem? hzip, rfl⟩

theorem mem_jsonResidencies (hcstate : core.cstate = some cstate) (hresidency : cstate.residency = some residency)
    {x : Text × D} : x ∈ jsonResidencies core ↔
      ∃ i : Nat, (cstate.supported.map CStateLevel.name)[i]? = some x.1 ∧ residency.percentages[i]? = some x.2 := by
  rw [jsonResidencies, hcstate, Option.map_some, Option.getD_some, emitResidencies_eq hresidency,
    List.mem_iff_getElem?]
  simp only [List.getElem?_zip_eq_some]

theorem textResidencies_of_none (h : core.cstate.bind CStateInfo.residency = none) :
    textResidencies names core = [] := by
  rw [textResidencies, cstateCells, h]
  induction names with
  | nil => rfl
  | cons name names ih => simpa using ih

theorem jsonResidencies_of_none (h : core.cstate.bind CStateInfo.residency = none) : jsonResidencies core = [] := by
  rw [jsonResidencies]
  cases hcstate : core.cstate with
  | none => rfl
  | some cstate =>
      rw [hcstate, Option.bind_some] at h
      simp [emitResidencies, h]

/-! ## Agreement -/

theorem coreAgrees_of_none (h : core.cstate.bind CStateInfo.residency = none) : CoreAgrees names core := by
  have hnumbered : core.numbered.cstate.bind CStateInfo.residency = none := by
    cases hcstate : core.cstate with
    | none => simp [CoreSnapshot.numbered, hcstate]
    | some cstate =>
        rw [hcstate, Option.bind_some] at h
        simp [CoreSnapshot.numbered, CStateInfo.numbered, hcstate, h]
  exact ⟨by simp [textResidencies_of_none hnumbered], by simp [jsonResidencies_of_none hnumbered]⟩

theorem coreAgrees_iff (hcstate : core.cstate = some cstate) (hresidency : cstate.residency = some residency) :
    CoreAgrees names core ↔ ∀ (i : Nat) (name : Text), i < residency.percentages.length → names[i]? = some name →
      (cstate.supported.map CStateLevel.name)[i]? = some name := by
  have hcstate' : core.numbered.cstate = some cstate.numbered := by simp [CoreSnapshot.numbered, hcstate]
  have hresidency' : cstate.numbered.residency = some residency.numbered := by
    simp [CStateInfo.numbered, hresidency]
  -- the number of a percentage is its place
  have hnumber : ∀ {i : Nat} {x : D × Nat}, residency.numbered.percentages[i]? = some x ↔
      residency.percentages[i]? = some x.1 ∧ i = x.2 := by
    rintro i ⟨pct, j⟩
    simp [CStateResidency.numbered, List.getElem?_zipIdx]
  constructor
  · intro h i name hi hname
    obtain ⟨pct, hpct⟩ : ∃ pct, residency.percentages[i]? = some pct := ⟨_, List.getElem?_eq_getElem hi⟩
    have hplace : residency.numbered.percentages[i]? = some (pct, i) := hnumber.mpr ⟨hpct, rfl⟩
    have htext : (name, pct, i) ∈ textResidencies names core.numbered :=
      (mem_textResidencies hcstate' hresidency').mpr ⟨i, hname, hplace⟩
    obtain ⟨j, hown, hj⟩ := (mem_jsonResidencies hcstate' hresidency').mp (h.text _ htext)
    obtain ⟨_, rfl⟩ := hnumber.mp hj
    exact hown
  · intro h
    have hplace : ∀ x ∈ textResidencies names core.numbered,
        (cstate.supported.map CStateLevel.name)[x.2.2]? = some x.1 ∧ residency.percentages[x.2.2]? = some x.2.1 := by
      intro x hx
      obtain ⟨i, hname, hi⟩ := (mem_textResidencies hcstate' hresidency').mp hx
      obtain ⟨hpct, rfl⟩ := hnumber.mp hi
      exact ⟨h _ _ (List.getElem?_eq_some_iff.mp hpct).1 hname, hpct⟩
    constructor
    · intro x hx
      obtain ⟨hown, hpct⟩ := hplace x hx
      exact (mem_jsonResidencies hcstate' hresidency').mpr ⟨_, hown, hnumber.mpr ⟨hpct, rfl⟩⟩
    · intro x hx name hname
      obtain ⟨j, hown, hj⟩ := (mem_jsonResidencies hcstate' hresidency').mp hx
      obtain ⟨_, rfl⟩ := hnumber.mp hj
      exact Option.some.inj ((hplace _ hname).1.symm.trans hown)

/-- Where the renderers agree, every percentage in the text is in the JSON object under the name of its column. -/
theorem CoreAgrees.values (h : CoreAgrees names core) : ∀ x ∈ textResidencies names core, x ∈ jsonResidencies core := by
  intro x hx
  cases hres : core.cstate.bind CStateInfo.residency with
  | none =>
      rw [textResidencies_of_none hres] at hx
      cases hx
  | some residency =>
      obtain ⟨cstate, hcstate, hresidency⟩ := Option.bind_eq_some_iff.mp hres
      obtain ⟨i, hname, hpct⟩ := (mem_textResidencies hcstate hresidency).mp hx
      have hi := (List.getElem?_eq_some_iff.mp hpct).1
      have hown := (coreAgrees_iff hcstate hresidency).mp h i x.1 hi hname
      exact (mem_jsonResidencies hcstate hresidency).mpr ⟨i, hown, hpct⟩

/-- Where a core has a percentage and the first core with C-states has a level, the core has a level of the same
name. -/
def LevelsLineUp (cores : List (CoreSnapshot D)) : Prop :=
  ∀ first, cores.findSome? CoreSnapshot.cstate = some first →
    ∀ core ∈ cores, ∀ cstate, core.cstate = some cstate → ∀ residency, cstate.residency = some residency →
      ∀ (i : Nat) (level : CStateLevel), i < residency.percentages.length → first.supported[i]? = some level →
        ∃ own : CStateLevel, cstate.supported[i]? = some own ∧ own.name = level.name

theorem cstateNames_eq (cores : List (CoreSnapshot D)) : cstateNames cores =
    ((cores.findSome? CoreSnapshot.cstate).map fun first => first.supported.map CStateLevel.name).getD [] := by
  induction cores with
  | nil => rfl
  | cons core cores ih =>
      unfold cstateNames at ih ⊢
      cases hcstate : core.cstate with
      | none => simpa [hcstate] using ih
      | some cstate => simp [hcstate]

/-- The text and the JSON line agree exactly when the levels of the cores line up with the columns. -/
theorem perCoreAgrees_iff (sys : SystemSnapshot D) : PerCoreAgrees sys ↔ LevelsLineUp sys.cores := by
  have hnames := cstateNames_eq sys.cores
  constructor
  · intro h first hfirst core hcore cstate hcstate residency hresidency i level hi hlevel
    rw [hfirst, Option.map_some, Option.getD_some] at hnames
    have hname : (cstateNames sys.cores)[i]? = some level.name := by
      rw [hnames, List.getElem?_map, hlevel, Option.map_some]
    have hown := (coreAgrees_iff hcstate hresidency).mp (h core hcore) i level.name hi hname
    rw [List.getElem?_map] at hown
    exact Option.map_eq_some_iff.mp hown
  · intro h core hcore
    cases hres : core.cstate.bind CStateInfo.residency with
    | none => exact coreAgrees_of_none hres
    | some residency =>
        obtain ⟨cstate, hcstate, hresidency⟩ := Option.bind_eq_some_iff.mp hres
        refine (coreAgrees_iff hcstate hresidency).mpr fun i name hi hname => ?_
        obtain ⟨first, hfirst⟩ : ∃ first, sys.cores.findSome? CoreSnapshot.cstate = some first := by
          refine Option.isSome_iff_exists.mp (List.findSome?_isSome_iff.mpr ⟨core, hcore, ?_⟩)
          rw [hcstate]
          rfl
        rw [hnames, hfirst, Option.map_some, Option.getD_some, List.getElem?_map] at hname
        obtain ⟨level, hlevel, rfl⟩ := Option.map_eq_some_iff.mp hname
        obtain ⟨own, hown, heq⟩ := h first hfirst core hcore cstate hcstate residency hresidency i level hi hlevel
        rw [List.getElem?_map, hown, Option.map_some, heq]

/-! ## The printed lines -/

theorem infix_flatMap {α : Type} {f : α → Text} {a : α} {xs : List α} {t : Text} (h : a ∈ xs) (ht : f a = t) :
    t <:+: xs.flatMap f := by
  rw [List.flatMap_def]
  exact List.infix_of_mem_flatten (List.mem_map.mpr ⟨a, h, ht⟩)

theorem infix_joined {part : Text} {parts : List Text} (h : part ∈ parts) : part <:+: joined parts := by
  cases parts with
  | nil => cases h
  | cons first parts =>
      rw [joined_cons]
      rcases List.mem_cons.mp h with rfl | hmem
      · exact List.infix_append_left
      · have htail : text "," ++ part <:+: parts.flatMap fun part => text "," ++ part := infix_flatMap hmem rfl
        exact List.infix_append_of_infix_right (List.infix_append_right.trans htail)

variable {P : Printing D} {rapl : Option RAPLSnapshot} {sys : SystemSnapshot D} {x : Text × D}

theorem infix_perCoreRow (hx : x ∈ textResidencies names core) :
    text "  " ++ pad P (P.double "%5.1f" x.2) 7 <:+: perCoreRow P names core := by
  obtain ⟨pair, hmem, hcell⟩ := List.mem_filterMap.mp hx
  obtain ⟨pct, hpct, rfl⟩ := Option.map_eq_some_iff.mp hcell
  have hin : some pct ∈ cstateCells names core := hpct ▸ (List.of_mem_zip hmem).2
  unfold perCoreRow
  refine List.infix_append_of_infix_left (List.infix_append_of_infix_right ?_)
  exact infix_flatMap hin rfl

theorem infix_perCoreObject (hx : x ∈ jsonResidencies core) :
    jsonPart (escapeJSON x.1) (P.double "%.2f" x.2) <:+: perCoreObject P core := by
  obtain ⟨residency, hres⟩ : ∃ residency, core.cstate.bind CStateInfo.residency = some residency := by
    refine Option.ne_none_iff_exists'.mp fun hnone => ?_
    rw [jsonResidencies_of_none hnone] at hx
    cases hx
  obtain ⟨cstate, hcstate, hresidency⟩ := Option.bind_eq_some_iff.mp hres
  rw [jsonResidencies, hcstate, Option.map_some, Option.getD_some] at hx
  have hpart : jsonPart (escapeJSON x.1) (P.double "%.2f" x.2) ∈ (emitResidencies cstate).map fun y =>
      jsonPart (escapeJSON y.1) (P.double "%.2f" y.2) := List.mem_map_of_mem hx
  unfold perCoreObject
  simp only [hcstate, hresidency, Option.bind_some, Option.map_some]
  refine List.infix_append_of_infix_left (List.infix_append_of_infix_right ?_)
  refine List.IsInfix.trans ?_ (infix_joined (List.mem_append_right _ List.mem_cons_self))
  refine List.infix_append_of_infix_right (List.infix_append_of_infix_left (List.infix_append_of_infix_right ?_))
  exact infix_joined hpart

/-- Where the renderers agree, a percentage that the text shows of a core stands in its row, and in its object under
the name of the column. -/
theorem PerCoreAgrees.printed (h : PerCoreAgrees sys) (hcore : core ∈ sys.cores)
    (hx : x ∈ textResidencies (cstateNames sys.cores) core) :
    (text "  " ++ pad P (P.double "%5.1f" x.2) 7 <:+: perCoreRow P (cstateNames sys.cores) core ∧
      perCoreRow P (cstateNames sys.cores) core <:+: perCoreTextBlock P rapl sys) ∧
    jsonPart (escapeJSON x.1) (P.double "%.2f" x.2) <:+: perCoreObject P core ∧
      perCoreObject P core <:+: perCoreJsonLine P rapl sys := by
  refine ⟨⟨infix_perCoreRow hx, ?_⟩, infix_perCoreObject ((h core hcore).values x hx), ?_⟩
  · have hrows : perCoreRow P (cstateNames sys.cores) core <:+:
        sys.cores.flatMap (perCoreRow P (cstateNames sys.cores)) := infix_flatMap hcore rfl
    exact List.infix_append_of_infix_left (List.infix_append_of_infix_right hrows)
  · have hobjects : perCoreObject P core <:+: joined (sys.cores.map (perCoreObject P)) :=
      infix_joined (List.mem_map_of_mem hcore)
    unfold perCoreJsonLine
    refine List.infix_append_of_infix_left (List.infix_append_of_infix_right ?_)
    refine List.IsInfix.trans ?_ (infix_joined (List.mem_append_left _ (List.mem_append_right _ List.mem_cons_self)))
    exact List.infix_append_of_infix_right (List.infix_append_of_infix_left (List.infix_append_of_infix_right hobjects))

/-- A core with two C-states, whose residencies are 40% and 60%. -/
private def twoStates (cpu : Nat) (deeper : String) : CStateInfo Nat where
  cpu
  supported := [⟨text "C1", 1, 1⟩, ⟨text deeper, 2, 100⟩]
  residency := some { percentages := [40, 60] }
  transitionCounts := none
  lowestAllowed := none

private def mixedCores : SystemSnapshot Nat where
  timestamp := 0
  temperatures := ∅
  frequencies := ∅
  cstates := ⟨[⟨0, twoStates 0 "C2"⟩, ⟨1, twoStates 1 "C3"⟩], by simp [List.NodupKeys]⟩

/-- The second core has no C2, but the text shows the residency of its C3 in the column of C2. -/
theorem mixedCores_not_agree : ¬ ∀ sys : SystemSnapshot Nat, PerCoreAgrees sys := by
  intro h
  have hcores : mixedCores.cores =
      [⟨0, none, none, some (twoStates 0 "C2")⟩, ⟨1, none, none, some (twoStates 1 "C3")⟩] := rfl
  have hagrees := h mixedCores
  rw [PerCoreAgrees, hcores] at hagrees
  have htext : (text "C2", 60) ∈ textResidencies [text "C1", text "C2"]
      (⟨1, none, none, some (twoStates 1 "C3")⟩ : CoreSnapshot Nat) := by decide
  have hjson := (hagrees _ (List.mem_cons_of_mem _ List.mem_cons_self)).values _ htext
  revert hjson
  decide

end ObservableBSD.Hwtlm
