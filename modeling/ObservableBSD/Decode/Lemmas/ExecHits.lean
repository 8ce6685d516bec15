import ObservableBSD.Decode.Insn
import ObservableBSD.Decode.Lemmas.Image
import ObservableBSD.Decode.Lemmas.Insn
import ObservableBSD.Decode.Lemmas.Loads
import ObservableBSD.Decode.Lemmas.Symbols

/-!
# The names of the traced executables

`collect_exec_binaries` keeps the base names of the EXECUTABLE sections, cut to 63 bytes, as long as there is
room. A name that is no kept one takes up a place, also when it is long and was kept before.
-/

namespace ObservableBSD.Decode

open Base Elf Trace

/-- The base names of the EXECUTABLE sections, in their order. -/
def execNames (sections : List PtImageInfo) : List CString :=
  (sections.filter fun s => s.type = .executable ∧ s.path ≠ []).map fun s => pathBasename s.path

/-- A base name as it is kept. -/
def cutName (name : CString) : CString := strlcpy execBinSize name

/-- How many places names take up behind the earlier ones. -/
def placesTaken (earlier : List CString) : List CString → Nat
  | [] => 0
  | name :: names => (if name ∈ earlier.map cutName then 0 else 1) + placesTaken (earlier ++ [name]) names

theorem placesTaken_append (earlier front back : List CString) :
    placesTaken earlier (front ++ back) = placesTaken earlier front + placesTaken (earlier ++ front) back := by
  induction front generalizing earlier with
  | nil => simp [placesTaken]
  | cons name front ih =>
      rw [List.cons_append, placesTaken, placesTaken, ih, List.append_assoc, List.singleton_append, Nat.add_assoc]

theorem placesTaken_mono {front names : List CString} (h : front <+: names) :
    placesTaken [] front ≤ placesTaken [] names := by
  obtain ⟨back, rfl⟩ := h
  rw [placesTaken_append]
  exact Nat.le_add_right _ _

theorem cutName_cutName (name : CString) : cutName (cutName name) = cutName name := by
  simp [cutName, strlcpy, List.take_take]

/-- The name of an EXECUTABLE section for which there is a place, as it is kept. -/
def KeptName (sections : List PtImageInfo) (n : CString) : Prop :=
  ∃ front name, front ++ [name] <+: execNames sections ∧ n = cutName name ∧ placesTaken [] front < maxExecBins

/-! ## The loop -/

/-- What a name does to the names kept so far. -/
def keepName (maxbins : Nat) (bins : List CString) (name : CString) : List CString :=
  if bins.length < maxbins then if bins.contains name then bins else bins ++ [cutName name] else bins

theorem collectExecBinaries_eq (sections : List PtImageInfo) (maxbins : Nat) :
    collectExecBinaries sections maxbins = (execNames sections).foldl (keepName maxbins) [] := by
  unfold collectExecBinaries execNames
  generalize ([] : List CString) = bins
  induction sections generalizing bins with
  | nil => rfl
  | cons s sections ih =>
      rw [List.foldl_cons, ih]
      by_cases hexec : s.type = .executable ∧ s.path ≠ []
      · rw [List.filter_cons_of_pos (by simpa using hexec), List.map_cons, List.foldl_cons]
        simp [collectExecBinary, keepName, hexec, cutName]
      · rw [List.filter_cons_of_neg (by simpa using hexec)]
        simp only [collectExecBinary, hexec, and_false, if_false]

/-- What is kept of a list of names. -/
structure KeptOf (maxbins : Nat) (names bins : List CString) : Prop where
  length : bins.length = min maxbins (placesTaken [] names)
  mem : ∀ n, n ∈ bins ↔
    ∃ front name, front ++ [name] <+: names ∧ n = cutName name ∧ placesTaken [] front < maxbins

/-- While there is room, every earlier name is kept. -/
theorem KeptOf.mem_iff {maxbins : Nat} {names bins : List CString} (h : KeptOf maxbins names bins)
    (hroom : placesTaken [] names < maxbins) (n : CString) : n ∈ bins ↔ n ∈ names.map cutName := by
  rw [h.mem, List.mem_map]
  constructor
  · rintro ⟨front, name, hfront, rfl, _⟩
    exact ⟨name, hfront.subset (by simp), rfl⟩
  · rintro ⟨name, hname, rfl⟩
    obtain ⟨front, back, rfl⟩ := List.append_of_mem hname
    refine ⟨front, name, ⟨back, by simp⟩, rfl, Nat.lt_of_le_of_lt (placesTaken_mono ⟨_, rfl⟩) hroom⟩

theorem KeptOf.concat {maxbins : Nat} {names bins : List CString} (h : KeptOf maxbins names bins) (name : CString) :
    KeptOf maxbins (names ++ [name]) (keepName maxbins bins name) := by
  have hplaces : placesTaken [] (names ++ [name]) =
      placesTaken [] names + if name ∈ names.map cutName then 0 else 1 := by
    simp [placesTaken_append, placesTaken]
  have hmem : ∀ n, (∃ front name', front ++ [name'] <+: names ++ [name] ∧ n = cutName name' ∧
      placesTaken [] front < maxbins) ↔ (n = cutName name ∧ placesTaken [] names < maxbins) ∨ n ∈ bins := by
    intro n
    rw [h.mem]
    constructor
    · rintro ⟨front, name', hfront, hn, hlt⟩
      rcases List.prefix_concat_iff.mp hfront with heq | hfront
      · obtain ⟨rfl, hname⟩ := List.append_inj' heq rfl
        obtain rfl := List.singleton_inj.mp hname
        exact Or.inl ⟨hn, hlt⟩
      · exact Or.inr ⟨front, name', hfront, hn, hlt⟩
    · rintro (⟨hn, hlt⟩ | ⟨front, name', hfront, hn, hlt⟩)
      · exact ⟨names, name, List.prefix_rfl, hn, hlt⟩
      · exact ⟨front, name', hfront.trans (List.prefix_append _ _), hn, hlt⟩
  have hlen := h.length
  unfold keepName
  by_cases hroom : placesTaken [] names < maxbins
  · have hkept := h.mem_iff hroom
    rw [if_pos (by omega)]
    by_cases hname : name ∈ names.map cutName
    · have hin : name ∈ bins := (hkept name).mpr hname
      obtain ⟨first, _, rfl⟩ := List.mem_map.mp hname
      rw [if_pos (List.contains_iff_mem.mpr hin)]
      refine ⟨by rw [hplaces, if_pos hname]; exact hlen, fun n => ?_⟩
      rw [hmem, cutName_cutName]
      exact ⟨Or.inr, fun hn => hn.elim (fun hn => hn.1 ▸ hin) id⟩
    · have hout : name ∉ bins := fun hin => hname ((hkept name).mp hin)
      rw [if_neg (by simpa using hout)]
      refine ⟨by rw [hplaces, if_neg hname, List.length_append, List.length_singleton]; omega, fun n => ?_⟩
      rw [hmem, List.mem_append, List.mem_singleton]
      tauto
  · rw [if_neg (by omega)]
    refine ⟨by rw [hplaces]; omega, fun n => ?_⟩
    rw [hmem]
    exact ⟨Or.inr, fun hn => hn.elim (fun hn => absurd hn.2 hroom) id⟩

theorem keptOf_foldl (maxbins : Nat) (names : List CString) :
    KeptOf maxbins names (names.foldl (keepName maxbins) []) := by
  induction names using List.reverseRecOn with
  | nil => exact ⟨by simp [placesTaken], by simp⟩
  | append_singleton names name ih =>
      rw [List.foldl_append]
      exact ih.concat name

theorem mem_collectExecBinaries_iff (sections : List PtImageInfo) (n : CString) :
    n ∈ collectExecBinaries sections maxExecBins ↔ KeptName sections n := by
  rw [collectExecBinaries_eq]
  exact (keptOf_foldl maxExecBins (execNames sections)).mem n

theorem KeptName.ne_nil {sections : List PtImageInfo} {n : CString} (h : KeptName sections n) : n ≠ [] := by
  obtain ⟨front, name, hfront, rfl, _⟩ := h
  have hname : name ∈ execNames sections := hfront.subset (by simp)
  obtain ⟨s, hs, rfl⟩ := List.mem_map.mp hname
  have hpath : s.path ≠ [] := by
    have := List.of_mem_filter hs
    simp only [decide_eq_true_eq] at this
    exact this.2
  have hbase : pathBasename s.path ≠ [] := by
    rw [pathBasename]
    split
    · exact hpath
    · assumption
  intro hnil
  exact hbase (by simpa [cutName, strlcpy, execBinSize] using hnil)

theorem isExecBinary_iff (sections : List PtImageInfo) (n : CString) :
    isExecBinary (some n) (collectExecBinaries sections maxExecBins) = true ↔ KeptName sections n := by
  rw [← mem_collectExecBinaries_iff]
  by_cases hn : n = []
  · have hnot : ¬ n ∈ collectExecBinaries sections maxExecBins := fun h =>
      ((mem_collectExecBinaries_iff sections n).mp h).ne_nil hn
    simp [isExecBinary, hn, hn ▸ hnot]
  · simp [isExecBinary, hn]

/-!
## Whether a hit lies in the executable

A decoded instruction belongs to the file of its symbol, or else of the range it lies in. The probe compares
names: the base name of the symbol's file, or the name of the range, with the kept names.
-/

section

variable (qsort : SymSort) (files : Files) (bytes : FileBytes) (sections : List PtImageInfo)

/-- The symbols of all loads, as the decoder looks them up. -/
def loadedSyms : List SymEntry :=
  symTableSort qsort ((loadedFiles files bytes sections).foldl (loadSyms files) [])

/-- The load with the symbol that an address resolves to. -/
def symbolLoad (ip : UInt64) : Option FileLoad :=
  (symTableLookup (loadedSyms qsort files bytes sections) ip).bind
    (labelOf (loadSyms files) (loadedFiles files bytes sections))

/-- The load with the range that an address without a symbol resolves to. -/
def rangeLoad (ip : UInt64) : Option FileLoad :=
  match symTableLookup (loadedSyms qsort files bytes sections) ip with
  | some _ => none
  | none => ((buildBinRanges files bytes maxBinRanges sections).find? fun r => r.lo ≤ ip ∧ ip < r.hi).bind
      (labelOf (loadRanges files maxBinRanges) (loadedFiles files bytes sections))

/-- The file that an address belongs to. -/
def fileOf (ip : UInt64) : Option CString :=
  ((symbolLoad qsort files bytes sections ip).or (rangeLoad qsort files bytes sections ip)).map (·.path)

/-- The file appears as an EXECUTABLE section. -/
def isExecutableFile (path : CString) : Bool := sections.any (sectionIs .executable path)

/-- The hits are the decoded instructions that belong to an executable file. -/
def MeasuresExecutable : Prop := ∀ trace,
  let run := decodePtProbeSections qsort files bytes sections trace
  run.1.execHits = (run.2.filterMap PtCall.insn?).countP fun i =>
    (fileOf qsort files bytes sections i.1.ip).any (isExecutableFile sections)

/-- The names tell the executable files from the others, among the files that addresses resolve to. -/
structure NamesTell : Prop where
  symbols : ∀ ip l, symbolLoad qsort files bytes sections ip = some l →
    (KeptName sections (basename l.path) ↔ isExecutableFile sections l.path = true)
  ranges : ∀ ip l, rangeLoad qsort files bytes sections ip = some l →
    (KeptName sections (strlcpy binNameSize l.name) ↔ isExecutableFile sections l.path = true)

end

variable {qsort : SymSort} {files : Files} {bytes : FileBytes} {sections : List PtImageInfo}

/-- A lookup gives an entry of the table. -/
theorem mem_of_symTableLookup {entries : List SymEntry} {ip : UInt64} {s : SymEntry}
    (h : symTableLookup entries ip = some s) : s ∈ entries := by
  unfold symTableLookup at h
  dsimp only at h
  split at h
  · cases h
  · split at h
    · cases h
    · split at h
      · cases h
      · rename_i e he
        have hs : s = e := by
          split at h
          · split at h
            · cases h
            · exact (Option.some.inj h).symm
          · split at h
            · cases h
            · exact (Option.some.inj h).symm
        exact hs ▸ List.mem_of_getElem? he

theorem symbolLoad_of_lookup {ip : UInt64} {s : SymEntry}
    (h : symTableLookup (loadedSyms qsort files bytes sections) ip = some s) :
    ∃ l, symbolLoad qsort files bytes sections ip = some l ∧ s.binary.text = basename l.path := by
  have hmem : s ∈ (loadedFiles files bytes sections).foldl (loadSyms files) [] :=
    (symTableSort_sortOf qsort _).1.mem_iff.mp (mem_of_symTableLookup h)
  obtain ⟨l, hlabel, hl⟩ := labelOf_of_mem loadSyms_grows hmem
  refine ⟨l, by rw [symbolLoad, h, Option.bind_some, hlabel], ?_⟩
  refine labelled_forall (P := fun (s : SymEntry) (l : FileLoad) => s.binary.text = basename l.path)
    (fun st l s hs => ?_) _ _ hl
  obtain ⟨added, hadded, hall⟩ := loadSyms_append files st l
  rw [hadded, List.drop_left] at hs
  exact hall s hs

theorem rangeLoad_of_find {ip : UInt64} {r : BinRange}
    (hsym : symTableLookup (loadedSyms qsort files bytes sections) ip = none)
    (h : (buildBinRanges files bytes maxBinRanges sections).find? (fun r => r.lo ≤ ip ∧ ip < r.hi) = some r) :
    ∃ l, rangeLoad qsort files bytes sections ip = some l ∧ r.name = strlcpy binNameSize l.name := by
  have hmem := List.mem_of_find?_eq_some h
  rw [buildBinRanges_eq] at hmem
  obtain ⟨l, hlabel, hl⟩ := labelOf_of_mem loadRanges_grows hmem
  refine ⟨l, by simp only [rangeLoad, hsym, h, Option.bind_some, hlabel], ?_⟩
  refine labelled_forall (P := fun (r : BinRange) (l : FileLoad) => r.name = strlcpy binNameSize l.name)
    (fun ranges l r hr => ?_) _ _ hl
  obtain ⟨added, hadded, hall⟩ := loadRanges_append files maxBinRanges ranges l
  rw [hadded, List.drop_left] at hr
  exact hall r hr

/-- A range is looked for when there is no symbol. -/
theorem symbolLoad_of_rangeLoad {ip : UInt64} {l : FileLoad} (h : rangeLoad qsort files bytes sections ip = some l) :
    symbolLoad qsort files bytes sections ip = none := by
  unfold rangeLoad at h
  split at h
  · cases h
  · rename_i hsym
    rw [symbolLoad, hsym, Option.bind_none]

/-- The environment of the probe, when there is an image. -/
theorem probeEnv_eq {image : PtImage}
    (h : buildPtImage qsort files bytes sections = some image) :
    probeEnv qsort files bytes sections =
      some ⟨sections, loadedSyms qsort files bytes sections, buildBinRanges files bytes maxBinRanges sections⟩ := by
  rw [probeEnv, h, Option.map_some, buildPtImage_syms h]
  rfl

/-- The hits of one instruction by the three ways to resolve its address. -/
theorem probeHit_cases (qsort : SymSort) (files : Files) (bytes : FileBytes) (sections : List PtImageInfo) (insn : PtInsn) :
    let hit := probeHit ⟨sections, loadedSyms qsort files bytes sections,
      buildBinRanges files bytes maxBinRanges sections⟩ insn
    (∃ l, symbolLoad qsort files bytes sections insn.ip = some l ∧
      (hit = true ↔ KeptName sections (basename l.path))) ∨
    (∃ l, symbolLoad qsort files bytes sections insn.ip = none ∧ rangeLoad qsort files bytes sections insn.ip = some l ∧
      (hit = true ↔ KeptName sections (strlcpy binNameSize l.name))) ∨
    (symbolLoad qsort files bytes sections insn.ip = none ∧ rangeLoad qsort files bytes sections insn.ip = none ∧ hit = false) := by
  dsimp only
  unfold probeHit
  dsimp only
  cases hsym : symTableLookup (loadedSyms qsort files bytes sections) insn.ip with
  | some s =>
      obtain ⟨l, hl, htext⟩ := symbolLoad_of_lookup hsym
      exact Or.inl ⟨l, hl, by rw [← htext]; exact isExecBinary_iff _ _⟩
  | none =>
      have hnone : symbolLoad qsort files bytes sections insn.ip = none := by rw [symbolLoad, hsym, Option.bind_none]
      unfold findBinaryForIp
      cases hrange : (buildBinRanges files bytes maxBinRanges sections).find?
          fun r => r.lo ≤ insn.ip ∧ insn.ip < r.hi with
      | some r =>
          obtain ⟨l, hl, hname⟩ := rangeLoad_of_find hsym hrange
          exact Or.inr (Or.inl ⟨l, hnone, hl, by rw [← hname]; exact isExecBinary_iff _ _⟩)
      | none =>
          refine Or.inr (Or.inr ⟨hnone, ?_, rfl⟩)
          simp only [rangeLoad, hsym, hrange, Option.bind_none]

/-- The probe agrees with the files on every address exactly when the names tell them apart. -/
theorem namesTell_iff : NamesTell qsort files bytes sections ↔ ∀ insn : PtInsn,
    probeHit ⟨sections, loadedSyms qsort files bytes sections, buildBinRanges files bytes maxBinRanges sections⟩ insn =
      (fileOf qsort files bytes sections insn.ip).any (isExecutableFile sections) := by
  constructor
  · intro h insn
    rw [Bool.eq_iff_iff]
    rcases probeHit_cases qsort files bytes sections insn with
      ⟨l, hl, hhit⟩ | ⟨l, hnone, hl, hhit⟩ | ⟨hnone, hnone', hhit⟩
    · rw [hhit, h.symbols _ _ hl, fileOf, hl, Option.some_or, Option.map_some, Option.any_some]
    · rw [hhit, h.ranges _ _ hl, fileOf, hnone, hl, Option.none_or, Option.map_some, Option.any_some]
    · rw [hhit, fileOf, hnone, hnone', Option.none_or, Option.map_none, Option.any_none]
  · intro h
    constructor
    · intro ip l hl
      have hip := h ⟨ip, .other⟩
      rw [fileOf, hl, Option.some_or, Option.map_some, Option.any_some, Bool.eq_iff_iff] at hip
      rcases probeHit_cases qsort files bytes sections ⟨ip, .other⟩ with
        ⟨l', hl', hhit⟩ | ⟨_, hnone, _⟩ | ⟨hnone, _⟩
      · obtain rfl := Option.some.inj (hl.symm.trans hl')
        exact hhit.symm.trans hip
      · exact absurd (hnone.symm.trans hl) (by simp)
      · exact absurd (hnone.symm.trans hl) (by simp)
    · intro ip l hl
      have hip := h ⟨ip, .other⟩
      rcases probeHit_cases qsort files bytes sections ⟨ip, .other⟩ with
        ⟨l', hl', _⟩ | ⟨l', hnone, hl', hhit⟩ | ⟨_, hnone, _⟩
      · rw [symbolLoad_of_rangeLoad hl] at hl'
        cases hl'
      · obtain rfl := Option.some.inj (hl.symm.trans hl')
        rw [fileOf, hnone, hl, Option.none_or, Option.map_some, Option.any_some, Bool.eq_iff_iff] at hip
        exact hhit.symm.trans hip
      · exact absurd (hnone.symm.trans hl) (by simp)

/-! ## Runs -/

/-- The result of a probe with an image. -/
theorem decodePtProbeSections_hits {image : PtImage}
    (h : buildPtImage qsort files bytes sections = some image)
    (trace : List PtSegment) :
    let run := decodePtProbeSections qsort files bytes sections trace
    run.2 = callsOf PtItem.isInsnError trace ∧
      run.1.execHits = (run.2.filterMap PtCall.insn?).countP fun i =>
        probeHit ⟨sections, loadedSyms qsort files bytes sections, buildBinRanges files bytes maxBinRanges sections⟩ i.1 := by
  simp only [decodePtProbeSections, probeEnv_eq h]
  exact ⟨decodeTrace_calls .., (decodePtProbeLoop_counts _ trace).2⟩

def oneInsn (insn : PtInsn) : List PtSegment := [{ items := [.insn insn {}] }]

/-- The probe measures the executable exactly when it does so at every single address. -/
theorem measuresExecutable_iff_hits {image : PtImage}
    (h : buildPtImage qsort files bytes sections = some image) :
    MeasuresExecutable qsort files bytes sections ↔ ∀ insn : PtInsn,
      probeHit ⟨sections, loadedSyms qsort files bytes sections, buildBinRanges files bytes maxBinRanges sections⟩ insn =
        (fileOf qsort files bytes sections insn.ip).any (isExecutableFile sections) := by
  constructor
  · intro hall insn
    obtain ⟨hcalls, hhits⟩ := decodePtProbeSections_hits h (oneInsn insn)
    have hone := hall (oneInsn insn)
    dsimp only at hone hhits
    rw [hhits, hcalls] at hone
    have hinsns : (callsOf PtItem.isInsnError (oneInsn insn)).filterMap PtCall.insn? = [(insn, {})] := rfl
    rw [hinsns, List.countP_singleton, List.countP_singleton] at hone
    revert hone
    generalize probeHit _ insn = hit
    generalize (fileOf qsort files bytes sections insn.ip).any _ = owned
    cases hit <;> cases owned <;> simp
  · intro hall trace
    obtain ⟨_, hhits⟩ := decodePtProbeSections_hits h trace
    dsimp only at hhits ⊢
    rw [hhits]
    exact List.countP_congr fun i _ => by rw [hall i.1]

/-- There is an image when a section brings an executable segment. -/
theorem buildPtImage_eq_none_iff :
    buildPtImage qsort files bytes sections = none ↔ allIntervals files bytes sections = [] := by
  have himage : ImageOf (ptImageLoop files bytes sections (List.range sections.length) {})
      (allIntervals files bytes sections) :=
    ptImageLoop_imageOf files bytes sections (fun _ hi => List.mem_range.mp hi) ⟨rfl, rfl⟩
  have hlen : (ptImageLoop files bytes sections (List.range sections.length) {}).total =
      (allIntervals files bytes sections).length := by
    rw [himage.total, ← himage.segments, List.length_map]
  rw [← List.length_eq_zero_iff, ← hlen]
  simp [buildPtImage]

theorem measuresExecutable_of_none (h : buildPtImage qsort files bytes sections = none) :
    MeasuresExecutable qsort files bytes sections := by
  intro trace
  simp only [decodePtProbeSections, probeEnv, h, Option.map_none]
  rfl

end ObservableBSD.Decode
