import ObservableBSD.Base.Cover
import ObservableBSD.Elf.Lemmas.Addr
import ObservableBSD.Elf.Ranges

/-!
# What the ranges of the binaries are

Each section that is used stands for the runtime addresses of the executable segments of its file and,
when it brings the interpreter in, of the interpreter. The ranges are the first of these for which there
is room.
-/

namespace ObservableBSD.Elf

open Base Trace

/-! ## The addresses of the sections -/

abbrev Interval := UInt64 × UInt64

def BinRange.interval (r : BinRange) : Interval := (r.lo, r.hi)

def GElfPhdr.interval (slide : Int64) (phdr : GElfPhdr) : Interval :=
  (slideAddr phdr.vaddr slide, slideAddr phdr.vaddr slide + phdr.filesz)

/-- The runtime addresses of the executable segments among the headers. -/
def phdrIntervals (slide : Int64) (phdrs : List (Option GElfPhdr)) : List Interval :=
  (phdrs.reduceOption.filter GElfPhdr.execLoad).map (GElfPhdr.interval slide)

/-- The runtime addresses of a file whose first segment lies at `loadAddr`. -/
def fileIntervals (files : Files) (path : CString) (loadAddr : UInt64) : List Interval :=
  match files path with
  | none => []
  | some elf => match elfBaseVaddr elf, elf.phdrs with
      | some baseVaddr, some phdrs => phdrIntervals (loadAddr.toInt64 - baseVaddr.toInt64) phdrs
      | _, _ => []

/-- The interpreter that a section brings in when its file is at `loadAddr`. -/
def sectionInterp (files : Files) (bytes : FileBytes) (sections : List PtImageInfo) (sec : PtImageInfo)
    (loadAddr : UInt64) : Option CString :=
  if sec.type = .executable ∧ isUserAddr sec.baseAddr ∧ sec.baseAddr ≠ loadAddr then
    (elfGetInterp files bytes sec.path 1024).filter fun interp =>
      !sections.any (sectionIs .mmap interp)
  else none

def interpIntervals (files : Files) (baseAddr : UInt64) : Option CString → List Interval
  | none => []
  | some interp => fileIntervals files interp baseAddr

def sectionIntervals (files : Files) (bytes : FileBytes) (sections : List PtImageInfo)
    (sec : PtImageInfo) : List Interval :=
  match (files sec.path).bind fun elf => elfEffectiveLoadAddr elf sec.type sec.loadAddr with
  | none => []
  | some loadAddr => fileIntervals files sec.path loadAddr ++
      interpIntervals files sec.baseAddr (sectionInterp files bytes sections sec loadAddr)

/-- The addresses of the section at an index, when it is used. -/
def usedIntervals (files : Files) (bytes : FileBytes) (sections : List PtImageInfo) (i : Nat) :
    List Interval :=
  match sections[i]? with
  | none => []
  | some sec =>
      if sectionShouldUse sections i then sectionIntervals files bytes sections sec else []

theorem phdrIntervals_cons (slide : Int64) (phdr : Option GElfPhdr) (phdrs : List (Option GElfPhdr)) :
    phdrIntervals slide (phdr :: phdrs) = phdrIntervals slide [phdr] ++ phdrIntervals slide phdrs := by
  simp only [phdrIntervals, ← List.map_append, ← List.filter_append]
  rw [← List.reduceOption_append, List.singleton_append]

theorem phdrIntervals_none (slide : Int64) : phdrIntervals slide [none] = [] := rfl

theorem phdrIntervals_skip (slide : Int64) {phdr : GElfPhdr} (h : ¬ phdr.execLoad = true) :
    phdrIntervals slide [some phdr] = [] := by
  simp [phdrIntervals, List.reduceOption_cons_of_some, h]

theorem phdrIntervals_exec (slide : Int64) {phdr : GElfPhdr} (h : phdr.execLoad = true) :
    phdrIntervals slide [some phdr] = [phdr.interval slide] := by
  simp [phdrIntervals, List.reduceOption_cons_of_some, h]

/-! ## The ranges -/

/-- The ranges are those of the addresses for which there is room. -/
def RangesOf (maxranges : Nat) (ranges : List BinRange) (intervals : List Interval) : Prop :=
  ranges.map BinRange.interval = intervals.take maxranges

variable {maxranges : Nat} {ranges : List BinRange} {intervals : List Interval}

theorem RangesOf.length (h : RangesOf maxranges ranges intervals) :
    ranges.length = min maxranges intervals.length := by
  have := congrArg List.length h
  simpa using this

/-- There is no room behind a full table. -/
theorem RangesOf.full (h : RangesOf maxranges ranges intervals) (hfull : maxranges ≤ ranges.length)
    (more : List Interval) : RangesOf maxranges ranges (intervals ++ more) := by
  have hle : maxranges ≤ intervals.length := by
    rw [h.length] at hfull
    exact hfull.trans (Nat.min_le_right _ _)
  rw [RangesOf, List.take_append_of_le_length hle]
  exact h

theorem RangesOf.concat (h : RangesOf maxranges ranges intervals) (hroom : ¬ maxranges ≤ ranges.length)
    (r : BinRange) : RangesOf maxranges (ranges ++ [r]) (intervals ++ [r.interval]) := by
  have hlt : intervals.length < maxranges := by
    rw [h.length] at hroom
    omega
  have hall : intervals.take maxranges = intervals := List.take_of_length_le (by omega)
  rw [RangesOf, List.take_of_length_le (by simp; omega), List.map_append, h, hall]
  rfl

theorem addBinRanges_rangesOf (name : CString) (base : UInt64) (slide : Int64)
    (phdrs : List (Option GElfPhdr)) (h : RangesOf maxranges ranges intervals) :
    RangesOf maxranges (addBinRanges maxranges name base slide phdrs ranges)
      (intervals ++ phdrIntervals slide phdrs) := by
  induction phdrs generalizing ranges intervals with
  | nil => simpa [addBinRanges, phdrIntervals, List.reduceOption_nil] using h
  | cons phdr phdrs ih =>
      rw [addBinRanges.eq_def]
      dsimp only
      split
      · rename_i hfull
        exact h.full hfull _
      · rename_i hroom
        rw [phdrIntervals_cons, ← List.append_assoc]
        cases phdr with
        | none =>
            rw [phdrIntervals_none, List.append_nil]
            exact ih h
        | some phdr =>
            by_cases hexec : phdr.execLoad = true
            · rw [phdrIntervals_exec slide hexec]
              simp only [if_pos hexec]
              exact ih (h.concat hroom _)
            · rw [phdrIntervals_skip slide hexec, List.append_nil]
              simp only [if_neg hexec]
              exact ih h

theorem binRangesInterp_rangesOf (files : Files) (interp : CString) (baseAddr : UInt64)
    (h : RangesOf maxranges ranges intervals) :
    RangesOf maxranges (binRangesInterp files maxranges ranges interp baseAddr)
      (intervals ++ fileIntervals files interp baseAddr) := by
  unfold binRangesInterp fileIntervals
  cases files interp with
  | none => simpa using h
  | some elf =>
      dsimp only
      cases elfBaseVaddr elf with
      | none => simpa using h
      | some interpBase => cases elf.phdrs with
          | none => simpa using h
          | some phdrs => exact addBinRanges_rangesOf _ _ _ phdrs h

theorem binRangesSection_rangesOf (files : Files) (bytes : FileBytes) (sections : List PtImageInfo)
    (sec : PtImageInfo) (h : RangesOf maxranges ranges intervals) :
    RangesOf maxranges (binRangesSection files bytes maxranges sections ranges sec)
      (intervals ++ sectionIntervals files bytes sections sec) := by
  unfold binRangesSection sectionIntervals
  cases hfile : files sec.path with
  | none => simpa using h
  | some elf =>
      simp only [Option.bind_some]
      cases hload : elfEffectiveLoadAddr elf sec.type sec.loadAddr with
      | none =>
          cases elfBaseVaddr elf <;> simpa using h
      | some loadAddr =>
          obtain ⟨baseVaddr, hbase⟩ := elfBaseVaddr_of_load hload
          obtain ⟨phdrs, hphdrs⟩ := phdrs_of_base hbase
          have hown : RangesOf maxranges
              (addBinRanges maxranges (basename sec.path) loadAddr
                (loadAddr.toInt64 - baseVaddr.toInt64) phdrs ranges)
              (intervals ++ fileIntervals files sec.path loadAddr) := by
            simp only [fileIntervals, hfile, hbase, hphdrs]
            exact addBinRanges_rangesOf _ _ _ phdrs h
          simp only [hbase, hphdrs, sectionInterp, ← List.append_assoc]
          split
          · cases elfGetInterp files bytes sec.path 1024 with
            | none => simpa [interpIntervals] using hown
            | some interp =>
                by_cases hmmap : sections.any (sectionIs .mmap interp) = true
                · simpa [interpIntervals, Option.filter, hmmap] using hown
                · simp only [Option.filter, hmmap]
                  exact binRangesInterp_rangesOf files interp sec.baseAddr hown
          · simpa [interpIntervals] using hown

theorem binRangesLoop_rangesOf (files : Files) (bytes : FileBytes) (sections : List PtImageInfo)
    {idxs : List Nat} (hidxs : ∀ i ∈ idxs, i < sections.length)
    (h : RangesOf maxranges ranges intervals) :
    RangesOf maxranges (binRangesLoop files bytes maxranges sections idxs ranges)
      (intervals ++ idxs.flatMap (usedIntervals files bytes sections)) := by
  induction idxs generalizing ranges intervals with
  | nil => simpa [binRangesLoop] using h
  | cons i idxs ih =>
      have hrest : ∀ j ∈ idxs, j < sections.length := fun j hj => hidxs j (List.mem_cons_of_mem _ hj)
      have hsec : sections[i]? = some (sections.get ⟨i, hidxs i List.mem_cons_self⟩) :=
        List.getElem?_eq_getElem _
      rw [binRangesLoop, List.flatMap_cons, ← List.append_assoc]
      split
      · rename_i hfull
        exact (h.full hfull _).full hfull _
      · simp only [usedIntervals, hsec]
        split
        · exact ih hrest (binRangesSection_rangesOf files bytes sections _ h)
        · rw [List.append_nil]
          exact ih hrest h

/-- The addresses of all the sections, in the order of the sections. -/
def allIntervals (files : Files) (bytes : FileBytes) (sections : List PtImageInfo) : List Interval :=
  (List.range sections.length).flatMap (usedIntervals files bytes sections)

theorem buildBinRanges_rangesOf (files : Files) (bytes : FileBytes) (sections : List PtImageInfo) :
    RangesOf maxranges (buildBinRanges files bytes maxranges sections)
      (allIntervals files bytes sections) := by
  have hstart : RangesOf maxranges [] [] := by simp [RangesOf]
  exact binRangesLoop_rangesOf files bytes sections (fun i hi => List.mem_range.mp hi) hstart

/-! ## Naming an address -/

theorem findBinaryForIp_isSome (ranges : List BinRange) (ip : UInt64) :
    (findBinaryForIp ranges ip).isSome ↔
      ∃ x ∈ ranges.map BinRange.interval, x.1 ≤ ip ∧ ip < x.2 := by
  have hfind : (findBinaryForIp ranges ip).isSome =
      (ranges.find? fun r => r.lo ≤ ip ∧ ip < r.hi).isSome := by
    unfold findBinaryForIp
    cases ranges.find? fun r => decide (r.lo ≤ ip ∧ ip < r.hi) <;> rfl
  rw [hfind, List.find?_isSome]
  simp [BinRange.interval]

/-!
## Offsets in a binary

All ranges of a file carry one name, and an offset counts from the start of the segment that the address lies in.
-/

/-- The ranges of one file, loaded at `base`. -/
def fileRanges (name : CString) (base : UInt64) (slide : Int64) (phdrs : List (Option GElfPhdr)) : List BinRange :=
  addBinRanges maxBinRanges name base slide phdrs []

/-- Different addresses have different names with offsets, and the offset alone gives the address in the file. -/
structure UnambiguousOffsets (ranges : List BinRange) (base : UInt64) : Prop where
  distinct : ∀ ip ip' p p', findBinaryForIp ranges ip = some p → findBinaryForIp ranges ip' = some p' →
    ip ≠ ip' → p ≠ p'
  determines : ∀ ip ip' n n' off, findBinaryForIp ranges ip = some (n, off) →
    findBinaryForIp ranges ip' = some (n', off) → ip - base = ip' - base

def Interval.nats (x : Interval) : Nat × Nat := (x.1.toNat, x.2.toNat)

/-- The addresses of the segments for which there are ranges. -/
def rangedIntervals (slide : Int64) (phdrs : List (Option GElfPhdr)) : List (Nat × Nat) :=
  ((phdrIntervals slide phdrs).take maxBinRanges).map Interval.nats

theorem addBinRanges_name (maxranges : Nat) (name : CString) (base : UInt64) (slide : Int64)
    (phdrs : List (Option GElfPhdr)) {ranges : List BinRange} (h : ∀ r ∈ ranges, r.name = strlcpy binNameSize name) :
    ∀ r ∈ addBinRanges maxranges name base slide phdrs ranges, r.name = strlcpy binNameSize name := by
  induction phdrs generalizing ranges with
  | nil => exact h
  | cons phdr phdrs ih =>
      rw [addBinRanges.eq_def]
      dsimp only
      split
      · exact h
      · cases phdr with
        | none => exact ih h
        | some phdr =>
            dsimp only
            split
            · refine ih fun r hr => ?_
              rcases List.mem_append.mp hr with hr | hr
              · exact h r hr
              · obtain rfl := List.mem_singleton.mp hr
                rfl
            · exact ih h

/-- An address is looked up among the intervals of the ranges. -/
theorem findBinaryForIp_eq {ranges : List BinRange} {name : CString} (h : ∀ r ∈ ranges, r.name = name) (ip : UInt64) :
    findBinaryForIp ranges ip =
      (coverOf (ranges.map fun r => r.interval.nats) ip.toNat).map fun x => (name, UInt64.ofNat (ip.toNat - x.1)) := by
  have hpred : ((fun x : Nat × Nat => decide (x.1 ≤ ip.toNat ∧ ip.toNat < x.2)) ∘ fun r : BinRange => r.interval.nats) =
      fun r => decide (r.lo ≤ ip ∧ ip < r.hi) := rfl
  rw [coverOf, List.find?_map, hpred, Option.map_map, findBinaryForIp]
  cases hfind : ranges.find? fun r => decide (r.lo ≤ ip ∧ ip < r.hi) with
  | none => rfl
  | some r =>
      have hname := h r (List.mem_of_find?_eq_some hfind)
      have hin : r.lo ≤ ip ∧ ip < r.hi := by simpa using List.find?_some hfind
      have hoff : ip - r.lo = UInt64.ofNat (ip.toNat - r.lo.toNat) := by
        rw [← UInt64.toNat_sub_of_le _ _ hin.1, UInt64.ofNat_toNat]
      calc some (r.name, ip - r.lo)
          = some (name, UInt64.ofNat (ip.toNat - r.lo.toNat)) := by rw [hoff, hname]
        _ = _ := rfl

theorem fileRanges_find (name : CString) (base : UInt64) (slide : Int64) (phdrs : List (Option GElfPhdr))
    (ip : UInt64) : findBinaryForIp (fileRanges name base slide phdrs) ip =
      (coverOf (rangedIntervals slide phdrs) ip.toNat).map fun x =>
        (strlcpy binNameSize name, UInt64.ofNat (ip.toNat - x.1)) := by
  have hranges : RangesOf maxBinRanges (fileRanges name base slide phdrs) ([] ++ phdrIntervals slide phdrs) :=
    addBinRanges_rangesOf name base slide phdrs (by simp [RangesOf])
  have hnames : ∀ r ∈ fileRanges name base slide phdrs, r.name = strlcpy binNameSize name :=
    addBinRanges_name maxBinRanges name base slide phdrs (List.forall_mem_nil _)
  have hnats : (fileRanges name base slide phdrs).map (fun r => r.interval.nats) = rangedIntervals slide phdrs := by
    rw [rangedIntervals, ← List.nil_append (phdrIntervals slide phdrs), ← hranges, List.map_map]
    rfl
  rw [findBinaryForIp_eq hnames, ← hnats]

/-- A point of the segments is an address. -/
theorem coverOf_lt {slide : Int64} {phdrs : List (Option GElfPhdr)} {p : Nat} {x : Nat × Nat}
    (h : coverOf (rangedIntervals slide phdrs) p = some x) : p < 2 ^ 64 := by
  obtain ⟨y, _, rfl⟩ := List.mem_map.mp (List.mem_of_find?_eq_some h)
  exact Nat.lt_trans (coverOf_bounds h).2 y.2.toNat_lt

theorem unambiguousOffsets_iff_distancesDiffer (name : CString) (base : UInt64) (slide : Int64)
    (phdrs : List (Option GElfPhdr)) : UnambiguousOffsets (fileRanges name base slide phdrs) base ↔
      DistancesDiffer (rangedIntervals slide phdrs) := by
  constructor
  · intro h p q x y hx hy hdist
    have hp := coverOf_lt hx
    have hq := coverOf_lt hy
    by_contra hne
    refine h.distinct (UInt64.ofNat p) (UInt64.ofNat q) (strlcpy binNameSize name, UInt64.ofNat (p - x.1))
      (strlcpy binNameSize name, UInt64.ofNat (q - y.1)) ?_ ?_ ?_ ?_
    · rw [fileRanges_find, UInt64.toNat_ofNat_of_lt' hp, hx]; rfl
    · rw [fileRanges_find, UInt64.toNat_ofNat_of_lt' hq, hy]; rfl
    · intro heq
      have := congrArg UInt64.toNat heq
      rw [UInt64.toNat_ofNat_of_lt' hp, UInt64.toNat_ofNat_of_lt' hq] at this
      exact hne this
    · rw [hdist]
  · intro h
    have hsame : ∀ ip ip' n n' off, findBinaryForIp (fileRanges name base slide phdrs) ip = some (n, off) →
        findBinaryForIp (fileRanges name base slide phdrs) ip' = some (n', off) → ip = ip' := by
      intro ip ip' n n' off hip hip'
      rw [fileRanges_find, Option.map_eq_some_iff] at hip hip'
      obtain ⟨x, hx, hxoff⟩ := hip
      obtain ⟨y, hy, hyoff⟩ := hip'
      refine UInt64.toNat_inj.mp (h _ _ x y hx hy ?_)
      have hoff := congrArg UInt64.toNat ((Prod.ext_iff.mp hxoff).2.trans (Prod.ext_iff.mp hyoff).2.symm)
      dsimp only at hoff
      rwa [UInt64.toNat_ofNat_of_lt' (Nat.lt_of_le_of_lt (Nat.sub_le _ _) (coverOf_lt hx)),
        UInt64.toNat_ofNat_of_lt' (Nat.lt_of_le_of_lt (Nat.sub_le _ _) (coverOf_lt hy))] at hoff
    constructor
    · rintro ip ip' ⟨n, off⟩ ⟨n', off'⟩ hip hip' hne heq
      cases heq
      exact hne (hsame ip ip' n n off hip hip')
    · intro ip ip' n n' off hip hip'
      rw [hsame ip ip' n n' off hip hip']

end ObservableBSD.Elf
