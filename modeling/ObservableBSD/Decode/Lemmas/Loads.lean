import ObservableBSD.Base.Labelled
import ObservableBSD.Decode.Image
import ObservableBSD.Elf.Lemmas.Ranges

/-!
# The files behind symbols and ranges

The sections that are used load files: each its own, and an `EXEC` section the interpreter too. Symbols and ranges
are added load by load, so that each entry belongs to the file whose load has added it.
-/

namespace ObservableBSD.Decode

open Base Trace Elf

/-- A file at its load address, with the name of its ranges. -/
structure FileLoad where
  path : CString
  name : CString
  base : UInt64
deriving DecidableEq

section

variable (files : Files) (bytes : FileBytes) (sections : List PtImageInfo)

def sectionLoads (sec : PtImageInfo) : List FileLoad :=
  match (files sec.path).bind fun elf => elfEffectiveLoadAddr elf sec.type sec.loadAddr with
  | none => []
  | some loadAddr => ⟨sec.path, basename sec.path, loadAddr⟩ ::
      (sectionInterp files bytes sections sec loadAddr).toList.map fun interp =>
        ⟨interp, cstr "ld-elf.so.1", sec.baseAddr⟩

/-- The loads of the section at an index, when it is used. -/
def usedLoads (i : Nat) : List FileLoad :=
  match sections[i]? with
  | none => []
  | some sec => if sectionShouldUse sections i then sectionLoads files bytes sections sec else []

def loadedFiles : List FileLoad := (List.range sections.length).flatMap (usedLoads files bytes sections)

def loadSyms (st : List SymEntry) (l : FileLoad) : List SymEntry := addInterpSyms files st l.path l.base

def loadRanges (maxranges : Nat) (ranges : List BinRange) (l : FileLoad) : List BinRange :=
  match files l.path with
  | none => ranges
  | some elf => match elfBaseVaddr elf, elf.phdrs with
      | some baseVaddr, some phdrs =>
          addBinRanges maxranges l.name l.base (l.base.toInt64 - baseVaddr.toInt64) phdrs ranges
      | _, _ => ranges

end

variable {files : Files} {bytes : FileBytes} {sections : List PtImageInfo}

/-! ## Symbols -/

theorem symTableAdd_prefix (st : List SymEntry) (addr size : UInt64) (name : Option CString) (binary : CString)
    (slide : Int64) : ∃ added, symTableAdd st addr size name binary slide = st ++ added ∧
      ∀ s ∈ added, s.binary.text = binary := by
  unfold symTableAdd
  cases name with
  | none => exact ⟨[], (List.append_nil st).symm, by simp⟩
  | some name =>
      by_cases hname : name = []
      · exact ⟨[], by simp [hname], by simp⟩
      · exact ⟨_, by simp only [hname, if_false]; rfl, by simp⟩

theorem foldl_symTableAdd_prefix (binary : CString) (slide : Int64) (syms : List GElfSym) : ∀ st : List SymEntry,
    ∃ added, syms.foldl (fun st sym => symTableAdd st (slideAddr sym.value slide) sym.size sym.name binary slide) st =
      st ++ added ∧ ∀ s ∈ added, s.binary.text = binary := by
  induction syms with
  | nil => exact fun st => ⟨[], (List.append_nil st).symm, by simp⟩
  | cons sym syms ih =>
      intro st
      obtain ⟨first, hfirst, hall⟩ := symTableAdd_prefix st (slideAddr sym.value slide) sym.size sym.name binary slide
      obtain ⟨rest, hrest, hall'⟩ := ih (st ++ first)
      refine ⟨first ++ rest, ?_, fun s hs => (List.mem_append.mp hs).elim (hall s) (hall' s)⟩
      rw [List.foldl_cons, hfirst, hrest, List.append_assoc]

/-- The symbols of a load carry the base name of its file. -/
theorem loadSyms_append (files : Files) (st : List SymEntry) (l : FileLoad) :
    ∃ added, loadSyms files st l = st ++ added ∧
    ∀ s ∈ added, s.binary.text = basename l.path := by
  unfold loadSyms addInterpSyms
  cases hfile : files l.path with
  | none => exact ⟨[], (List.append_nil st).symm, by simp⟩
  | some elf =>
      dsimp only
      cases elfBaseVaddr elf with
      | none => exact ⟨[], (List.append_nil st).symm, by simp⟩
      | some baseVaddr =>
          simp only [symTableAddElf, hfile]
          exact foldl_symTableAdd_prefix _ _ _ st

theorem loadSyms_grows : Grows (loadSyms files) := by
  intro st l
  obtain ⟨added, hadded, _⟩ := loadSyms_append files st l
  exact ⟨added, hadded.symm⟩

theorem addSegment_syms (path : CString) (slide : Int64) (phdrs : List (Option GElfPhdr)) (image : PtImage) :
    (phdrs.foldl (addSegment path slide) image).syms = image.syms := by
  induction phdrs generalizing image with
  | nil => rfl
  | cons phdr phdrs ih =>
      rw [List.foldl_cons, ih]
      cases phdr with
      | none => rfl
      | some phdr =>
          rw [addSegment]
          split <;> rfl

theorem addElfToImage_syms (image : PtImage) (path : CString) (loadAddr : UInt64) :
    (addElfToImage files image path loadAddr).syms = image.syms := by
  unfold addElfToImage
  split
  · rfl
  · split
    · exact addSegment_syms _ _ _ _
    · rfl

/-- The symbols of a section are those of its file at the effective address. -/
theorem addSectionSyms_eq {sec : PtImageInfo} {loadAddr : UInt64}
    (h : (files sec.path).bind (fun elf => elfEffectiveLoadAddr elf sec.type sec.loadAddr) = some loadAddr)
    (st : List SymEntry) (name : CString) :
    addSectionSyms files st sec = loadSyms files st ⟨sec.path, name, loadAddr⟩ := by
  obtain ⟨elf, hfile, hload⟩ := Option.bind_eq_some_iff.mp h
  obtain ⟨baseVaddr, hbase⟩ := elfBaseVaddr_of_load hload
  simp only [addSectionSyms, sectionSlide, loadSyms, addInterpSyms, hfile, hload, hbase]

theorem ptImageSection_syms (image : PtImage) (sec : PtImageInfo) :
    (ptImageSection files bytes sections image sec).syms =
      (sectionLoads files bytes sections sec).foldl (loadSyms files) image.syms := by
  unfold ptImageSection sectionLoads
  cases hload : (files sec.path).bind fun elf => elfEffectiveLoadAddr elf sec.type sec.loadAddr with
  | none => rfl
  | some loadAddr =>
      have hown := addSectionSyms_eq hload image.syms (basename sec.path)
      simp only [List.foldl_cons, sectionInterp, addElfToImage_syms, ← hown]
      split
      · cases elfGetInterp files bytes sec.path 1024 with
        | none => rfl
        | some interp =>
            by_cases hmmap : sections.any (sectionIs .mmap interp) = true
            · simp [Option.filter, hmmap]
            · simp [Option.filter, hmmap, loadSyms]
      · rfl

theorem ptImageLoop_syms {idxs : List Nat} (hidxs : ∀ i ∈ idxs, i < sections.length) (image : PtImage) :
    (ptImageLoop files bytes sections idxs image).syms =
      (idxs.flatMap (usedLoads files bytes sections)).foldl (loadSyms files) image.syms := by
  induction idxs generalizing image with
  | nil => rfl
  | cons i idxs ih =>
      have hrest : ∀ j ∈ idxs, j < sections.length := fun j hj => hidxs j (List.mem_cons_of_mem _ hj)
      have hsec : sections[i]? = some (sections.get ⟨i, hidxs i List.mem_cons_self⟩) :=
        List.getElem?_eq_getElem _
      rw [ptImageLoop, List.flatMap_cons, List.foldl_append]
      simp only [usedLoads, hsec]
      split
      · rw [ih hrest, ptImageSection_syms]
      · exact ih hrest image

theorem buildPtImage_syms {qsort : SymSort} {image : PtImage}
    (h : buildPtImage qsort files bytes sections = some image) :
    image.syms = symTableSort qsort ((loadedFiles files bytes sections).foldl (loadSyms files) []) := by
  have hloop : (ptImageLoop files bytes sections (List.range sections.length) {}).syms =
      (loadedFiles files bytes sections).foldl (loadSyms files) [] :=
    ptImageLoop_syms (fun _ hi => List.mem_range.mp hi) {}
  simp only [buildPtImage] at h
  split at h
  · cases h
  · obtain rfl := Option.some.inj h
    exact congrArg (symTableSort qsort) hloop

/-! ## Ranges -/

section

variable {maxranges : Nat}

/-- The ranges of a load carry its name, cut to the size of the field. -/
theorem addBinRanges_append (name : CString) (base : UInt64) (slide : Int64) (phdrs : List (Option GElfPhdr)) :
    ∀ ranges : List BinRange, ∃ added, addBinRanges maxranges name base slide phdrs ranges = ranges ++ added ∧
      ∀ r ∈ added, r.name = strlcpy binNameSize name := by
  induction phdrs with
  | nil => exact fun ranges => ⟨[], (List.append_nil ranges).symm, by simp⟩
  | cons phdr phdrs ih =>
      intro ranges
      rw [addBinRanges.eq_def]
      dsimp only
      split
      · exact ⟨[], (List.append_nil ranges).symm, by simp⟩
      · cases phdr with
        | none => exact ih ranges
        | some phdr =>
            dsimp only
            split
            · obtain ⟨rest, hrest, hall⟩ := ih (ranges ++ [⟨strlcpy binNameSize name, slideAddr phdr.vaddr slide,
                slideAddr phdr.vaddr slide + phdr.filesz, base⟩])
              refine ⟨_ :: rest, by rw [hrest, List.append_assoc]; rfl, fun r hr => ?_⟩
              rcases List.mem_cons.mp hr with rfl | hr
              · rfl
              · exact hall r hr
            · exact ih ranges

theorem loadRanges_append (files : Files) (maxranges : Nat) (ranges : List BinRange) (l : FileLoad) :
    ∃ added, loadRanges files maxranges ranges l = ranges ++ added ∧
      ∀ r ∈ added, r.name = strlcpy binNameSize l.name := by
  unfold loadRanges
  split
  · exact ⟨[], (List.append_nil ranges).symm, by simp⟩
  · split
    · exact addBinRanges_append _ _ _ _ ranges
    · exact ⟨[], (List.append_nil ranges).symm, by simp⟩

theorem loadRanges_grows : Grows (loadRanges files maxranges) := by
  intro ranges l
  obtain ⟨added, hadded, _⟩ := loadRanges_append files maxranges ranges l
  exact ⟨added, hadded.symm⟩

theorem addBinRanges_full (name : CString) (base : UInt64) (slide : Int64) (phdrs : List (Option GElfPhdr))
    {ranges : List BinRange} (hfull : maxranges ≤ ranges.length) :
    addBinRanges maxranges name base slide phdrs ranges = ranges := by
  cases phdrs with
  | nil => rfl
  | cons phdr phdrs =>
      rw [addBinRanges.eq_def]
      exact if_pos hfull

theorem loadRanges_full (ls : List FileLoad) {ranges : List BinRange} (hfull : maxranges ≤ ranges.length) :
    ls.foldl (loadRanges files maxranges) ranges = ranges := by
  induction ls with
  | nil => rfl
  | cons l ls ih =>
      have hstep : loadRanges files maxranges ranges l = ranges := by
        unfold loadRanges
        split
        · rfl
        · split
          · exact addBinRanges_full _ _ _ _ hfull
          · rfl
      rw [List.foldl_cons, hstep, ih]

theorem binRangesInterp_eq (ranges : List BinRange) (interp : CString) (baseAddr : UInt64) :
    binRangesInterp files maxranges ranges interp baseAddr =
      loadRanges files maxranges ranges ⟨interp, cstr "ld-elf.so.1", baseAddr⟩ := rfl

theorem binRangesSection_eq (ranges : List BinRange) (sec : PtImageInfo) :
    binRangesSection files bytes maxranges sections ranges sec =
      (sectionLoads files bytes sections sec).foldl (loadRanges files maxranges) ranges := by
  unfold binRangesSection sectionLoads
  cases hfile : files sec.path with
  | none => rfl
  | some elf =>
      simp only [Option.bind_some]
      cases hload : elfEffectiveLoadAddr elf sec.type sec.loadAddr with
      | none => cases elfBaseVaddr elf <;> rfl
      | some loadAddr =>
          obtain ⟨baseVaddr, hbase⟩ := elfBaseVaddr_of_load hload
          obtain ⟨phdrs, hphdrs⟩ := phdrs_of_base hbase
          have hown : loadRanges files maxranges ranges ⟨sec.path, basename sec.path, loadAddr⟩ =
              addBinRanges maxranges (basename sec.path) loadAddr (loadAddr.toInt64 - baseVaddr.toInt64) phdrs
                ranges := by
            simp only [loadRanges, hfile, hbase, hphdrs]
          simp only [hbase, hphdrs, sectionInterp, List.foldl_cons, hown]
          split
          · cases elfGetInterp files bytes sec.path 1024 with
            | none => rfl
            | some interp =>
                by_cases hmmap : sections.any (sectionIs .mmap interp) = true
                · simp [Option.filter, hmmap]
                · simp [Option.filter, hmmap, binRangesInterp_eq]
          · rfl

theorem binRangesLoop_eq {idxs : List Nat} (hidxs : ∀ i ∈ idxs, i < sections.length) (ranges : List BinRange) :
    binRangesLoop files bytes maxranges sections idxs ranges =
      (idxs.flatMap (usedLoads files bytes sections)).foldl (loadRanges files maxranges) ranges := by
  induction idxs generalizing ranges with
  | nil => rfl
  | cons i idxs ih =>
      have hrest : ∀ j ∈ idxs, j < sections.length := fun j hj => hidxs j (List.mem_cons_of_mem _ hj)
      have hsec : sections[i]? = some (sections.get ⟨i, hidxs i List.mem_cons_self⟩) :=
        List.getElem?_eq_getElem _
      rw [binRangesLoop, List.flatMap_cons, List.foldl_append]
      split
      · rename_i hfull
        rw [loadRanges_full _ hfull, loadRanges_full _ hfull]
      · simp only [usedLoads, hsec]
        split
        · rw [ih hrest, binRangesSection_eq]
        · exact ih hrest ranges

theorem buildBinRanges_eq : buildBinRanges files bytes maxranges sections =
    (loadedFiles files bytes sections).foldl (loadRanges files maxranges) [] :=
  binRangesLoop_eq (fun _ hi => List.mem_range.mp hi) []

end

/-- When one file is loaded, the ranges are those of its segments. -/
theorem buildBinRanges_single {l : FileLoad} {elf : ElfFile} {baseVaddr : UInt64} {phdrs : List (Option GElfPhdr)}
    (hload : loadedFiles files bytes sections = [l]) (hfile : files l.path = some elf)
    (hbase : elfBaseVaddr elf = some baseVaddr) (hphdrs : elf.phdrs = some phdrs) :
    buildBinRanges files bytes maxBinRanges sections =
      fileRanges l.name l.base (l.base.toInt64 - baseVaddr.toInt64) phdrs := by
  rw [buildBinRanges_eq, hload, List.foldl_cons, List.foldl_nil]
  simp only [loadRanges, hfile, hbase, hphdrs]
  rfl

end ObservableBSD.Decode
