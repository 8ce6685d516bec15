import ObservableBSD.Decode.Image
import ObservableBSD.Elf.Lemmas.Addr

/-!
# The slide of the range filter and of the decoder
-/

namespace ObservableBSD.Decode

open Base Trace Elf

def mmapSection (path : CString) (start : UInt64) : PtImageInfo := ⟨path, start, 0, .mmap⟩

/-- The range that the filter gets for a symbol in an image with this load bias. -/
def biasedRange (sym : GElfSym) (bias : UInt64) (mode : Int) : IpRange :=
  { start := sym.value + bias
    endAddr := sym.value + (if 0 < sym.size then sym.size else unknownSizeFallback) + bias
    mode }

/-- The range filter and the decoder both take the load bias for the slide, so that they agree on the
runtime addresses of the symbols. -/
structure SlidesAgree (files : Files) (path : CString) (vmmap : List KinfoVmentry) (start bias : UInt64) :
    Prop where
  filter : computeSlide files path (some vmmap) false = some (bias.toInt64, false)
  decoder : sectionSlide files (mmapSection path start) = some bias.toInt64
  armed : ∀ elf sym name mode, files path = some elf → elfFindSym elf name = some sym →
    resolveRangeSpecs files [{ type := .symbol, symbol := name, mode }] (some vmmap) (some path) false =
      some ([biasedRange sym bias mode], false)
  attributed : ∀ elf sym name, files path = some elf →
    sym ∈ elfFuncSyms elf (elfPreferredSymtabType elf) → sym.name = some name → name ≠ [] →
    ∃ e ∈ addSectionSyms files [] (mmapSection path start),
      e.name.text = name ∧ e.addr = sym.value + bias ∧ e.size = sym.size

theorem resolveRangeSpecs_symbol {files : Files} {path : CString} {elf : ElfFile}
    {vmmap : List KinfoVmentry} {bias : UInt64} {sym : GElfSym} {name : CString} (hfile : files path = some elf)
    (hpath : path ≠ []) (hslide : computeSlide files path (some vmmap) false = some (bias.toInt64, false))
    (hsym : elfFindSym elf name = some sym) (mode : Int) :
    resolveRangeSpecs files [{ type := .symbol, symbol := name, mode }] (some vmmap) (some path) false =
      some ([biasedRange sym bias mode], false) := by
  have hrange : resolveSymbolInElf files path bias.toInt64 name =
      some ((biasedRange sym bias mode).start, (biasedRange sym bias mode).endAddr) := by
    simp only [resolveSymbolInElf, hfile, hsym, slideAddr_toInt64, biasedRange]
    split <;> rfl
  simp [resolveRangeSpecs, hpath, hslide, resolveLoop, hrange, maxRanges]
  rfl

theorem mem_symTableAdd {st : List SymEntry} {e : SymEntry} (h : e ∈ st) (addr size : UInt64)
    (name : Option CString) (binary : CString) (slide : Int64) :
    e ∈ symTableAdd st addr size name binary slide := by
  unfold symTableAdd
  split
  · exact h
  · split
    · exact h
    · exact List.mem_append_left _ h

theorem symTableAdd_foldl_mem {syms : List GElfSym} {sym : GElfSym} {name : CString} (slide : Int64)
    (binary : CString) (hsym : sym ∈ syms) (hname : sym.name = some name) (hne : name ≠ []) :
    ∀ st : List SymEntry, ∃ e ∈ syms.foldl (fun st sym =>
        symTableAdd st (slideAddr sym.value slide) sym.size sym.name binary slide) st,
      e.name.text = name ∧ e.addr = slideAddr sym.value slide ∧ e.size = sym.size := by
  have hkeep : ∀ (syms : List GElfSym) (st : List SymEntry) (e : SymEntry), e ∈ st →
      e ∈ syms.foldl (fun st sym =>
        symTableAdd st (slideAddr sym.value slide) sym.size sym.name binary slide) st := by
    intro syms
    induction syms with
    | nil => intro st e he; exact he
    | cons s syms ih => intro st e he; exact ih _ e (mem_symTableAdd he ..)
  induction syms with
  | nil => cases hsym
  | cons s syms ih =>
      intro st
      rcases List.mem_cons.mp hsym with rfl | hmem
      · refine ⟨⟨slideAddr sym.value slide, sym.size, slide, ⟨2 * st.length + 1, name⟩,
          ⟨2 * st.length + 2, binary⟩⟩, hkeep syms _ _ ?_, rfl, rfl, rfl⟩
        simp [symTableAdd, hname, hne]
      · exact ih hmem _

theorem addSectionSyms_mem {files : Files} {path : CString} {elf : ElfFile} {start bias : UInt64}
    {sym : GElfSym} {name : CString} (hfile : files path = some elf)
    (hslide : sectionSlide files (mmapSection path start) = some bias.toInt64)
    (hsym : sym ∈ elfFuncSyms elf (elfPreferredSymtabType elf)) (hname : sym.name = some name)
    (hne : name ≠ []) :
    ∃ e ∈ addSectionSyms files [] (mmapSection path start),
      e.name.text = name ∧ e.addr = sym.value + bias ∧ e.size = sym.size := by
  obtain ⟨e, hmem, htext, haddr, hsize⟩ :=
    symTableAdd_foldl_mem bias.toInt64 (basename path) hsym hname hne []
  rw [slideAddr_toInt64] at haddr
  have hadd : addSectionSyms files [] (mmapSection path start) =
      symTableAddElf files [] path bias.toInt64 := by
    rw [addSectionSyms, hslide]
    rfl
  refine ⟨e, ?_, htext, haddr, hsize⟩
  rw [hadd, symTableAddElf, hfile]
  exact hmem

/-! ## When the slides are the bias -/

theorem computeSlide_eq_iff {files : Files} {path : CString} {elf : ElfFile} {phdr : GElfPhdr}
    {vmmap : List KinfoVmentry} {base bias : UInt64} (hfile : files path = some elf)
    (hbase : elfBaseVaddr elf = some base)
    (hmap : FirstExecMapping vmmap path (truncPage phdr.vaddr + bias)) :
    computeSlide files path (some vmmap) false = some (bias.toInt64, false) ↔
      base = truncPage phdr.vaddr := by
  have hcompute : computeSlide files path (some vmmap) false =
      some ((truncPage phdr.vaddr + bias).toInt64 - base.toInt64, false) := by
    simp [computeSlide, hfile, hbase, processLoadAddr_of_first hmap]
  rw [hcompute, Option.some.injEq, Prod.mk.injEq, toInt64_sub_eq_iff]
  constructor
  · rintro ⟨h, _⟩
    exact (UInt64.add_left_inj _).mp h.symm
  · intro h
    exact ⟨by rw [h], rfl⟩

theorem sectionSlide_eq_iff {files : Files} {path : CString} {elf : ElfFile} {phdr : GElfPhdr}
    {base bias : UInt64} (hfile : files path = some elf) (hlow : LowestExecLoad elf phdr)
    (hbase : elfBaseVaddr elf = some base) :
    sectionSlide files (mmapSection path (truncPage phdr.vaddr + bias)) = some bias.toInt64 ↔
      truncPage phdr.vaddr ≤ truncPage phdr.vaddr + bias := by
  have hexec := elfExecMapVaddr_of_lowest hlow
  by_cases hlt : truncPage phdr.vaddr + bias < truncPage phdr.vaddr
  · have hnone : sectionSlide files (mmapSection path (truncPage phdr.vaddr + bias)) = none := by
      simp [sectionSlide, mmapSection, hfile, elfEffectiveLoadAddr, hbase, hexec, hlt]
    rw [hnone]
    constructor
    · intro h
      cases h
    · intro h
      exact absurd hlt (UInt64.not_lt.mpr h)
  · have hsome : sectionSlide files (mmapSection path (truncPage phdr.vaddr + bias)) =
        some bias.toInt64 := by
      have hload : elfEffectiveLoadAddr elf .mmap (truncPage phdr.vaddr + bias) = some (base + bias) := by
        simp only [elfEffectiveLoadAddr, hbase, hexec, if_neg hlt]
        rw [UInt64.add_comm (truncPage phdr.vaddr), UInt64.add_sub_cancel]
      simp only [sectionSlide, mmapSection, hfile, hload, hbase]
      exact congrArg some ((toInt64_sub_eq_iff _ _ _).mpr rfl)
    exact ⟨fun _ => UInt64.not_lt.mp hlt, fun _ => hsome⟩

end ObservableBSD.Decode
