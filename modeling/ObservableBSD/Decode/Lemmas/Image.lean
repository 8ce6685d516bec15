import ObservableBSD.Base.Word
import ObservableBSD.Decode.Image
import ObservableBSD.Elf.Lemmas.Ranges

/-!
# The segments of the image

`build_pt_image` adds the segments whose addresses the sections stand for, and counts them.
-/

namespace ObservableBSD.Decode

open Base Trace Elf

def ImageSegment.interval (seg : ImageSegment) : Interval := (seg.vaddr, seg.vaddr + seg.filesz)

/-- The image has been given the segments with these addresses. -/
structure ImageOf (image : PtImage) (intervals : List Interval) : Prop where
  segments : image.segments.map ImageSegment.interval = intervals
  total : image.total = image.segments.length

theorem ImageOf.withSyms {image : PtImage} {intervals : List Interval} (h : ImageOf image intervals)
    (syms : List SymEntry) : ImageOf { image with syms := syms } intervals := ⟨h.segments, h.total⟩

variable {image : PtImage} {intervals : List Interval}

theorem addSegment_imageOf (path : CString) (slide : Int64) (phdr : Option GElfPhdr)
    (h : ImageOf image intervals) :
    ImageOf (addSegment path slide image phdr) (intervals ++ phdrIntervals slide [phdr]) := by
  cases phdr with
  | none => rw [phdrIntervals_none, List.append_nil]; exact h
  | some phdr =>
      by_cases hexec : phdr.execLoad = true
      · rw [phdrIntervals_exec slide hexec]
        simp only [addSegment, if_pos hexec]
        refine ⟨?_, ?_⟩
        · rw [List.map_append, h.segments]; rfl
        · simp [h.total]
      · rw [phdrIntervals_skip slide hexec, List.append_nil]
        simp only [addSegment, if_neg hexec]
        exact h

theorem foldl_addSegment_imageOf (path : CString) (slide : Int64) (phdrs : List (Option GElfPhdr))
    (h : ImageOf image intervals) :
    ImageOf (phdrs.foldl (addSegment path slide) image) (intervals ++ phdrIntervals slide phdrs) := by
  induction phdrs generalizing image intervals with
  | nil => simpa [phdrIntervals, List.reduceOption_nil] using h
  | cons phdr phdrs ih =>
      rw [phdrIntervals_cons, ← List.append_assoc]
      exact ih (addSegment_imageOf path slide phdr h)

theorem addElfToImage_imageOf (files : Files) (path : CString) (loadAddr : UInt64)
    (h : ImageOf image intervals) :
    ImageOf (addElfToImage files image path loadAddr)
      (intervals ++ fileIntervals files path loadAddr) := by
  unfold addElfToImage fileIntervals
  cases files path with
  | none => simpa using h
  | some elf =>
      dsimp only
      cases elfBaseVaddr elf with
      | none => simpa using h
      | some baseVaddr => cases elf.phdrs with
          | none => simpa using h
          | some phdrs => exact foldl_addSegment_imageOf path _ phdrs h

theorem ptImageSection_imageOf (files : Files) (bytes : FileBytes) (sections : List PtImageInfo)
    (sec : PtImageInfo) (h : ImageOf image intervals) :
    ImageOf (ptImageSection files bytes sections image sec)
      (intervals ++ sectionIntervals files bytes sections sec) := by
  unfold ptImageSection sectionIntervals
  cases (files sec.path).bind fun elf => elfEffectiveLoadAddr elf sec.type sec.loadAddr with
  | none => simpa using h
  | some loadAddr =>
      have hown := (addElfToImage_imageOf files sec.path loadAddr h).withSyms
        (addSectionSyms files (addElfToImage files image sec.path loadAddr).syms sec)
      simp only [sectionInterp, ← List.append_assoc]
      split
      · cases elfGetInterp files bytes sec.path 1024 with
        | none => simpa only [interpIntervals, Option.filter, List.append_nil] using hown
        | some interp =>
            by_cases hmmap : sections.any (sectionIs .mmap interp) = true
            · simpa only [interpIntervals, Option.filter, hmmap, if_true, Bool.not_true, Bool.false_eq_true,
                if_false, List.append_nil] using hown
            · simp only [Option.filter, hmmap]
              exact (addElfToImage_imageOf files interp sec.baseAddr hown).withSyms _
      · simpa only [interpIntervals, List.append_nil] using hown

theorem ptImageLoop_imageOf (files : Files) (bytes : FileBytes) (sections : List PtImageInfo)
    {idxs : List Nat} (hidxs : ∀ i ∈ idxs, i < sections.length) (h : ImageOf image intervals) :
    ImageOf (ptImageLoop files bytes sections idxs image)
      (intervals ++ idxs.flatMap (usedIntervals files bytes sections)) := by
  induction idxs generalizing image intervals with
  | nil => simpa [ptImageLoop] using h
  | cons i idxs ih =>
      have hrest : ∀ j ∈ idxs, j < sections.length := fun j hj => hidxs j (List.mem_cons_of_mem _ hj)
      have hsec : sections[i]? = some (sections.get ⟨i, hidxs i List.mem_cons_self⟩) :=
        List.getElem?_eq_getElem _
      rw [ptImageLoop, List.flatMap_cons, ← List.append_assoc]
      simp only [usedIntervals, hsec]
      split
      · exact ih hrest (ptImageSection_imageOf files bytes sections _ h)
      · rw [List.append_nil]
        exact ih hrest h

/-- The segments of the image that `build_pt_image` returns. -/
def imageSegments : Option PtImage → List ImageSegment
  | none => []
  | some image => image.segments

theorem imageSegments_buildPtImage (qsort : SymSort) (files : Files) (bytes : FileBytes)
    (sections : List PtImageInfo) :
    (imageSegments (buildPtImage qsort files bytes sections)).map ImageSegment.interval =
      allIntervals files bytes sections := by
  have himage : ImageOf (ptImageLoop files bytes sections (List.range sections.length) {})
      (allIntervals files bytes sections) :=
    ptImageLoop_imageOf files bytes sections (fun i hi => List.mem_range.mp hi) ⟨rfl, rfl⟩
  rw [← himage.segments]
  simp only [buildPtImage]
  split
  · rename_i hzero
    have hnil := List.eq_nil_of_length_eq_zero (himage.total.symm.trans hzero)
    rw [hnil]
    rfl
  · rfl

/-! ## Addresses as numbers -/

def ImageSegment.NoWrap (seg : ImageSegment) : Prop :=
  seg.vaddr.toNat + seg.filesz.toNat < 18446744073709551616

instance (seg : ImageSegment) : Decidable seg.NoWrap :=
  inferInstanceAs (Decidable (seg.vaddr.toNat + seg.filesz.toNat < 18446744073709551616))

def ImageSegment.Covers (seg : ImageSegment) (ip : UInt64) : Prop :=
  seg.vaddr.toNat ≤ ip.toNat ∧ ip.toNat < seg.vaddr.toNat + seg.filesz.toNat

theorem ImageSegment.NoWrap.end_toNat {seg : ImageSegment} (h : seg.NoWrap) :
    (seg.vaddr + seg.filesz).toNat = seg.vaddr.toNat + seg.filesz.toNat := toNat_add_of_lt h

theorem ImageSegment.NoWrap.covers_iff {seg : ImageSegment} (h : seg.NoWrap) (ip : UInt64) :
    seg.Covers ip ↔ seg.vaddr ≤ ip ∧ ip < seg.vaddr + seg.filesz := by
  rw [UInt64.le_iff_toNat_le, UInt64.lt_iff_toNat_lt, h.end_toNat]
  rfl

end ObservableBSD.Decode
