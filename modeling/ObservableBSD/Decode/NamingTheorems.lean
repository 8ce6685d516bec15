import ObservableBSD.Decode.Lemmas.Dwarf
import ObservableBSD.Decode.Lemmas.ExecHits
import ObservableBSD.Decode.Lemmas.SymbolSearch

/-!
# Results about the names of addresses
-/

namespace ObservableBSD.Decode

open Base Trace Elf

/-! ## The symbol of an address -/

/-- The binary search is sound in its `int` and finds what a scan of the table finds. -/
theorem symTableLookup_refinesScan (st : SymTable) (hsorted : SortedByAddr st.entries)
    (hfits : ∀ e ∈ st.entries, e.Fits) (ip : UInt64) :
    st.RefinesScan ip ∧ symTableLookup st.entries ip = (linearLookup st.entries ip).map Prod.fst := by
  refine ⟨⟨fun v hv hle => ?_, fun v hv => (hv.inv hsorted).best_bounds, ?_, fun r hr => ?_⟩,
    symTableLookup_eq_linearLookup hsorted hfits ip⟩
  · obtain ⟨mid, v', hmid, hnonneg, hlt, hturn, _⟩ := SymTable.searchTurn_step (hv.inv hsorted) hle
    exact ⟨mid, v', hmid, hnonneg, hlt, hturn⟩
  · by_cases hempty : st.entries = []
    · exact ⟨none, .empty hempty⟩
    · obtain ⟨v, hv, hend⟩ := SymTable.Searching.exists_end hsorted (.start hempty)
      exact ⟨_, .ended hv hend⟩
  · cases hr with
    | empty hempty => simp [linearLookup, hempty, scanLast]
    | ended hv hend => exact SymTable.found_eq hfits (hv.inv hsorted) hend

/-- Two symbols at one address. -/
private def aliases : SymTable where
  entries := [⟨0x1000, 0, 0, ⟨1, cstr "start"⟩, ⟨2, cstr "a"⟩⟩, ⟨0x2000, 0x10, 0, ⟨3, cstr "open"⟩, ⟨2, cstr "a"⟩⟩,
    ⟨0x2000, 0x20, 0, ⟨4, cstr "_open"⟩, ⟨2, cstr "a"⟩⟩]
  count_lt := by decide

theorem aliases_refinesScan : aliases.RefinesScan 0x2018 ∧
    symTableLookup aliases.entries 0x2018 = some ⟨0x2000, 0x20, 0, ⟨4, cstr "_open"⟩, ⟨2, cstr "a"⟩⟩ := by
  have hsorted : SortedByAddr aliases.entries := by
    unfold SortedByAddr
    decide
  have hfits : ∀ e ∈ aliases.entries, e.Fits := by
    unfold SymEntry.Fits
    decide
  obtain ⟨hrefines, hlookup⟩ := symTableLookup_refinesScan aliases hsorted hfits 0x2018
  exact ⟨hrefines, hlookup.trans (by decide)⟩

/-! ## Hits in the executable -/

/-- The hits of `decode_pt_probe` are the decoded instructions in executable files, in every trace, exactly when the
names that it compares tell these files from the others, or nothing is loaded. -/
theorem measuresExecutable_iff (qsort : SymSort) (files : Files) (bytes : FileBytes) (sections : List PtImageInfo) :
    MeasuresExecutable qsort files bytes sections ↔
      allIntervals files bytes sections = [] ∨ NamesTell qsort files bytes sections := by
  rw [← @buildPtImage_eq_none_iff qsort]
  cases himage : buildPtImage qsort files bytes sections with
  | none => exact ⟨fun _ => Or.inl rfl, fun _ => measuresExecutable_of_none himage⟩
  | some image =>
      rw [measuresExecutable_iff_hits himage, namesTell_iff]
      exact ⟨Or.inr, fun h => h.resolve_left (by simp)⟩

/-- An executable and a library with the same base name. -/
private def lsFiles : Files := fun path =>
  if path = cstr "/bin/ls" ∨ path = cstr "/lib/ls" then
    some { ehdr := none, phdrs := some [some ⟨.load, true, 0, 0x1000, 0x100⟩], sections := [] }
  else none

private def lsLoads : List PtImageInfo :=
  [⟨cstr "/bin/ls", 0, 0, .executable⟩, ⟨cstr "/lib/ls", 0x10000, 0, .mmap⟩]

/-- An instruction of the library counts as a hit. -/
theorem lsLoads_not_measured : ¬ MeasuresExecutable stableSort lsFiles (fun _ _ _ => none) lsLoads := by
  intro h
  have himage : ∃ image, buildPtImage stableSort lsFiles (fun _ _ _ => none) lsLoads = some image := ⟨_, rfl⟩
  obtain ⟨image, himage⟩ := himage
  have hhit := (measuresExecutable_iff_hits himage).mp h ⟨0x10000, .other⟩
  revert hhit
  decide

/-! ## Offsets in binaries -/

/-- The names with offsets of a file tell its addresses apart exactly when the segments that addresses lie in start
at one address. -/
theorem unambiguousOffsets_iff (name : CString) (base : UInt64) (slide : Int64) (phdrs : List (Option GElfPhdr)) :
    UnambiguousOffsets (fileRanges name base slide phdrs) base ↔ StartTogether (rangedIntervals slide phdrs) := by
  rw [unambiguousOffsets_iff_distancesDiffer]
  exact distancesDiffer_iff

/-- A library with two executable segments. -/
private def twoTexts : List (Option GElfPhdr) :=
  [some ⟨.load, true, 0, 0x1000, 0x100⟩, some ⟨.load, true, 0x1000, 0x3000, 0x100⟩]

private def twoTextFiles : Files := fun path =>
  if path = cstr "/lib/x" then some { ehdr := none, phdrs := some twoTexts, sections := [] } else none

private def twoTextSections : List PtImageInfo := [⟨cstr "/lib/x", 0x801000, 0, .mmap⟩]

/-- The starts of both segments are `x+0x0`. -/
theorem twoTexts_ambiguous :
    ¬ UnambiguousOffsets (buildBinRanges twoTextFiles (fun _ _ _ => none) maxBinRanges twoTextSections) 0x801000 := by
  have hload : loadedFiles twoTextFiles (fun _ _ _ => none) twoTextSections =
      [⟨cstr "/lib/x", cstr "x", 0x801000⟩] := by decide
  rw [buildBinRanges_single hload rfl rfl rfl]
  intro h
  exact h.distinct 0x801000 0x803000 (cstr "x", 0) (cstr "x", 0) (by decide) (by decide) (by decide) rfl

/-! ## Source lines -/

/-- The source line that is found for an address is the one of the line table, whatever the order of the units,
exactly when the first rows at the nearest row address tell it. -/
theorem followsLineTable_iff (units : List LineUnit) (slide : Int64) (addr : UInt64) (filesz : Nat) :
    FollowsLineTable units slide addr filesz ↔ NearestTells units (addr - slide.toUInt64) filesz := by
  constructor
  · intro h
    -- by the order of the units, each first row is the answer
    have hfirst : ∀ nearest, Nearest units (addr - slide.toUInt64) nearest → ∀ u ∈ units, ∀ r,
        u.firstAt nearest = some r →
          dwarfAddrToLine (dwarfUnits units) slide addr filesz = some (r.answer filesz) := by
      intro nearest hnearest u hu r hr
      obtain ⟨units', hperm, hanswer⟩ := exists_perm_answer filesz hnearest hu hr
      exact (h.order units' hperm).symm.trans hanswer
    constructor
    · intro s hs r hcovers hrow hnear
      have hanswer := h.covered s hs r hcovers hrow hnear
      obtain ⟨nearest, hnearest⟩ : ∃ nearest, Nearest units (addr - slide.toUInt64) nearest := by
        by_contra hnone
        rw [dwarfAddrToLine_of_not_nearest fun nearest hn => hnone ⟨nearest, hn⟩] at hanswer
        cases hanswer
      refine ⟨nearest, hnearest, fun u hu r' hr' => ?_⟩
      exact Option.some.inj ((hfirst nearest hnearest u hu r' hr').symm.trans hanswer)
    · intro hnone nearest hnearest
      obtain ⟨r, _, hanswer⟩ := dwarfAddrToLine_of_nearest filesz hnearest
      rw [h.uncovered hnone] at hanswer
      cases hanswer
    · intro nearest hnearest u hu u' hu' r r' hr hr'
      exact Option.some.inj ((hfirst nearest hnearest u hu r hr).symm.trans (hfirst nearest hnearest u' hu' r' hr'))
  · intro h
    constructor
    · intro s hs r hcovers hrow hnear
      obtain ⟨nearest, hnearest, htells⟩ := h.covered s hs r hcovers hrow hnear
      obtain ⟨r', hr', hanswer⟩ := dwarfAddrToLine_of_nearest filesz hnearest
      obtain ⟨u, hu, hfirst⟩ := exists_firstAt hr'
      rw [hanswer, htells u hu r' hfirst]
    · intro hnone
      exact dwarfAddrToLine_of_not_nearest (h.uncovered hnone)
    · intro units' hperm
      by_cases hex : ∃ nearest, Nearest units (addr - slide.toUInt64) nearest
      · obtain ⟨nearest, hnearest⟩ := hex
        obtain ⟨r, hr, hanswer⟩ := dwarfAddrToLine_of_nearest filesz hnearest
        obtain ⟨r', hr', hanswer'⟩ := dwarfAddrToLine_of_nearest filesz (hnearest.perm hperm)
        obtain ⟨u, hu, hfirst⟩ := exists_firstAt hr
        obtain ⟨u', hu', hfirst'⟩ := exists_firstAt hr'
        rw [hanswer, hanswer', h.order nearest hnearest u hu u' (hperm.subset hu') r r' hfirst hfirst']
      · rw [dwarfAddrToLine_of_not_nearest fun nearest hn => hex ⟨nearest, hn⟩,
          dwarfAddrToLine_of_not_nearest fun nearest hn => hex ⟨nearest, hn.perm hperm.symm⟩]

/-- A function whose first line has two rows at its start. -/
private def entrySequence : LineSequence where
  rows := [⟨0x1000, cstr "a.c", 3⟩, ⟨0x1000, cstr "a.c", 4⟩]
  stop := ⟨0x1010, cstr "a.c", 4⟩
  ascends := by decide

/-- The first of the two rows is the answer, not the last one. -/
theorem entrySequence_not_followed :
    DisjointSequences [[entrySequence]] ∧ ¬ FollowsLineTable [[entrySequence]] 0 0x1000 1024 := by
  refine ⟨List.pairwise_singleton _ _, fun h => ?_⟩
  have hrow : entrySequence.rowAt 0x1000 = some ⟨0x1000, cstr "a.c", 4⟩ := by decide
  have hcovers : entrySequence.Covers 0x1000 := ⟨⟨_, List.mem_cons_self, by decide⟩, by decide⟩
  have hanswer := h.covered entrySequence List.mem_cons_self _ hcovers hrow (by decide)
  revert hanswer
  decide

end ObservableBSD.Decode
