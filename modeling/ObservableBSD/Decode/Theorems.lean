import ObservableBSD.Decode.Lemmas.Gaps
import ObservableBSD.Decode.Lemmas.Image
import ObservableBSD.Decode.Lemmas.Slide
import ObservableBSD.Decode.Lemmas.Symbols

/-!
# Results about the decoder's accumulators
-/

namespace ObservableBSD.Decode

open Base Trace Elf

/-! ## Balance of the shadow stacks -/

/-- In a well-nested stream every RETURN pops what its own CALL pushed exactly when no CALL whose callee
does not start at the entry of a symbol stands inside a call whose callee does. -/
theorem shadowStacks_balanced_iff {w : List DecodedInsn} (hw : Nested insnKind w) :
    CalltreeBalanced w ∧ CollapsedBalanced w ↔ EntersWherePopped insnKind DecodedInsn.atEntry w := by
  constructor
  · rintro ⟨hct, _⟩
    exact (calltree_isShadow w).enters_of_balanced hw (calltreeBalanced_iff.mp hct)
  · intro h
    refine ⟨calltreeBalanced_iff.mpr ((calltree_isShadow w).balanced h), ?_⟩
    intro pre c body r hp hc hb hr hd
    exact (collapsed_isShadow hd).balanced (h.of_prefix hp) pre c body r List.prefix_rfl hc hb hr

private def fooSym : SymEntry := ⟨0x1000, 16, 0, ⟨1, cstr "foo"⟩, ⟨2, cstr "a.out"⟩⟩

private def barSym : SymEntry := ⟨0x2000, 16, 0, ⟨3, cstr "bar"⟩, ⟨2, cstr "a.out"⟩⟩

/-- `foo` is called directly and calls `bar` through a stub without a symbol. -/
private def stubTrace : List DecodedInsn :=
  [⟨none, 0x500, .call, 0⟩, ⟨some fooSym, 0x1000, .other, 0⟩, ⟨some fooSym, 0x1001, .call, 0⟩,
    ⟨none, 0x800, .jump, 0⟩, ⟨some barSym, 0x2000, .ret, 0⟩, ⟨some fooSym, 0x1006, .ret, 0⟩]

private theorem stubTrace_nested : Nested insnKind stubTrace :=
  .wrap (u := [_, _, _, _]) rfl
    (.other rfl (.wrap (u := [_]) rfl (.other rfl .nil) rfl .nil)) rfl .nil

/-- The RETURN of `bar` pops `foo`, which the direct CALL pushed. -/
theorem stubTrace_unbalanced : Nested insnKind stubTrace ∧ ¬ (CalltreeBalanced stubTrace ∧
    CollapsedBalanced stubTrace) := by
  refine ⟨stubTrace_nested, fun h => ?_⟩
  have hfoo := h.1 (stubTrace.take 2) ⟨some fooSym, 0x1001, .call, 0⟩ [⟨none, 0x800, .jump, 0⟩]
    ⟨some barSym, 0x2000, .ret, 0⟩ (by decide) rfl (.other rfl .nil) rfl
  exact absurd hfoo (by decide)

theorem stubTrace_balanced_iff : Nested insnKind stubTrace ∧
    (CalltreeBalanced stubTrace ∧ CollapsedBalanced stubTrace ↔
      EntersWherePopped insnKind DecodedInsn.atEntry stubTrace) :=
  ⟨stubTrace_nested, shadowStacks_balanced_iff stubTrace_nested⟩

/-! ## Calls of the profile and of the call tree -/

/-- Over a stream the profile keeps counting the calls of the call tree exactly when, at each entry of a
symbol, the previous instruction is a CALL just if the previous instruction with a symbol is one. -/
theorem callsAgree_iff (dwarf : DwarfLookup) (sections : Option (List PtImageInfo)) (w : List DecodedInsn) :
    (∀ pre, pre <+: w → CallsAgree dwarf sections pre) ↔ SameCalls w := by
  constructor
  · intro h pre x hp
    exact (callsAgree_concat (h pre ((List.prefix_append _ _).trans hp))).mp (h _ hp)
  · intro h pre
    induction pre using List.reverseRecOn with
    | nil => intro _; exact callsAgree_nil
    | append_singleton pre x ih =>
        intro hp
        exact (callsAgree_concat (ih ((List.prefix_append _ _).trans hp))).mpr (h pre x hp)

/-- `foo` calls through a stub without a symbol that jumps to `bar`. -/
private def jumpTrace : List DecodedInsn :=
  [⟨some fooSym, 0x1001, .call, 0⟩, ⟨none, 0x800, .jump, 0⟩, ⟨some barSym, 0x2000, .ret, 0⟩]

/-- The profile counts a call of `bar`, the call tree none. -/
theorem jumpTrace_calls_differ : ¬ CallsAgree (fun _ _ _ => none) none jumpTrace := by
  intro h
  have hbar := (h barSym.name barSym.binary).1
  exact absurd hbar (by decide)

/-! ## Stacks of the call tree and of the collapsed output -/

/-- The call tree is the trie of the shadow stacks behind its pushes. -/
theorem calltree_isTrie (w : List DecodedInsn) : (calltreeRun w).IsTrieOf (calltreePushes w) :=
  (calltreeRun_holdsPushes w).isTrieOf (calltreeRun_valid w)

/-- Over a stream the two stacks keep describing the same calls exactly when no RETURN comes while more than
256 calls are open. -/
theorem stacksAgree_iff_returns (w : List DecodedInsn) :
    (∀ pre, pre <+: w → StacksAgree pre) ↔
      ∀ pre x, pre ++ [x] <+: w → x.iclass.isReturn = true → (openCallsIn pre x).length ≤ maxStackDepth := by
  constructor
  · intro h pre x hp
    exact (stacksAgree_concat (h pre ((List.prefix_append _ _).trans hp))).mp (h _ hp)
  · intro h pre
    induction pre using List.reverseRecOn with
    | nil => intro _; exact stacksAgree_iff.mpr rfl
    | append_singleton pre x ih =>
        intro hp
        exact (stacksAgree_concat (ih ((List.prefix_append _ _).trans hp))).mpr (h pre x hp)

/-- `foo` calls itself with its first instruction. -/
private def recursion (n : Nat) : List DecodedInsn := List.replicate n ⟨some fooSym, 0x1000, .call, 0⟩

private theorem recursion_open (n : Nat) :
    openCallsRun (recursion (n + 1)) = (true, List.replicate n fooSym.name) := by
  induction n with
  | zero => rfl
  | succ n ih =>
      rw [recursion, List.replicate_succ', openCallsRun, List.foldl_concat]
      have hstep : openCallsStep (openCallsRun (recursion (n + 1))) ⟨some fooSym, 0x1000, .call, 0⟩ =
          (true, List.replicate (n + 1) fooSym.name) := by rw [ih]; rfl
      exact hstep

/-- The 257th activation of `foo` returns: the call tree still has 256 of them, the collapsed stack 255. -/
theorem recursion_stacks_differ : ¬ ∀ pre,
    pre <+: recursion 257 ++ [⟨some fooSym, 0x1000, .ret, 0⟩] → StacksAgree pre := by
  intro h
  have hreturn := (stacksAgree_concat (h (recursion 257) (List.prefix_append _ _))).mp
    (h _ List.prefix_rfl) rfl
  have hopen : openCallsIn (recursion 257) ⟨some fooSym, 0x1000, .ret, 0⟩ =
      fooSym.name :: List.replicate 256 fooSym.name := by
    rw [openCallsIn, openCalls, recursion_open]; rfl
  rw [hopen, List.length_cons, List.length_replicate] at hreturn
  exact absurd hreturn (by decide)

/-! ## Gaps of the trace -/

/-- In a run, every entry that is counted or pushed comes right behind a CALL. -/
def EntriesBehindCalls (env : DecodeEnv) (trace : List PtSegment) : Prop :=
  ∀ pre r post, (decodePtInsnLoop env trace).1.calls = pre ++ .next (.ok r) :: post →
    CountsEntry env (decodeAfter env pre) r → RightBehindCall pre

/-- No entry is counted across a gap exactly when no instruction at the entry of a symbol comes behind a stale
CALL, wherever the accumulator has room. -/
theorem entriesBehindCalls_iff (env : DecodeEnv) (trace : List PtSegment) :
    EntriesBehindCalls env trace ↔ ∀ pre r post,
      callsOf PtItem.isInsnError trace = pre ++ .next (.ok r) :: post → (env.decoded r).atEntry = true →
        env.hasRoom (decodeAfter env pre) = true → ¬ StaleCall env pre := by
  have hcalls : (decodePtInsnLoop env trace).1.calls = callsOf PtItem.isInsnError trace :=
    decodeTrace_calls ..
  unfold EntriesBehindCalls
  rw [hcalls]
  constructor
  · intro h pre r post hp hx hr hstale
    exact hstale.2 (h pre r post hp ((countsEntry_iff env pre r).mpr ⟨hx, hstale.1, hr⟩))
  · intro h pre r post hp hcounts
    obtain ⟨hx, hc, hr⟩ := (countsEntry_iff env pre r).mp hcounts
    by_contra hnot
    exact h pre r post hp hx hr ⟨hc, hnot⟩

private def gapEnv (fmt : BsdtraceFmt) : DecodeEnv :=
  { fmt, opts := none, sections := [], symbols := [barSym], ranges := [], dwarf := fun _ _ _ => none }

/-- `bar` makes a call, the memory of the next instruction is missing, and the decoder syncs again at the
entry of `bar`. -/
private def gapTrace : List PtSegment :=
  [{ items := [.insn ⟨0x2005, .call⟩ {}, .insnFault .nomap] }, { items := [.insn ⟨0x2000, .other⟩ {}] }]

private theorem barSym_lookup {ip : UInt64} (hlow : barSym.addr ≤ ip) (hhigh : ip < barSym.addr + barSym.size) :
    symTableLookup [barSym] ip = some barSym := by
  have hsearch : symTableSearch [barSym] ip 0 0 (-1) = 0 := by
    have hend : symTableSearch [barSym] ip 1 0 0 = 0 := by rw [symTableSearch]; rfl
    rw [symTableSearch]
    simp [hlow, hend]
  have hsize : 0 < barSym.size := by decide
  simp [symTableLookup, hsearch, hsize, hhigh]

private theorem gapTrace_counts {fmt : BsdtraceFmt} (hfmt : fmt ∈ [BsdtraceFmt.profile, .tree, .collapsed]) :
    ¬ EntriesBehindCalls (gapEnv fmt) gapTrace := by
  intro h
  have hcalls : (decodePtInsnLoop (gapEnv fmt) gapTrace).1.calls = _ := decodeTrace_calls ..
  have hcall : (gapEnv fmt).decoded (⟨0x2005, .call⟩, {}) = ⟨some barSym, 0x2005, .call, 0⟩ := by
    rw [DecodeEnv.decoded, show (gapEnv fmt).symbols = [barSym] from rfl, barSym_lookup (by decide) (by decide)]
  have hentry : (gapEnv fmt).decoded (⟨0x2000, .other⟩, {}) = ⟨some barSym, 0x2000, .other, 0⟩ := by
    rw [DecodeEnv.decoded, show (gapEnv fmt).symbols = [barSym] from rfl, barSym_lookup (by decide) (by decide)]
  let pre : List PtCall := [.sync none, .next (.ok (⟨0x2005, .call⟩, {})), .next (.error .nomap), .sync none]
  have hstream : (gapEnv fmt).stream pre = [⟨some barSym, 0x2005, .call, 0⟩] :=
    congrArg (fun x => [x]) hcall
  have hcounts : CountsEntry (gapEnv fmt) (decodeAfter (gapEnv fmt) pre) (⟨0x2000, .other⟩, {}) := by
    rw [countsEntry_iff, hentry, RemembersCall, hstream]
    simp only [List.mem_cons, List.not_mem_nil, or_false] at hfmt
    rcases hfmt with rfl | rfl | rfl
    · exact ⟨rfl, ⟨_, rfl, rfl⟩, rfl⟩
    · exact ⟨rfl, ⟨_, rfl, rfl⟩, rfl⟩
    · refine ⟨rfl, ⟨_, rfl, rfl⟩, ?_⟩
      have hcol : (decodeAfter (gapEnv .collapsed) pre).col = collapsedRun ((gapEnv .collapsed).stream pre) :=
        decodeAfter_accumulates (gapEnv .collapsed) pre
      rw [DecodeEnv.hasRoom, show (gapEnv .collapsed).fmt = .collapsed from rfl]
      simp only
      rw [hcol, hstream]
      decide
  have hbehind := h pre (⟨0x2000, .other⟩, {}) [.next (.error .eos)] (by rw [hcalls]; rfl) hcounts
  obtain ⟨r, hr, _⟩ := hbehind
  cases hr

/-- All three accumulators count an entry of `bar` right behind the sync. -/
theorem gapTrace_counts_entry : ¬ EntriesBehindCalls (gapEnv .profile) gapTrace ∧
    ¬ EntriesBehindCalls (gapEnv .tree) gapTrace ∧ ¬ EntriesBehindCalls (gapEnv .collapsed) gapTrace :=
  ⟨gapTrace_counts (by simp), gapTrace_counts (by simp), gapTrace_counts (by simp)⟩

/-! ## Errors of the decoder -/

/-- The decode and the probe cover the whole trace exactly when no error but the end of the stream comes
up while events are drained. -/
theorem decode_covers_iff (env : DecodeEnv) (probeEnv : ProbeEnv) (trace : List PtSegment) :
    DecodeCovers env trace ∧ ProbeCovers probeEnv trace ↔ DrainsCleanly trace := by
  constructor
  · rintro ⟨h, _⟩
    refine (covered_iff_drainsCleanly trace).mp ?_
    have hcalls : (decodePtInsnLoop env trace).1.calls = callsOf PtItem.isInsnError trace :=
      decodeTrace_calls ..
    exact hcalls ▸ h.covered
  · intro h
    exact ⟨decodeCovers_of_drainsCleanly env h, probeCovers_of_drainsCleanly probeEnv h⟩

/-- An event cannot be read behind the first sync point; an instruction follows the second. -/
private def eventErrorTrace : List PtSegment :=
  [{ items := [.eventFault (.other 1)] }, { items := [.insn ⟨0x1000, .other⟩ {}] }]

private def lsSections : List PtImageInfo := [⟨cstr "/bin/ls", 0x201000, 0, .executable⟩]

private def lsEnv : DecodeEnv :=
  { fmt := .text, opts := none, sections := lsSections, symbols := [], ranges := [],
    dwarf := fun _ _ _ => none }

/-- The error ends both loops: no sync follows it, and the instruction is not decoded. -/
theorem eventErrorTrace_not_covered : ¬ DecodeCovers lsEnv eventErrorTrace ∧
    ¬ ProbeCovers ⟨lsSections, [], []⟩ eventErrorTrace := by
  have hcalls : callsOf PtItem.isInsnError eventErrorTrace =
      [.sync none, .event (.error (.other 1))] := rfl
  constructor
  · intro h
    have hlist : (decodePtInsnLoop lsEnv eventErrorTrace).1.calls = _ := decodeTrace_calls ..
    obtain ⟨c, hc, hend⟩ := h.covered.ended
    rw [hlist, hcalls] at hc
    cases hc
    cases hend
  · intro h
    have hlist : (decodePtProbeLoop ⟨lsSections, [], []⟩ eventErrorTrace).1.calls = _ :=
      decodeTrace_calls ..
    obtain ⟨c, hc, hend⟩ := h.covered.ended
    rw [hlist, hcalls] at hc
    cases hc
    cases hend

/-! ## Slides -/

/-- For a file mapped with a load bias, the range filter and the decoder both take the bias for the slide
exactly when the first `PT_LOAD` of the file lies at the page of its lowest executable `PT_LOAD`, and the
bias does not move the mapping below it. -/
theorem slides_agree_iff {files : Files} {path : CString} {elf : ElfFile} {phdr : GElfPhdr}
    {vmmap : List KinfoVmentry} {bias : UInt64} (hfile : files path = some elf)
    (hlow : LowestExecLoad elf phdr) (hmap : FirstExecMapping vmmap path (truncPage phdr.vaddr + bias)) :
    SlidesAgree files path vmmap (truncPage phdr.vaddr + bias) bias ↔
      elfBaseVaddr elf = some (truncPage phdr.vaddr) ∧
        truncPage phdr.vaddr ≤ truncPage phdr.vaddr + bias := by
  obtain ⟨base, hbase⟩ := elfBaseVaddr_of_lowest hlow
  have hfilter := computeSlide_eq_iff hfile hbase hmap
  have hdecoder : sectionSlide files (mmapSection path _) = some bias.toInt64 ↔ _ :=
    sectionSlide_eq_iff hfile hlow hbase
  rw [hbase, Option.some.injEq]
  constructor
  · intro h
    exact ⟨hfilter.mp h.filter, hdecoder.mp h.decoder⟩
  · rintro ⟨hb, hle⟩
    refine ⟨hfilter.mpr hb, hdecoder.mpr hle, ?_, ?_⟩
    · intro elf' sym name mode hfile' hsym
      exact resolveRangeSpecs_symbol hfile' hmap.path_ne_nil (hfilter.mpr hb) hsym mode
    · intro elf' sym name hfile' hsym hname hne
      exact addSectionSyms_mem hfile' (hdecoder.mpr hle) hsym hname hne

private def exePath : CString := cstr "/usr/local/bin/server"

private def loadPhdr (exec : Bool) (vaddr : UInt64) : GElfPhdr :=
  { type := .load, exec, offset := 0, vaddr, filesz := 0x400 }

private def exeFile (phdrs : List (Option GElfPhdr)) : ElfFile :=
  { ehdr := some .dyn, phdrs := some phdrs, sections := [] }

private def exeFiles (phdrs : List (Option GElfPhdr)) : Files :=
  fun path => if path = exePath then some (exeFile phdrs) else none

private theorem exeFiles_exePath (phdrs : List (Option GElfPhdr)) :
    exeFiles phdrs exePath = some (exeFile phdrs) := if_pos rfl

private def exeMap (start : UInt64) : List KinfoVmentry := [⟨0x550, true, true, exePath, start⟩]

private theorem exeMap_first (start : UInt64) : FirstExecMapping (exeMap start) exePath start := by
  refine ⟨[], ⟨0x550, true, true, exePath, start⟩, [], rfl, ?_, ?_, rfl, rfl, rfl⟩
  · intro k hk; cases hk
  · simp

/-- A file whose only segment is executable. -/
theorem slides_agree_single : SlidesAgree (exeFiles [some (loadPhdr true 0x1000)]) exePath
    (exeMap 0x201000) 0x201000 0x200000 := by
  have hlow : LowestExecLoad (exeFile [some (loadPhdr true 0x1000)]) (loadPhdr true 0x1000) := by
    refine ⟨⟨_, rfl, List.mem_singleton.mpr rfl⟩, by decide, ?_⟩
    intro phdrs hphdrs other hmem _
    cases hphdrs
    cases List.mem_singleton.mp hmem
    exact UInt64.le_refl _
  have hstart : truncPage (loadPhdr true 0x1000).vaddr + 0x200000 = 0x201000 := by decide
  have hagree := slides_agree_iff (exeFiles_exePath _) hlow (hstart.symm ▸ exeMap_first 0x201000)
  rw [hstart] at hagree
  exact hagree.mpr ⟨by decide, by decide⟩

private def readonlyFirst : List (Option GElfPhdr) :=
  [some (loadPhdr false 0), some (loadPhdr true 0x15c0)]

/-- Behind a read-only first segment at 0, the executable one lies on the next page. -/
theorem slides_differ_readonly_first : LowestExecLoad (exeFile readonlyFirst) (loadPhdr true 0x15c0) ∧
    FirstExecMapping (exeMap 0x201000) exePath (truncPage 0x15c0 + 0x200000) ∧
    ¬ SlidesAgree (exeFiles readonlyFirst) exePath (exeMap 0x201000) (truncPage 0x15c0 + 0x200000)
      0x200000 := by
  refine ⟨⟨⟨_, rfl, by decide⟩, by decide, ?_⟩, exeMap_first 0x201000, ?_⟩
  · intro phdrs hphdrs other hmem hexec
    cases hphdrs
    rcases List.mem_cons.mp hmem with h | h
    · cases h; cases hexec
    · cases List.mem_singleton.mp h; exact UInt64.le_refl _
  · intro h
    have hfilter := h.filter
    revert hfilter
    decide

/-! ## The image and the ranges of the binaries -/

/-- With room for all of them and none wrapping around, the ranges of the binaries are the segments of the
image, in the same order, and an address has a binary exactly when a segment of the image lies there. -/
theorem ranges_agree {qsort : SymSort} {files : Files} {bytes : FileBytes} {sections : List PtImageInfo}
    (hroom : (imageSegments (buildPtImage qsort files bytes sections)).length < maxBinRanges)
    (hwrap : ∀ seg ∈ imageSegments (buildPtImage qsort files bytes sections), seg.NoWrap) :
    ((buildBinRanges files bytes maxBinRanges sections).map fun r => (r.lo.toNat, r.hi.toNat)) =
        ((imageSegments (buildPtImage qsort files bytes sections)).map fun seg =>
          (seg.vaddr.toNat, seg.vaddr.toNat + seg.filesz.toNat)) ∧
      ∀ ip, (findBinaryForIp (buildBinRanges files bytes maxBinRanges sections) ip).isSome ↔
        ∃ seg ∈ imageSegments (buildPtImage qsort files bytes sections), seg.Covers ip := by
  have himage := imageSegments_buildPtImage qsort files bytes sections
  have hfits : (allIntervals files bytes sections).length ≤ maxBinRanges := by
    rw [← himage, List.length_map]
    exact hroom.le
  have hranges : (buildBinRanges files bytes maxBinRanges sections).map BinRange.interval =
      (imageSegments (buildPtImage qsort files bytes sections)).map ImageSegment.interval := by
    rw [buildBinRanges_rangesOf, List.take_of_length_le hfits, himage]
  constructor
  · have hnat := congrArg (List.map fun x : Interval => (x.1.toNat, x.2.toNat)) hranges
    rw [List.map_map, List.map_map] at hnat
    refine hnat.trans (List.map_congr_left fun seg hseg => ?_)
    exact congrArg (Prod.mk _) (hwrap seg hseg).end_toNat
  · intro ip
    rw [findBinaryForIp_isSome, hranges]
    constructor
    · rintro ⟨x, hx, hip⟩
      obtain ⟨seg, hseg, rfl⟩ := List.mem_map.mp hx
      exact ⟨seg, hseg, ((hwrap seg hseg).covers_iff ip).mpr hip⟩
    · rintro ⟨seg, hseg, hcovers⟩
      exact ⟨seg.interval, List.mem_map_of_mem hseg, ((hwrap seg hseg).covers_iff ip).mp hcovers⟩

private def ldElf : CString := cstr "/libexec/ld-elf.so.1"

private def libPath : CString := cstr "/lib/libc.so.7"

private def interpPhdr : GElfPhdr := ⟨.interp, false, 0x270, 0x270, 21⟩

private def imageFiles : Files := fun path =>
  if path = exePath then some (exeFile (some interpPhdr :: readonlyFirst))
  else if path = ldElf then some (exeFile [some (loadPhdr true 0x3000)])
  else if path = libPath then some (exeFile readonlyFirst)
  else none

private def imageBytes : FileBytes := fun path offset filesz =>
  if path = exePath ∧ offset = 0x270 ∧ filesz = 21 then some (ldElf ++ [0]) else none

private def imageSections : List PtImageInfo :=
  [⟨exePath, 0x200000, 0x20000000, .executable⟩, ⟨libPath, 0x30001000, 0, .mmap⟩,
    ⟨libPath, 0x30000000, 0, .mmap⟩]

/-- A main image, the interpreter that it names, and a library that is mapped twice. -/
theorem ranges_agree_interp :
    (buildBinRanges imageFiles imageBytes maxBinRanges imageSections).map (fun r => (r.lo, r.hi)) =
        [(0x2015c0, 0x2019c0), (0x20000000, 0x20000400), (0x300005c0, 0x300009c0)] ∧
      (buildBinRanges imageFiles imageBytes maxBinRanges imageSections).map
          (fun r => (r.lo.toNat, r.hi.toNat)) =
        (imageSegments (buildPtImage stableSort imageFiles imageBytes imageSections)).map (fun seg =>
          (seg.vaddr.toNat, seg.vaddr.toNat + seg.filesz.toNat)) :=
  ⟨by decide, (ranges_agree (by decide) (by decide)).1⟩

/-! ## Symbol lookup -/

theorem symTableLookup_complete_iff (adds : List SymAdd) (table : List SymEntry)
    (hsort : SortOf (symTableAddAll adds) table) (hfits : ∀ e ∈ table, e.Fits) :
    (∀ ip, LookupComplete table ip ↔ ¬ Shadowed table ip) ∧
      ((∀ ip, LookupComplete table ip) ↔ EndsInOrder table) :=
  ⟨lookupComplete_iff hsort.2 hfits, forall_lookupComplete_iff hsort.2 hfits⟩

private def addFunc (addr size : UInt64) (name : String) : SymAdd := ⟨addr, size, some (cstr name), cstr "a.out", 0⟩

private def rowAdds : List SymAdd := [addFunc 0x1000 0x100 "main", addFunc 0x1100 0x10 "foo"]

theorem row_lookupComplete : LookupComplete (symTableAddAll rowAdds) 0x1105 := by
  have hsorted : SortedByAddr (symTableAddAll rowAdds) := by
    unfold SortedByAddr
    decide
  have hfits : ∀ e ∈ symTableAddAll rowAdds, e.Fits := by
    unfold SymEntry.Fits
    decide
  have hends : EndsInOrder (symTableAddAll rowAdds) := .of_pairwise (by decide)
  exact (symTableLookup_complete_iff rowAdds _ ⟨List.Perm.refl _, hsorted⟩ hfits).2.2 hends 0x1105

private def nestedAdds : List SymAdd := [addFunc 0x1000 0x1000 "outer", addFunc 0x1100 0x10 "inner"]

/-- `inner` lies inside `outer`, and the lookup fails at an address of `outer` behind it. -/
theorem nested_lookup_fails : ¬ ∀ (adds : List SymAdd) (table : List SymEntry),
    SortOf (symTableAddAll adds) table → (∀ e ∈ table, e.Fits) → ∀ ip, LookupComplete table ip := by
  intro h
  have hsorted : SortedByAddr (symTableAddAll nestedAdds) := by
    unfold SortedByAddr
    decide
  have hfits : ∀ e ∈ symTableAddAll nestedAdds, e.Fits := by
    unfold SymEntry.Fits
    decide
  have hcomplete := h nestedAdds _ ⟨List.Perm.refl _, hsorted⟩ hfits 0x1500
  refine (lookupComplete_iff hsorted hfits 0x1500).1 hcomplete ⟨[], _, [], _, [], rfl, ?_, ?_, ?_, ?_, nofun⟩
  · decide
  · exact ⟨by decide, by decide⟩
  · decide
  · decide

end ObservableBSD.Decode
