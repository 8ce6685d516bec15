import ObservableBSD.Trace.Lemmas.Meta
import ObservableBSD.Trace.State

/-!
# Sidecar and sections in step
-/

namespace ObservableBSD.Trace

open Base Elf

variable {ts : TraceState} {path : CString} {addr base : UInt64} {type : HwtRecordType} {sections : List PtImageInfo}

def HwtRecordType.isImage (type : HwtRecordType) : Bool := type = .executable || type = .mmap || type = .kernel

/-! ## Reading one line -/

theorem typeName_section (type : HwtRecordType) : TypeName (sectionTypeName type) := by
  unfold sectionTypeName
  split
  · exact typeName_of_all (by decide) (by decide) (by decide)
  · split <;> exact typeName_of_all (by decide) (by decide) (by decide)

/-- The reader takes back the type that the writer has written. -/
theorem sectionType?_name (h : type.isImage = true) : sectionType? (sectionTypeName type) = some type := by
  cases type with
  | executable | mmap | kernel => decide
  | _ => cases h

theorem metaReadLine_section (htype : type.isImage = true) (hne : path ≠ []) (hpath : Plain path)
    (hlen : path.length ≤ 1023) (sections : List PtImageInfo) :
    metaReadLine sections (sectionLine (sectionTypeName type) path addr base) =
      (if type = .executable then [] else sections) ++ [{ path, loadAddr := addr, baseAddr := base, type }] := by
  have hcopy : strlcpy maxPathLen path = path := strlcpy_of_lt (Nat.lt_succ_of_le hlen)
  simp only [metaReadLine, sscanf_sectionLine (typeName_section type) hne hpath hlen, sectionType?_name htype,
    hcopy]

theorem metaReadLine_of_sscanf {line : CString} {v : Scanned} (h : sscanf sectionFormat line = [v]) :
    metaReadLine sections line = sections := by
  simp only [metaReadLine, h]

theorem metaReadLine_empty (type : HwtRecordType) (addr base : UInt64) :
    metaReadLine sections (sectionLine (sectionTypeName type) [] addr base) = sections :=
  metaReadLine_of_sscanf (sscanf_sectionLine_nil (typeName_section type) addr base)

theorem pathKey_eq : cstr "\",\"path\":\"" = cstr "\",\"" ++ 112 :: cstr "ath\":\"" ∧
    cstr "\",\"path\":\"" = cstr "\",\"p" ++ 97 :: cstr "th\":\"" := by decide

theorem metaReadLine_thread {name : CString} (hname : TypeName name) (tid : Int32) :
    metaReadLine sections (threadLine name tid) = sections := by
  have hkey : cstr "\",\"tid\":" = cstr "\",\"" ++ 116 :: cstr "id\":" := by decide
  refine metaReadLine_of_sscanf (sscanf_otherKey hname (head?_append_of_head? (by decide)) ?_)
  rw [pathKey_eq.1, hkey, List.append_assoc, List.cons_append]
  exact afterLiteral_mismatch _ (by decide)

theorem metaReadLine_header (pid tid : Int32) :
    ∀ line ∈ metaWriterHeader pid tid, ∀ sections, metaReadLine sections line = sections := by
  have hline : cstr "\x7b\"type\":\"header\",\"pid\":" =
      cstr "\x7b\"type\":\"" ++ (cstr "header" ++ cstr "\",\"pid\":") := by decide
  have hkey : cstr "\",\"pid\":" = cstr "\",\"p" ++ 105 :: cstr "d\":" := by decide
  intro line hmem sections
  obtain rfl := List.mem_singleton.mp hmem
  simp only [hline, List.append_assoc]
  refine metaReadLine_of_sscanf (sscanf_otherKey (typeName_of_all (by decide) (by decide) (by decide))
    (head?_append_of_head? (by decide)) ?_)
  rw [pathKey_eq.2, hkey, List.append_assoc, List.cons_append]
  exact afterLiteral_mismatch _ (by decide)

theorem metaReadLine_timing (mtcFreq cycThresh : UInt8) :
    ∀ line ∈ metaWriterTiming mtcFreq cycThresh, ∀ sections, metaReadLine sections line = sections := by
  have hline : cstr "\x7b\"type\":\"timing\",\"mtc_freq\":" =
      cstr "\x7b\"type\":\"" ++ (cstr "timing" ++ cstr "\",\"mtc_freq\":") := by decide
  have hkey : cstr "\",\"mtc_freq\":" = cstr "\",\"" ++ 109 :: cstr "tc_freq\":" := by decide
  intro line hmem sections
  unfold metaWriterTiming at hmem
  split at hmem
  · cases hmem
  · obtain rfl := List.mem_singleton.mp hmem
    simp only [hline, List.append_assoc]
    refine metaReadLine_of_sscanf (sscanf_otherKey (typeName_of_all (by decide) (by decide) (by decide))
      (head?_append_of_head? (by decide)) ?_)
    rw [pathKey_eq.1, hkey, List.append_assoc, List.cons_append]
    exact afterLiteral_mismatch _ (by decide)

/-! ## Written sections -/

theorem completeLine_sectionLine (hpath : Plain path) (hlen : path.length ≤ 1023) (type : HwtRecordType)
    (addr base : UInt64) : CompleteLine 4096 (sectionLine (sectionTypeName type) path addr base) :=
  completeLine_section (typeName_section type) hpath hlen addr base

theorem jsonEscape_path (hpath : Plain path) : jsonEscape maxPathLen path = path.take 1017 :=
  jsonEscape_plain hpath maxPathLen

/-- A section as the sidecar keeps it. -/
def PtImageInfo.kept (sec : PtImageInfo) : PtImageInfo := { sec with path := sec.path.take 1017 }

/-- Sections that are not those of an `exec` are read behind the earlier ones. -/
theorem foldl_metaReadLine_sections (himage : ∀ sec ∈ sections, sec.type.isImage = true)
    (hexec : ∀ sec ∈ sections, sec.type ≠ .executable) (hne : ∀ sec ∈ sections, sec.path ≠ [])
    (hpath : ∀ sec ∈ sections, Plain sec.path) (before : List PtImageInfo) :
    (metaWriterSections sections).foldl metaReadLine before = before ++ sections.map PtImageInfo.kept := by
  induction sections generalizing before with
  | nil => simp [metaWriterSections]
  | cons sec sections ih =>
      have hmem : sec ∈ sec :: sections := List.mem_cons_self
      have htail : ∀ {P : PtImageInfo → Prop}, (∀ s ∈ sec :: sections, P s) → ∀ s ∈ sections, P s :=
        fun h s hs => h s (List.mem_cons_of_mem _ hs)
      have hplain := hpath sec hmem
      have hread := ih (htail himage) (htail hexec) (htail hne) (htail hpath) (before ++ [sec.kept])
      unfold metaWriterSections at hread ⊢
      rw [List.map_cons, List.foldl_cons, jsonEscape_path hplain,
        metaReadLine_section (himage sec hmem) (by simpa using hne sec hmem) (hplain.take 1017)
          ((List.length_take_le 1017 sec.path).trans (by omega)), if_neg (hexec sec hmem)]
      exact hread.trans (by simp)

theorem completeLine_metaWriterSections (hpath : ∀ sec ∈ sections, Plain sec.path) :
    ∀ line ∈ metaWriterSections sections, CompleteLine 4096 line := by
  intro line hline
  obtain ⟨sec, hsec, rfl⟩ := List.mem_map.mp hline
  rw [jsonEscape_path (hpath sec hsec)]
  exact completeLine_sectionLine ((hpath sec hsec).take 1017) ((List.length_take_le _ _).trans (by omega)) _ _ _

theorem map_kept (h : ∀ sec ∈ sections, sec.path.length ≤ 1017) : sections.map PtImageInfo.kept = sections := by
  have hid : ∀ sec ∈ sections, sec.kept = id sec := by
    intro sec hsec
    rw [PtImageInfo.kept, List.take_of_length_le (h sec hsec)]
    rfl
  exact (List.map_congr_left hid).trans (List.map_id sections)

/-- Sections with plain paths are read back, but for the end of a path that the writer cuts. -/
theorem metaReadSections_metaWriterSections (himage : ∀ sec ∈ sections, sec.type.isImage = true)
    (hexec : ∀ sec ∈ sections.tail, sec.type ≠ .executable) (hne : ∀ sec ∈ sections, sec.path ≠ [])
    (hpath : ∀ sec ∈ sections, Plain sec.path) :
    metaReadSections (metaWriterSections sections).flatten = sections.map PtImageInfo.kept := by
  rw [metaReadSections, fgetsLines_flatten (completeLine_metaWriterSections hpath)]
  cases sections with
  | nil => rfl
  | cons sec sections =>
      have hmem : sec ∈ sec :: sections := List.mem_cons_self
      have htail : ∀ {P : PtImageInfo → Prop}, (∀ s ∈ sec :: sections, P s) → ∀ s ∈ sections, P s :=
        fun h s hs => h s (List.mem_cons_of_mem _ hs)
      have hplain := hpath sec hmem
      have hread := foldl_metaReadLine_sections (htail himage) hexec (htail hne) (htail hpath) [sec.kept]
      unfold metaWriterSections at hread ⊢
      -- The first section may be that of an `exec`: it discards nothing.
      rw [List.map_cons, List.foldl_cons, jsonEscape_path hplain,
        metaReadLine_section (himage sec hmem) (by simpa using hne sec hmem) (hplain.take 1017)
          ((List.length_take_le 1017 sec.path).trans (by omega)), ite_self]
      exact hread

/-! ## Records -/

def BsdtraceRecord.imageSection (rec : BsdtraceRecord) : PtImageInfo where
  path := strlcpy maxPathLen rec.fullpath
  loadAddr := rec.addr
  baseAddr := rec.baseaddr
  type := rec.type

/-- The sections behind a record: an `exec` starts them anew. -/
def sectionsAfter (sections : List PtImageInfo) (rec : BsdtraceRecord) : List PtImageInfo :=
  if rec.givesSection then (if rec.type = .executable then [] else sections) ++ [rec.imageSection] else sections

variable {rec : BsdtraceRecord}

theorem traceStateProcess_metaLines (ts : TraceState) (rec : BsdtraceRecord) :
    (traceStateProcess ts rec).metaLines = ts.metaLines ++ metaWriterRecord rec := by
  unfold traceStateProcess traceStateAddSection traceStateResetSections traceStateBuffer
  simp only [apply_ite TraceState.metaLines, ite_self]

theorem traceStateProcess_sections (ts : TraceState) (rec : BsdtraceRecord) :
    (traceStateProcess ts rec).sections = sectionsAfter ts.sections rec := by
  unfold traceStateProcess traceStateAddSection traceStateResetSections traceStateBuffer sectionsAfter
  simp only [apply_ite TraceState.sections, ite_self]
  cases h : rec.givesSection with
  | false => rfl
  | true =>
      have hne : rec.fullpath ≠ [] := by
        intro hnil
        simp [BsdtraceRecord.givesSection, hnil] at h
      simp [hne, BsdtraceRecord.imageSection]

theorem metaWriterRecord_image (h : rec.type.isImage = true) : metaWriterRecord rec =
    [sectionLine (sectionTypeName rec.type) (jsonEscape maxPathLen rec.fullpath) rec.addr rec.baseaddr] := by
  unfold metaWriterRecord
  cases htype : rec.type with
  | executable | mmap | kernel => rfl
  | _ =>
      rw [htype] at h
      cases h

theorem foldl_metaWriterRecord (hpath : Plain rec.fullpath) (hlen : rec.fullpath.length ≤ 1017)
    (sections : List PtImageInfo) :
    (metaWriterRecord rec).foldl metaReadLine sections = sectionsAfter sections rec := by
  cases himage : rec.type.isImage with
  | true =>
      rw [metaWriterRecord_image himage, jsonEscape_path hpath, List.take_of_length_le hlen]
      by_cases hne : rec.fullpath = []
      · have hgives : rec.givesSection = false := by simp [BsdtraceRecord.givesSection, hne]
        rw [hne, List.foldl_cons, metaReadLine_empty, sectionsAfter, hgives]
        rfl
      · have hgives : rec.givesSection = true := by
          simpa [BsdtraceRecord.givesSection, HwtRecordType.isImage, hne] using himage
        have hcopy : strlcpy maxPathLen rec.fullpath = rec.fullpath :=
          strlcpy_of_lt (Nat.lt_of_le_of_lt hlen (by decide))
        rw [List.foldl_cons, metaReadLine_section himage hne hpath (hlen.trans (by omega)), sectionsAfter, hgives,
          BsdtraceRecord.imageSection, hcopy]
        rfl
  | false =>
      have hgives : rec.givesSection = false := by
        simp only [HwtRecordType.isImage] at himage
        simp only [BsdtraceRecord.givesSection, himage, Bool.false_and]
      rw [sectionsAfter, hgives]
      unfold metaWriterRecord
      cases htype : rec.type with
      | executable | mmap | kernel =>
          rw [htype] at himage
          cases himage
      | threadCreate =>
          have hname : TypeName (cstr "thread_create") := typeName_of_all (by decide) (by decide) (by decide)
          exact metaReadLine_thread hname rec.threadId
      | threadSetName =>
          have hname : TypeName (cstr "thread_set_name") := typeName_of_all (by decide) (by decide) (by decide)
          exact metaReadLine_thread hname rec.threadId
      | _ => rfl

theorem completeLine_record (hpath : Plain rec.fullpath) :
    ∀ line ∈ metaWriterRecord rec, CompleteLine 4096 line := by
  intro line hline
  cases himage : rec.type.isImage with
  | true =>
      rw [metaWriterRecord_image himage, jsonEscape_path hpath] at hline
      obtain rfl := List.mem_singleton.mp hline
      exact completeLine_sectionLine (hpath.take 1017) ((List.length_take_le _ _).trans (by omega)) _ _ _
  | false =>
      unfold metaWriterRecord at hline
      cases htype : rec.type with
      | executable | mmap | kernel =>
          rw [htype] at himage
          cases himage
      | threadCreate | threadSetName =>
          rw [htype] at hline
          obtain rfl := List.mem_singleton.mp hline
          exact completeLine_thread (typeName_of_all (by decide) (by decide) (by decide)) rec.threadId
      | _ =>
          rw [htype] at hline
          cases hline

/-! ## Sidecar and sections -/

/-- The lines of the sidecar are read one by one, and as the sections. -/
structure TraceState.InStep (ts : TraceState) : Prop where
  complete : ∀ line ∈ ts.metaLines, CompleteLine 4096 line
  read : ts.metaLines.foldl metaReadLine [] = ts.sections

theorem TraceState.InStep.file (h : ts.InStep) : metaReadSections ts.metaLines.flatten = ts.sections := by
  rw [metaReadSections, fgetsLines_flatten h.complete, h.read]

theorem foldl_metaReadLine_skip {lines : List CString}
    (h : ∀ line ∈ lines, ∀ sections, metaReadLine sections line = sections) (sections : List PtImageInfo) :
    lines.foldl metaReadLine sections = sections := by
  induction lines with
  | nil => rfl
  | cons line lines ih =>
      rw [List.foldl_cons, h line List.mem_cons_self]
      exact ih fun l hl => h l (List.mem_cons_of_mem _ hl)

theorem TraceState.InStep.process (h : ts.InStep) (hpath : Plain rec.fullpath)
    (hlen : rec.fullpath.length ≤ 1017) : (traceStateProcess ts rec).InStep where
  complete := by
    rw [traceStateProcess_metaLines]
    intro line hline
    rcases List.mem_append.mp hline with hline | hline
    · exact h.complete line hline
    · exact completeLine_record hpath line hline
  read := by
    rw [traceStateProcess_metaLines, List.foldl_append, h.read, foldl_metaWriterRecord hpath hlen,
      traceStateProcess_sections]

theorem inStep_header (pid tid : Int32) (mtcFreq cycThresh : UInt8) :
    TraceState.InStep { metaLines := metaWriterHeader pid tid ++ metaWriterTiming mtcFreq cycThresh } where
  complete := by
    intro line hline
    rcases List.mem_append.mp hline with hline | hline
    · exact (completeLine_header pid tid line hline).mono (by decide)
    · exact (completeLine_timing mtcFreq cycThresh line hline).mono (by decide)
  read := by
    rw [List.foldl_append, foldl_metaReadLine_skip (metaReadLine_header pid tid),
      foldl_metaReadLine_skip (metaReadLine_timing mtcFreq cycThresh)]

/-! ## Seeds -/

theorem foldl_traceStateAddSection (hpath : ∀ sec ∈ sections, sec.path ≠ [] ∧ sec.path.length < maxPathLen)
    (ts : TraceState) :
    sections.foldl (fun ts sec => traceStateAddSection ts sec.path sec.loadAddr sec.baseAddr sec.type) ts =
      { ts with sections := ts.sections ++ sections } := by
  induction sections generalizing ts with
  | nil => simp
  | cons sec sections ih =>
      obtain ⟨hne, hlen⟩ := hpath sec List.mem_cons_self
      rw [List.foldl_cons, traceStateAddSection, if_neg hne, strlcpy_of_lt hlen,
        ih fun s hs => hpath s (List.mem_cons_of_mem _ hs)]
      simp

theorem mem_processExecMmaps {vmmap : List KinfoVmentry} (hplain : ∀ kve ∈ vmmap, Plain kve.path)
    (hlen : ∀ kve ∈ vmmap, kve.path.length ≤ 1017) (h : processExecMmaps (some vmmap) = some sections) :
    ∀ sec ∈ sections, sec.type = .mmap ∧ sec.path ≠ [] ∧ Plain sec.path ∧ sec.path.length ≤ 1017 := by
  intro sec hsec
  obtain rfl := Option.some.inj h
  obtain ⟨kve, hkve, rfl⟩ := List.mem_map.mp hsec
  obtain ⟨hmem, hexec⟩ := List.mem_filter.mp hkve
  have hin := List.takeWhile_subset _ hmem
  have hshort := hlen kve hin
  have hcopy : strlcpy maxPathLen kve.path = kve.path := strlcpy_of_lt (Nat.lt_of_le_of_lt hshort (by decide))
  simp only [KinfoVmentry.execMapping, Bool.and_eq_true, decide_eq_true_eq] at hexec
  exact ⟨rfl, hcopy.symm ▸ hexec.2, hcopy.symm ▸ hplain kve hin, hcopy.symm ▸ hshort⟩

theorem traceStateSeedProcessMmaps_some {entries : List KinfoVmentry}
    (hpath : ∀ kve ∈ entries, Plain kve.path ∧ kve.path.length ≤ 1017) (ts : TraceState) :
    ∃ sections, (∀ sec ∈ sections, sec.type = .mmap ∧ sec.path ≠ [] ∧ Plain sec.path ∧ sec.path.length ≤ 1017) ∧
      traceStateSeedProcessMmaps ts (some entries) =
        { ts with
          metaLines := ts.metaLines ++ metaWriterSections sections
          sections := ts.sections ++ sections } := by
  obtain ⟨sections, hsec⟩ : ∃ sections, processExecMmaps (some entries) = some sections := ⟨_, rfl⟩
  have hprops := mem_processExecMmaps (fun kve hkve => (hpath kve hkve).1) (fun kve hkve => (hpath kve hkve).2) hsec
  refine ⟨sections, hprops, ?_⟩
  unfold traceStateSeedProcessMmaps
  rw [hsec]
  exact foldl_traceStateAddSection (fun sec hs => ⟨(hprops sec hs).2.1,
    Nat.lt_of_le_of_lt (hprops sec hs).2.2.2 (by decide)⟩) _

theorem TraceState.InStep.seed (h : ts.InStep) {entries : List KinfoVmentry}
    (hpath : ∀ kve ∈ entries, Plain kve.path ∧ kve.path.length ≤ 1017) :
    (traceStateSeedProcessMmaps ts (some entries)).InStep := by
  obtain ⟨sections, hprops, heq⟩ := traceStateSeedProcessMmaps_some hpath ts
  have htype : ∀ sec ∈ sections, sec.type.isImage = true ∧ sec.type ≠ .executable := by
    intro sec hs
    rw [(hprops sec hs).1]
    exact ⟨rfl, nofun⟩
  rw [heq]
  refine ⟨fun line hline => ?_, ?_⟩
  · rcases List.mem_append.mp hline with hline | hline
    · exact h.complete line hline
    · exact completeLine_metaWriterSections (fun sec hs => (hprops sec hs).2.2.1) line hline
  · rw [List.foldl_append, h.read, foldl_metaReadLine_sections (fun sec hs => (htype sec hs).1)
      (fun sec hs => (htype sec hs).2) (fun sec hs => (hprops sec hs).2.1)
      (fun sec hs => (hprops sec hs).2.2.1), map_kept fun sec hs => (hprops sec hs).2.2.2]

/-! ## Sessions -/

/-- The paths need no escape and fit the sidecar. -/
structure TraceSession.PlainPaths (s : TraceSession) : Prop where
  seeds : ∀ entries, s.seeds = some (some entries) → ∀ kve ∈ entries, Plain kve.path ∧ kve.path.length ≤ 1016
  records : ∀ rec ∈ s.records, Plain rec.fullpath ∧ rec.fullpath.length ≤ 1016

/-- The main loop starts in step, and without a kernel section. -/
theorem TraceSession.inStep_start {s : TraceSession} (h : s.PlainPaths) :
    s.start.InStep ∧ ∀ sec ∈ s.start.sections, sec.type ≠ .kernel := by
  have hinit := inStep_header s.pid s.tid s.mtcFreq s.cycThresh
  unfold TraceSession.start
  cases hseeds : s.seeds with
  | none => exact ⟨hinit, nofun⟩
  | some vmmap =>
      cases vmmap with
      | none => exact ⟨hinit, nofun⟩
      | some entries =>
          have hpath : ∀ kve ∈ entries, Plain kve.path ∧ kve.path.length ≤ 1017 := by
            intro kve hkve
            obtain ⟨hplain, hlen⟩ := h.seeds entries hseeds kve hkve
            exact ⟨hplain, hlen.trans (by omega)⟩
          refine ⟨hinit.seed hpath, fun sec hsec => ?_⟩
          obtain ⟨sections, hprops, heq⟩ := traceStateSeedProcessMmaps_some hpath _
          simp only at hsec
          rw [heq] at hsec
          rw [(hprops sec hsec).1]
          nofun

theorem TraceState.InStep.records (h : ts.InStep) {records : List BsdtraceRecord}
    (hpath : ∀ rec ∈ records, Plain rec.fullpath ∧ rec.fullpath.length ≤ 1016) :
    (records.foldl traceStateProcess ts).InStep := by
  induction records generalizing ts with
  | nil => exact h
  | cons rec records ih =>
      obtain ⟨hplain, hlen⟩ := hpath rec List.mem_cons_self
      rw [List.foldl_cons]
      exact ih (h.process hplain (hlen.trans (by omega))) fun r hr => hpath r (List.mem_cons_of_mem _ hr)

/-- Up to the end of the last drain, the sidecar and the sections say the same. -/
theorem TraceSession.inStep_drained {s : TraceSession} (h : s.PlainPaths) : s.drained.InStep :=
  (s.inStep_start h).1.records h.records

/-! ## The kernel section -/

/-- A kernel record gives a section that no later `exec` discards. -/
def KernelKept (records : List BsdtraceRecord) : Prop :=
  ∃ pre rec post, records = pre ++ rec :: post ∧ rec.type = .kernel ∧ rec.fullpath ≠ [] ∧
    ∀ later ∈ post, later.type = .executable → later.fullpath = []

theorem kernelKept_concat {records : List BsdtraceRecord} :
    KernelKept (records ++ [rec]) ↔ (rec.type = .kernel ∧ rec.fullpath ≠ []) ∨
      (KernelKept records ∧ (rec.type = .executable → rec.fullpath = [])) := by
  constructor
  · rintro ⟨pre, r, post, heq, hkernel, hne, hlater⟩
    cases post using List.reverseRecOn with
    | nil =>
        obtain ⟨_, hr⟩ := List.append_inj' heq rfl
        cases hr
        exact Or.inl ⟨hkernel, hne⟩
    | append_singleton post last _ =>
        rw [← List.cons_append, ← List.append_assoc] at heq
        obtain ⟨hrecords, hr⟩ := List.append_inj' heq rfl
        cases hr
        exact Or.inr ⟨⟨pre, r, post, hrecords, hkernel, hne, fun later hl => hlater later
          (List.mem_append_left _ hl)⟩, hlater rec (List.mem_append_right _ List.mem_cons_self)⟩
  · rintro (⟨hkernel, hne⟩ | ⟨⟨pre, r, post, rfl, hkernel, hne, hlater⟩, hrec⟩)
    · exact ⟨records, rec, [], rfl, hkernel, hne, nofun⟩
    · refine ⟨pre, r, post ++ [rec], by simp, hkernel, hne, fun later hl => ?_⟩
      rcases List.mem_append.mp hl with hl | hl
      · exact hlater later hl
      · obtain rfl := List.mem_singleton.mp hl
        exact hrec

theorem mem_kernel_sectionsAfter : (∃ sec ∈ sectionsAfter sections rec, sec.type = .kernel) ↔
    (rec.type = .kernel ∧ rec.fullpath ≠ []) ∨
      ((∃ sec ∈ sections, sec.type = .kernel) ∧ (rec.type = .executable → rec.fullpath = [])) := by
  unfold sectionsAfter BsdtraceRecord.givesSection
  by_cases hne : rec.fullpath = []
  · simp [hne]
  · cases htype : rec.type <;> simp [hne, htype, BsdtraceRecord.imageSection]

/-- The sections have a kernel section exactly when the records give one that is kept. -/
theorem mem_kernel_records {records : List BsdtraceRecord} (h : ∀ sec ∈ ts.sections, sec.type ≠ .kernel) :
    (∃ sec ∈ (records.foldl traceStateProcess ts).sections, sec.type = .kernel) ↔ KernelKept records := by
  induction records using List.reverseRecOn with
  | nil =>
      constructor
      · rintro ⟨sec, hsec, hkernel⟩
        exact absurd hkernel (h sec hsec)
      · rintro ⟨pre, r, post, heq, _⟩
        cases pre <;> cases heq
  | append_singleton records rec ih =>
      rw [List.foldl_concat, traceStateProcess_sections, mem_kernel_sectionsAfter, ih, kernelKept_concat]

end ObservableBSD.Trace
