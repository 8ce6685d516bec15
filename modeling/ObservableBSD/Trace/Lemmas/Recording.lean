import ObservableBSD.Base.Decimal
import ObservableBSD.Trace.Finalize
import ObservableBSD.Trace.Lemmas.Disk

/-!
# Paths of the saved buffers

The buffer of the primary thread, those of the additional threads, and the sidecar of each: no two of these
files of a session are the same.
-/

namespace ObservableBSD.Trace.Session

open Base Decode Elf

/-- The file of a thread's buffer; `none` is the primary thread. -/
def savedPath (out : CString) : Option Int32 → CString
  | none => out
  | some threadId => threadPath out threadId

/-- The longest thread id and the suffix of a sidecar still fit the path. -/
def Roomy (out : CString) : Prop := (ptStem out).length + 20 < maxPathLen

theorem ptStem_append (out : CString) : ∃ tail, (tail = [] ∨ tail = cstr ".pt") ∧ out = ptStem out ++ tail := by
  unfold ptStem
  split
  · rename_i h
    exact ⟨out.drop (out.length - 3), .inr h.2, (List.take_append_drop ..).symm⟩
  · exact ⟨[], .inl rfl, (List.append_nil out).symm⟩

theorem ptStem_pt {s : CString} (h : s ≠ []) : ptStem (s ++ cstr ".pt") = s := by
  have hlen : (s ++ cstr ".pt").length - 3 = s.length := by simp [cstr]
  have hpos : 0 < s.length := List.length_pos_iff.mpr h
  have hcond : 3 < (s ++ cstr ".pt").length ∧ (s ++ cstr ".pt").drop ((s ++ cstr ".pt").length - 3) = cstr ".pt" := by
    rw [hlen, List.drop_left]
    exact ⟨by simpa [cstr] using hpos, rfl⟩
  rw [ptStem, if_pos hcond, hlen, List.take_left]

/-- What the path of a thread has behind the stem of the output. -/
def threadInfix (threadId : Int32) : CString := cstr "-tid" ++ intNumeral threadId.toInt

theorem length_threadInfix (threadId : Int32) : (threadInfix threadId).length ≤ 15 := by
  have hnum := (fits_int32 threadId).short
  have hkey : (cstr "-tid").length = 4 := rfl
  rw [threadInfix, List.length_append]
  omega

variable {out : CString}

theorem threadPath_eq (h : Roomy out) (threadId : Int32) :
    threadPath out threadId = ptStem out ++ (threadInfix threadId ++ cstr ".pt") := by
  have hinfix := length_threadInfix threadId
  have hpt : (cstr ".pt").length = 3 := rfl
  unfold Roomy at h
  rw [threadPath, threadInfix, ← List.append_assoc (cstr "-tid")]
  refine strlcpy_of_lt ?_
  rw [← threadInfix, List.length_append, List.length_append]
  omega

theorem deriveMetaPath_savedPath (h : Roomy out) (k : Option Int32) :
    deriveMetaPath (savedPath out k) = ptStem out ++ ((k.map threadInfix).getD [] ++ cstr ".meta") := by
  have hmeta : (cstr ".meta").length = 5 := rfl
  unfold Roomy at h
  cases k with
  | none =>
      refine strlcpy_of_lt ?_
      change (ptStem out ++ cstr ".meta").length < maxPathLen
      rw [List.length_append]
      omega
  | some threadId =>
      have hinfix := length_threadInfix threadId
      have hne : ptStem out ++ threadInfix threadId ≠ [] := by simp [threadInfix, cstr]
      have hstem : ptStem (savedPath out (some threadId)) = ptStem out ++ threadInfix threadId := by
        rw [savedPath, threadPath_eq h, ← List.append_assoc, ptStem_pt hne]
      rw [deriveMetaPath, hstem, List.append_assoc]
      refine strlcpy_of_lt ?_
      rw [List.length_append, List.length_append]
      omega

theorem threadInfix_inj {t t' : Int32} {rest : CString} (hrest : rest.head? = some 46)
    (h : threadInfix t ++ rest = threadInfix t' ++ rest) : t = t' := by
  have hdot : isDigit 10 46 = false := by decide
  rw [threadInfix, threadInfix, List.append_assoc, List.append_assoc] at h
  have hscan := congrArg scanInt (List.append_cancel_left h)
  rw [scanInt_intNumeral t hrest hdot, scanInt_intNumeral t' hrest hdot] at hscan
  exact (Prod.mk.inj (Option.some.inj hscan)).1

/-- No two buffers are saved to one file. -/
theorem savedPath_inj (h : Roomy out) {k k' : Option Int32} (heq : savedPath out k = savedPath out k') : k = k' := by
  obtain ⟨tail, htail, hout⟩ := ptStem_append out
  have hne : ∀ t : Int32, out ≠ ptStem out ++ (threadInfix t ++ cstr ".pt") := by
    intro t ht
    have hsuffix := List.append_cancel_left (hout.symm.trans ht)
    rcases htail with rfl | rfl <;> simp [threadInfix, cstr] at hsuffix
  cases k with
  | none =>
      cases k' with
      | none => rfl
      | some t => exact absurd (heq.trans (threadPath_eq h t)) (hne t)
  | some t =>
      cases k' with
      | none => exact absurd (heq.symm.trans (threadPath_eq h t)) (hne t)
      | some t' =>
          have hthread := (threadPath_eq h t).symm.trans (heq.trans (threadPath_eq h t'))
          exact congrArg some (threadInfix_inj rfl (List.append_cancel_left hthread))

/-- No two buffers have one sidecar. -/
theorem deriveMetaPath_savedPath_inj (h : Roomy out) {k k' : Option Int32}
    (heq : deriveMetaPath (savedPath out k) = deriveMetaPath (savedPath out k')) : k = k' := by
  rw [deriveMetaPath_savedPath h, deriveMetaPath_savedPath h] at heq
  have hsuffix := List.append_cancel_left heq
  cases k with
  | none =>
      cases k' with
      | none => rfl
      | some t => simp [threadInfix, cstr] at hsuffix
  | some t =>
      cases k' with
      | none => simp [threadInfix, cstr] at hsuffix
      | some t' => exact congrArg some (threadInfix_inj rfl hsuffix)

/-- No sidecar is the file of a buffer. -/
theorem deriveMetaPath_ne_savedPath (h : Roomy out) (k k' : Option Int32) :
    deriveMetaPath (savedPath out k) ≠ savedPath out k' := by
  intro heq
  rw [deriveMetaPath_savedPath h] at heq
  have hlast : ∀ s t : CString, s ++ cstr ".meta" ≠ t ++ cstr ".pt" := by
    intro s t hst
    have hend := congrArg List.getLast? hst
    simp [cstr] at hend
  cases k' with
  | none =>
      obtain ⟨tail, htail, hout⟩ := ptStem_append out
      have hsuffix := List.append_cancel_left (heq.trans hout)
      rcases htail with rfl | rfl
      · simp [cstr] at hsuffix
      · exact hlast _ [] hsuffix
  | some t =>
      rw [savedPath, threadPath_eq h] at heq
      exact hlast _ _ (List.append_cancel_left heq)

/-!
## The sidecar while it is written

From its first line to the stop, the sidecar of a session holds the sections of the trace state and the
settings of the context.
-/

variable {mem : Nat → UInt8} {d : Disk} {ctx ctx' : HwtCtx} {ts : TraceState} {tid : Int32}

/-! ## Sections -/

/-- The sidecar keeps the sections as they are: each can be written, and no `exec` discards an earlier one. -/
structure KeptSections (sections : List PtImageInfo) : Prop where
  each : ∀ sec ∈ sections, sec.type.isImage = true ∧ sec.path ≠ [] ∧ KeptPath sec.path
  exec : ∀ sec ∈ sections.tail, sec.type ≠ .executable

theorem KeptPath.strlcpy {path : CString} (h : KeptPath path) : strlcpy maxPathLen path = path :=
  strlcpy_of_lt (Nat.lt_of_le_of_lt h.2 (by decide))

theorem KeptSections.append {sections more : List PtImageInfo} (h : KeptSections sections)
    (hmore : ∀ sec ∈ more, sec.type.isImage = true ∧ sec.path ≠ [] ∧ KeptPath sec.path)
    (hexec : ∀ sec ∈ more, sec.type ≠ .executable) : KeptSections (sections ++ more) where
  each sec hsec := (List.mem_append.mp hsec).elim (h.each sec) (hmore sec)
  exec sec hsec := by
    cases sections with
    | nil => exact hexec sec (List.mem_of_mem_tail hsec)
    | cons first sections => exact (List.mem_append.mp hsec).elim (h.exec sec) (hexec sec)

theorem keptSections_after {sections : List PtImageInfo} {rec : BsdtraceRecord} (h : KeptSections sections)
    (hpath : KeptPath rec.fullpath) : KeptSections (sectionsAfter sections rec) := by
  unfold sectionsAfter
  split
  · rename_i hgives
    have hgives' : (rec.type = .executable ∨ rec.type = .mmap ∨ rec.type = .kernel) ∧ rec.fullpath ≠ [] := by
      simpa [BsdtraceRecord.givesSection, or_assoc] using hgives
    have himage : rec.type.isImage = true := by rcases hgives'.1 with h | h | h <;> rw [h] <;> rfl
    have hkept : rec.imageSection.path = rec.fullpath := hpath.strlcpy
    have heach : ∀ sec ∈ [rec.imageSection], sec.type.isImage = true ∧ sec.path ≠ [] ∧ KeptPath sec.path := by
      intro sec hsec
      obtain rfl := List.mem_singleton.mp hsec
      rw [hkept]
      exact ⟨himage, hgives'.2, hpath⟩
    split
    · exact ⟨heach, fun _ hsec => (List.not_mem_nil hsec).elim⟩
    · rename_i hexec
      refine h.append heach fun sec hsec => ?_
      obtain rfl := List.mem_singleton.mp hsec
      exact hexec
  · exact h

/-- The lines of the sidecar are those of a session with the settings of the context, they read as the sections,
and the threads of the context are different ones. -/
structure Recorded (tid : Int32) (ctx : HwtCtx) (ts : TraceState) : Prop where
  tid_eq : ctx.tid = tid
  inStep : ts.InStep
  lines : ∃ (pid : Int32) (items : List MetaItem), ts.metaLines = metaWriterHeader pid tid ++
    (metaWriterTiming ctx.mtcFreq.toUInt8 ctx.cycThresh.toUInt8 ++ items.flatMap MetaItem.lines)
  sections : KeptSections ts.sections
  threads : (ctx.threads.map (·.threadId)).Nodup

theorem Recorded.congr (h : Recorded tid ctx ts) (htid : ctx'.tid = ctx.tid) (hmtc : ctx'.mtcFreq = ctx.mtcFreq)
    (hcyc : ctx'.cycThresh = ctx.cycThresh) (hthreads : (ctx'.threads.map (·.threadId)).Nodup) : Recorded tid ctx' ts where
  tid_eq := htid.trans h.tid_eq
  inStep := h.inStep
  lines := by
    rw [hmtc, hcyc]
    exact h.lines
  sections := h.sections
  threads := hthreads

theorem Recorded.process (h : Recorded tid ctx ts) {rec : BsdtraceRecord} (hpath : KeptPath rec.fullpath) :
    Recorded tid ctx (Trace.traceStateProcess ts rec) where
  tid_eq := h.tid_eq
  inStep := h.inStep.process hpath.1 hpath.2
  lines := by
    obtain ⟨pid, items, hlines⟩ := h.lines
    refine ⟨pid, items ++ [.record rec], ?_⟩
    rw [traceStateProcess_metaLines, hlines]
    simp [MetaItem.lines]
  sections := by
    rw [traceStateProcess_sections]
    exact keptSections_after h.sections hpath
  threads := h.threads

theorem Recorded.seed (h : Recorded tid ctx ts) {vmmap : Option (List KinfoVmentry)}
    (hpaths : ∀ entries, vmmap = some entries → ∀ kve ∈ entries, KeptPath kve.path) :
    Recorded tid ctx (traceStateSeedProcessMmaps ts vmmap) := by
  cases vmmap with
  | none => exact h
  | some entries =>
      have hentries := hpaths entries rfl
      obtain ⟨pid, items, hlines⟩ := h.lines
      obtain ⟨sections, hprops, heq⟩ := traceStateSeedProcessMmaps_some hentries ts
      have hseeded := h.inStep.seed hentries
      rw [heq] at hseeded ⊢
      refine ⟨h.tid_eq, hseeded, ⟨pid, items ++ [.sections sections], ?_⟩, ?_, h.threads⟩
      · simp [hlines, MetaItem.lines]
      · refine h.sections.append (fun sec hsec => ?_) fun sec hsec => ?_
        all_goals obtain ⟨htype, hne, hplain, hlen⟩ := hprops sec hsec; rw [htype]
        · exact ⟨rfl, hne, hplain, hlen⟩
        · decide

/-! ## The file -/

/-- What holds until the stop: the sidecar of `out` is open and holds the lines so far. -/
structure Recording (out : CString) (tid : Int32) (file : Option Nat) (ctx : HwtCtx) (ts : TraceState) (d : Disk) : Prop where
  recorded : Recorded tid ctx ts
  stream : ∃ f, file = some f ∧ d.streams f = some (deriveMetaPath out)
  written : d.files (deriveMetaPath out) = some ts.metaLines.flatten
  decoded : d.decoded = []

variable {out : CString} {file : Option Nat}

/-- More lines for the sidecar, and the state that goes with them. -/
theorem Recording.write (h : Recording out tid file ctx ts d) {ts' : TraceState} (lines : List CString)
    (hlines : ts'.metaLines = ts.metaLines ++ lines) (hrecorded : Recorded tid ctx ts') :
    (disk mem).Safe d (metaWrite file lines) fun _ d' => Recording out tid file ctx ts' d' := by
  obtain ⟨f, rfl, hstream⟩ := h.stream
  refine (metaWrite_disk lines hstream h.written).mono fun _ d' hd' => ?_
  subst hd'
  refine ⟨hrecorded, ⟨f, rfl, hstream⟩, ?_, h.decoded⟩
  rw [hlines, List.flatten_append, Disk.put_files]

end ObservableBSD.Trace.Session
