import Mathlib.Data.List.Induction
import ObservableBSD.Trace.Drain

/-!
# Positions of the trace buffers

The state keeps one position and one highest page for all buffers together.
-/

namespace ObservableBSD.Trace

def bufferRecords (recs : List BsdtraceRecord) : List BsdtraceRecord := recs.filter (·.type = .buffer)

def bufferOf (bufId : Int) (recs : List BsdtraceRecord) : List BsdtraceRecord :=
  (bufferRecords recs).filter (·.bufId = bufId)

/-- No page index lies below that of an earlier record. -/
def PagesAscend (recs : List BsdtraceRecord) : Prop := recs.Pairwise fun a b => a.curpage ≤ b.curpage

instance (recs : List BsdtraceRecord) : Decidable (PagesAscend recs) :=
  inferInstanceAs (Decidable (recs.Pairwise _))

/-- The page and the offset of the last record; the initial ones when there is none. -/
def lastPosition (recs : List BsdtraceRecord) : Int × UInt64 :=
  match recs.getLast? with
  | none => (-1, 0)
  | some rec => (rec.curpage, rec.offset)

/-- What the buffer fields say about the BUFFER records so far. -/
structure TracksBuffers (ts : TraceState) (bufs : List BsdtraceRecord) : Prop where
  position : (ts.lastBufPage, ts.lastBufOffset) = lastPosition bufs
  below : ∀ rec ∈ bufs, rec.curpage ≤ ts.maxBufPage
  reached : ts.maxBufPage = -1 ∨ ∃ rec ∈ bufs, rec.curpage = ts.maxBufPage
  low : -1 ≤ ts.maxBufPage
  wrapped : ts.bufWrapped = false ↔ bufs.Pairwise fun a b => 0 ≤ a.curpage → a.curpage ≤ b.curpage

/-- The fields that BUFFER records change. -/
def SameBuffer (ts ts' : TraceState) : Prop :=
  ts'.lastBufPage = ts.lastBufPage ∧ ts'.lastBufOffset = ts.lastBufOffset ∧ ts'.maxBufPage = ts.maxBufPage ∧
    ts'.bufWrapped = ts.bufWrapped

theorem TracksBuffers.congr {ts ts' : TraceState} {bufs : List BsdtraceRecord} (h : TracksBuffers ts bufs)
    (hsame : SameBuffer ts ts') : TracksBuffers ts' bufs := by
  obtain ⟨hpage, hoffset, hmax, hwrapped⟩ := hsame
  constructor
  · rw [hpage, hoffset]; exact h.position
  · rw [hmax]; exact h.below
  · rw [hmax]; exact h.reached
  · rw [hmax]; exact h.low
  · rw [hwrapped]; exact h.wrapped

theorem traceStateAddSection_sameBuffer (ts : TraceState) (path : Base.CString) (loadAddr baseAddr : UInt64)
    (type : HwtRecordType) : SameBuffer ts (traceStateAddSection ts path loadAddr baseAddr type) := by
  unfold traceStateAddSection
  split <;> exact ⟨rfl, rfl, rfl, rfl⟩

/-- One record: the buffer fields follow BUFFER records, and no other. -/
theorem traceStateProcess_sameBuffer (ts : TraceState) (rec : BsdtraceRecord) :
    SameBuffer (if rec.type = .buffer then traceStateBuffer ts rec else ts) (traceStateProcess ts rec) := by
  unfold traceStateProcess
  by_cases hbuffer : rec.type = .buffer
  · have hsection : rec.givesSection = false := by simp [BsdtraceRecord.givesSection, hbuffer]
    have hoverflow : rec.type ≠ .overflow := by rw [hbuffer]; nofun
    simp only [hbuffer, hsection, if_true, if_false, Bool.false_eq_true, reduceCtorEq]
    exact ⟨rfl, rfl, rfl, rfl⟩
  · simp only [hbuffer, if_false]
    split
    · obtain ⟨hpage, hoffset, hmax, hwrapped⟩ := traceStateAddSection_sameBuffer
        (if rec.type = .executable then traceStateResetSections _ else _) rec.fullpath rec.addr rec.baseaddr
        rec.type
      refine ⟨hpage.trans ?_, hoffset.trans ?_, hmax.trans ?_, hwrapped.trans ?_⟩ <;>
        (split <;> split <;> rfl)
    · split <;> exact ⟨rfl, rfl, rfl, rfl⟩

theorem TracksBuffers.buffer {ts : TraceState} {bufs : List BsdtraceRecord} (h : TracksBuffers ts bufs)
    (rec : BsdtraceRecord) : TracksBuffers (traceStateBuffer ts rec) (bufs ++ [rec]) where
  position := by rw [lastPosition, List.getLast?_concat]; rfl
  below := by
    have hmax : ts.maxBufPage ≤ (traceStateBuffer ts rec).maxBufPage ∧
        rec.curpage ≤ (traceStateBuffer ts rec).maxBufPage := by
      simp only [traceStateBuffer]; split <;> omega
    intro a ha
    rcases List.mem_append.mp ha with ha | ha
    · exact Int.le_trans (h.below a ha) hmax.1
    · rw [List.mem_singleton.mp ha]; exact hmax.2
  reached := by
    simp only [traceStateBuffer]
    split
    · exact Or.inr ⟨rec, by simp, rfl⟩
    · rcases h.reached with hmax | ⟨a, ha, hmax⟩
      · exact Or.inl hmax
      · exact Or.inr ⟨a, List.mem_append_left _ ha, hmax⟩
  low := by
    have hlow := h.low
    simp only [traceStateBuffer]; split <;> omega
  wrapped := by
    have hall : (∀ a ∈ bufs, ∀ b ∈ [rec], 0 ≤ a.curpage → a.curpage ≤ b.curpage) ↔
        ¬ (0 ≤ ts.maxBufPage ∧ rec.curpage < ts.maxBufPage) := by
      constructor
      · rintro hle ⟨hpos, hlt⟩
        rcases h.reached with hmax | ⟨a, ha, hmax⟩
        · omega
        · have := hle a ha rec (by simp) (by omega)
          omega
      · intro hno a ha b hb hpos
        rw [List.mem_singleton.mp hb]
        have := h.below a ha
        omega
    rw [List.pairwise_append, hall]
    simp only [traceStateBuffer, Bool.or_eq_false_iff, h.wrapped, List.pairwise_singleton, true_and]
    simp only [Bool.and_eq_false_iff, decide_eq_false_iff_not, not_and_or]

theorem bufferRecords_concat (recs : List BsdtraceRecord) (rec : BsdtraceRecord) :
    bufferRecords (recs ++ [rec]) =
      if rec.type = .buffer then bufferRecords recs ++ [rec] else bufferRecords recs := by
  by_cases h : rec.type = .buffer <;> simp [bufferRecords, List.filter_append, h]

/-- Over a run of records, from a state without BUFFER records. -/
theorem tracksBuffers_run {ts : TraceState} (h : TracksBuffers ts []) (recs : List BsdtraceRecord) :
    TracksBuffers (recs.foldl traceStateProcess ts) (bufferRecords recs) := by
  induction recs using List.reverseRecOn with
  | nil => exact h
  | append_singleton recs rec ih =>
      rw [List.foldl_concat, bufferRecords_concat]
      have hsame := traceStateProcess_sameBuffer (recs.foldl traceStateProcess ts) rec
      split at hsame
      · rename_i hbuffer
        rw [if_pos hbuffer]
        exact (ih.buffer rec).congr hsame
      · rename_i hbuffer
        rw [if_neg hbuffer]
        exact ih.congr hsame

theorem tracksBuffers_seeds (sections : List PtImageInfo) : ∀ ts : TraceState, TracksBuffers ts [] →
    TracksBuffers (sections.foldl
      (fun ts sec => traceStateAddSection ts sec.path sec.loadAddr sec.baseAddr sec.type) ts) [] := by
  induction sections with
  | nil => intro ts h; exact h
  | cons sec sections ih =>
      intro ts h
      exact ih _ (h.congr (traceStateAddSection_sameBuffer ..))

theorem tracksBuffers_start (s : TraceSession) : TracksBuffers s.start [] := by
  have hinit : ∀ ts : TraceState, ts.lastBufPage = -1 → ts.maxBufPage = -1 → ts.lastBufOffset = 0 →
      ts.bufWrapped = false → TracksBuffers ts [] := by
    intro ts hpage hmax hoffset hwrapped
    constructor
    · rw [hpage, hoffset]; rfl
    · nofun
    · exact Or.inl hmax
    · omega
    · simp [hwrapped]
  unfold TraceSession.start traceStateSeedProcessMmaps
  cases s.seeds with
  | none => exact hinit _ rfl rfl rfl rfl
  | some vmmap =>
      simp only
      cases Elf.processExecMmaps vmmap with
      | none => exact hinit _ rfl rfl rfl rfl
      | some sections => exact tracksBuffers_seeds sections _ (hinit _ rfl rfl rfl rfl)

end ObservableBSD.Trace
