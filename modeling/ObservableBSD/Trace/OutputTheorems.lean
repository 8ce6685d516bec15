import ObservableBSD.Trace.Lemmas.RecordLine
import ObservableBSD.Trace.Lemmas.Snapshot
import ObservableBSD.Trace.Lemmas.Timing

/-!
# Results about what the trace commands leave behind
-/

namespace ObservableBSD.Trace

open Base Elf Decode

/-! ## The snapshot -/

/-- What is expected of the snapshots of a buffer: every extent that is chosen is sound, and a chosen stretch
that is not empty is saved and decoded. -/
structure SoundSnapshots (probe : Probe) (ctx : TraceBuffer) (buf : List UInt8) (file : OutputFile) : Prop where
  extent : ∀ baseLen sections, SoundExtent probe buf baseLen sections (chooseSnapshotLen probe buf baseLen sections)
  saves : ∀ stop ts, 0 < snapshotLen probe ctx buf stop ts → SavesExtent probe ctx buf file stop ts

/-- Every extent is sound; its page number goes through an `int`, so that a stretch is saved as a whole exactly
when it is below 8 TiB. -/
theorem chooseSnapshotLen_sound_and_saves_iff {probe : Probe} {ctx : TraceBuffer}
    {buf : { b : List UInt8 // b.length = ctx.bufsize }} {file : OutputFile} (hmapped : ctx.mapped = some buf)
    (hworks : file.Works) :
    (∀ baseLen sections,
      SoundExtent probe buf.val baseLen sections (chooseSnapshotLen probe buf.val baseLen sections)) ∧
    ∀ stop ts, 0 < snapshotLen probe ctx buf.val stop ts →
      (SavesExtent probe ctx buf.val file stop ts ↔ snapshotLen probe ctx buf.val stop ts < 2 ^ 43) := by
  refine ⟨chooseSnapshotLen_sound probe buf.val, fun stop ts hpos => ?_⟩
  have hle : snapshotLen probe ctx buf.val stop ts ≤ ctx.bufsize :=
    Nat.le_trans (chooseSnapshotLen_sound probe buf.val _ ts.sections).le (Nat.le_of_eq buf.property)
  constructor
  · exact SavesExtent.lt hmapped
  · intro hlt
    have hsaves := hwtCtxSnapshotBuffer_saves hmapped hworks hpos hle hlt
    have hpos' : (0 : Int) < snapshotLen probe ctx buf.val stop ts := Int.natCast_pos.mpr hpos
    simp only [SavesExtent, snapshotAndDecode_of_pos (some file) hmapped hpos, hsaves, hpos', if_true,
      Int.toNat_natCast]

/-- `decode_pt_probe` where the decoder syncs nowhere. -/
private def noProbe : Probe := fun _ sections => decodePtProbeOutcome ⟨sections, [], []⟩ []

/-- A file that takes one byte at a time. -/
private def byteFile : OutputFile where
  write _ _ := some 1
  progress := by
    intro off bytes n hbytes hn
    cases hn
    exact ⟨Nat.one_pos, List.length_pos_iff.mpr hbytes⟩

private def onesBuffer (n : Nat) : TraceBuffer := ⟨n, some ⟨List.replicate n 1, List.length_replicate⟩⟩

theorem onesBuffer_saves : 0 < snapshotLen noProbe (onesBuffer 3) [1, 1, 1] none {} ∧
    SavesExtent noProbe (onesBuffer 3) [1, 1, 1] byteFile none {} :=
  have hpos : 0 < snapshotLen noProbe (onesBuffer 3) [1, 1, 1] none {} := by decide
  have hmapped : (onesBuffer 3).mapped = some ⟨[1, 1, 1], rfl⟩ := rfl
  have hworks : byteFile.Works := by intro off bytes h; cases h
  ⟨hpos, ((chooseSnapshotLen_sound_and_saves_iff hmapped hworks).2 none {} hpos).mpr (by decide)⟩

private theorem snapshotLen_onesBuffer (n : Nat) :
    snapshotLen noProbe (onesBuffer n) (List.replicate n 1) none {} = n := by
  have hpast : PastLastNonzero (List.replicate n 1) n := by
    refine ⟨fun i hi => List.getD_eq_default _ 0 (by rwa [List.length_replicate]), fun m hm => ?_⟩
    by_contra hlt
    have hone := hm m (Nat.le_refl m)
    rw [List.getD_eq_getElem _ 0 (by rw [List.length_replicate]; omega), List.getElem_replicate] at hone
    cases hone
  have hscan := (ptScanLastNonzero_pastLast (List.replicate n 1)).unique hpast
  have hbase : min (knownEnd (onesBuffer n).bufsize none {}) (List.replicate n (1 : UInt8)).length = 0 := Nat.zero_min _
  rw [snapshotLen, chooseSnapshotLen_of_zero noProbe _ (Or.inl hbase), hbase, hscan]
  exact Nat.zero_max n

/-- Of 8 TiB without a zero byte, the page number is negative as an `int`. -/
theorem onesBuffer_not_sound :
    ¬ SoundSnapshots noProbe (onesBuffer (2 ^ 43)) (List.replicate (2 ^ 43) 1) byteFile := by
  intro h
  have hlen := snapshotLen_onesBuffer (2 ^ 43)
  have hmapped : (onesBuffer (2 ^ 43)).mapped = some ⟨List.replicate (2 ^ 43) 1, List.length_replicate⟩ := rfl
  have hlt := SavesExtent.lt hmapped (h.saves none {} (by rw [hlen]; exact Nat.two_pow_pos 43))
  exact Nat.lt_irrefl _ (hlen ▸ hlt)

/-! ## The sidecar -/

/-- The readers take back the header and the timing, whatever the paths behind them and wherever the ends of the
reader's buffer fall in their lines. -/
theorem metaFile_readsBack (pid tid : Int32) (mtcFreq cycThresh : UInt8) (items : List MetaItem) :
    metaReadTid (metaFile pid tid mtcFreq cycThresh items) = tid ∧
    metaReadMtcFreq (metaFile pid tid mtcFreq cycThresh items) = mtcFreq.toUInt32.toInt32 ∧
    metaReadCycThresh (metaFile pid tid mtcFreq cycThresh items) = cycThresh.toUInt32.toInt32 := by
  refine ⟨metaReadTid_metaFile pid tid mtcFreq cycThresh items, ?_, ?_⟩
  · exact metaReadUint_metaFile pid tid items And.left (sscanf_mtcFreq mtcFreq cycThresh)
  · exact metaReadUint_metaFile pid tid items And.right (sscanf_cycThresh mtcFreq cycThresh)

/-! ## The JSON lines -/

/-- What is expected of `json_escape` into a buffer of `dstlen` bytes. -/
structure SoundEscape (dstlen : Nat) (src : CString) : Prop where
  inBuffer : ∀ w ∈ jsonEscapeWrites dstlen src, w.index < dstlen
  ends : ∀ mem, readString (writeAll mem (jsonEscapeWrites dstlen src)) 0 dstlen = some (jsonEscape dstlen src)
  unescapes : ∃ part, part <+: src ∧ StringBody (jsonEscape dstlen src) part
  whole : (escapeBytes src).length + 7 ≤ dstlen → StringBody (jsonEscape dstlen src) src

/-- What is expected of the line of a record, and of the offsets that it is printed at. -/
structure SoundLine (tm : Tm) (rec : BsdtraceRecord) (pid : Int32) (offs : List Nat) (line : CString) : Prop where
  offsets : ∀ off ∈ offs, off < lineSize
  oneLine : ∃ body, line = body ++ [10] ∧ 10 ∉ body
  object : ∃ path, path <+: rec.fullpath ∧
    ((escapeBytes rec.fullpath).length + 7 ≤ maxPathLen * 2 → path = rec.fullpath) ∧
    Json.parse (byteText line) = some (recordObject tm rec pid path)

/-- Escaped text is sound for every buffer, and so is the line of every record. -/
theorem jsonEscape_sound_and_fmtRecordJson (dstlen : Nat) (h : 1 ≤ dstlen) (src : CString) :
    SoundEscape dstlen src ∧ ∀ mem tm rec pid, ∃ offs line, fmtRecordJson mem tm rec pid = some (offs, line) ∧
      SoundLine tm rec pid offs line := by
  have hbody : StringBody (jsonEscape dstlen src) (escapedPart dstlen 0 src) := by
    rw [jsonEscape_eq]
    exact stringBody_escapeBytes _
  constructor
  · constructor
    · exact fun w hw => index_of_mem_jsonEscapeWritesFrom h hw
    · intro mem
      have hnil : HoldsAt mem 0 [] := trivial
      have hholds : HoldsAt (writeAll mem (jsonEscapeWrites dstlen src)) 0 (jsonEscape dstlen src ++ [0]) :=
        holdsAt_jsonEscapeWritesFrom hnil
      have hnul : 0 ∉ jsonEscape dstlen src := fun hmem =>
        absurd ((escaped_jsonEscape dstlen src).printable 0 hmem) (by decide)
      exact readString_of_holdsAt hholds hnul (length_jsonEscape_lt h src)
    · exact ⟨_, escapedPart_initial dstlen 0 src, hbody⟩
    · intro hroom
      rwa [escapedPart_whole (by omega)] at hbody
  · intro mem tm rec pid
    obtain ⟨offs, body, hprint, hoffs, hline, hnewline⟩ := fmtRecordJson_eq mem tm rec pid
    exact ⟨offs, _, hprint, hoffs, ⟨body, hline, hnewline⟩,
      ⟨_, escapedPart_initial _ 0 rec.fullpath, fun hroom => escapedPart_whole (by omega),
        parse_recordPieces tm rec pid⟩⟩

private def epoch : Tm := ⟨0, 0, 0, 1, 0, 70⟩

private def quotedExec : BsdtraceRecord := { type := .executable, fullpath := cstr "/tmp/a\"b", addr := 0x400000 }

theorem quotedExec_sound : SoundEscape 10 (cstr "a\"b") ∧
    ∃ offs line, fmtRecordJson (fun _ => 0) epoch quotedExec 7 = some (offs, line) ∧
      SoundLine epoch quotedExec 7 offs line := by
  obtain ⟨hescape, hline⟩ := jsonEscape_sound_and_fmtRecordJson 10 (by decide) (cstr "a\"b")
  exact ⟨hescape, hline _ _ _ _⟩

/-- Not even the last byte is written in the last 7 bytes of the buffer. -/
example : jsonEscape 10 (cstr "a\"b") = cstr "a\\\"" := by decide

end ObservableBSD.Trace
