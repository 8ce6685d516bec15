import Mathlib.Data.List.GetD
import Mathlib.Data.Prod.Lex
import Mathlib.Order.Bounds.Basic
import ObservableBSD.Decode.Lemmas.Insn
import ObservableBSD.Trace.Snapshot

/-!
# The extent of a snapshot

The extent lies at one of two candidates, and its probe is the better one of the two. A length below
8 TiB survives the way through a page and an offset.
-/

namespace ObservableBSD.Trace

open Base Elf Decode

/-! ## Probes -/

/-- The outcome of `decode_pt_probe` on a stretch of the buffer. -/
def decodePtProbeOutcome (env : ProbeEnv) (trace : List PtSegment) : ProbeOutcome where
  rc := decodePtProbe env trace
  result := (decodePtProbeLoop env trace).2
  failed := by
    intro hrc
    obtain ⟨htotal, hhits⟩ := decodePtProbeLoop_counts env trace
    have hzero : (decodePtProbeLoop env trace).2.total = 0 := by
      by_contra hne
      exact hrc (if_pos (Nat.pos_of_ne_zero hne))
    have hnone : (decodePtProbeLoop env trace).2.execHits = 0 := by
      rw [hzero] at htotal
      rw [hhits, List.eq_nil_of_length_eq_zero htotal.symm, List.countP_nil]
    calc (decodePtProbeLoop env trace).2
        = ⟨(decodePtProbeLoop env trace).2.total, (decodePtProbeLoop env trace).2.execHits⟩ := rfl
      _ = {} := by rw [hzero, hnone]

/-- The probe results in their order: first by the hits in the executable, then by all instructions. -/
def probeRank (r : DecodeProbeResult) : Nat ×ₗ Nat := toLex (r.execHits, r.total)

theorem probeResultBetter_iff (a b : DecodeProbeResult) :
    probeResultBetter a b = true ↔ probeRank b < probeRank a := by
  rw [probeRank, probeRank, Prod.Lex.toLex_lt_toLex]
  unfold probeResultBetter
  by_cases h : a.execHits = b.execHits
  · simp [h]
  · have hne : b.execHits ≠ a.execHits := fun he => h he.symm
    simp [h, hne]

/-- Nothing ranks below what a failed probe leaves. -/
theorem probeRank_of_failed {p : ProbeOutcome} (h : p.rc ≠ 0) (r : DecodeProbeResult) :
    probeRank p.result ≤ probeRank r := by
  rw [p.failed h]
  exact Prod.Lex.toLex_le_toLex.mpr ((Nat.eq_zero_or_pos r.execHits).elim
    (fun h0 => Or.inr ⟨h0.symm, Nat.zero_le _⟩) Or.inl)

/-! ## The scan -/

/-- The position just past the last non-zero byte: the least one with nothing but zeros behind it. -/
def PastLastNonzero (buf : List UInt8) (n : Nat) : Prop := IsLeast { m | ∀ i, m ≤ i → buf.getD i 0 = 0 } n

theorem PastLastNonzero.unique {buf : List UInt8} {m n : Nat} (hm : PastLastNonzero buf m)
    (hn : PastLastNonzero buf n) : m = n := IsLeast.unique hm hn

theorem ptScanLastNonzero_le (buf : List UInt8) (len : Nat) : ptScanLastNonzero buf len ≤ len := by
  induction len with
  | zero => exact Nat.le_refl _
  | succ len ih =>
      rw [ptScanLastNonzero]
      split
      · exact Nat.le_succ_of_le ih
      · exact Nat.le_refl _

/-- The scan from a position that only zeros follow. -/
theorem ptScanLastNonzero_past {buf : List UInt8} {len : Nat} (h : ∀ i, len ≤ i → buf.getD i 0 = 0) :
    PastLastNonzero buf (ptScanLastNonzero buf len) := by
  induction len with
  | zero => exact ⟨h, fun m _ => Nat.zero_le m⟩
  | succ len ih =>
      rw [ptScanLastNonzero]
      split
      · rename_i hzero
        refine ih fun i hi => ?_
        rcases Nat.eq_or_lt_of_le hi with rfl | hlt
        · exact hzero
        · exact h i hlt
      · rename_i hne
        refine ⟨h, fun m hm => ?_⟩
        by_contra hlt
        exact hne (hm len (by omega))

theorem ptScanLastNonzero_pastLast (buf : List UInt8) :
    PastLastNonzero buf (ptScanLastNonzero buf buf.length) :=
  ptScanLastNonzero_past fun _ hi => List.getD_eq_default buf 0 hi

/-! ## The choice -/

/-- What is expected of an extent of the buffer: it is one of the two candidates, and empty only when there is
nothing to choose from; of two probed candidates it is not the worse one. -/
structure SoundExtent (probe : Probe) (buf : List UInt8) (baseLen : Nat) (sections : List PtImageInfo)
    (len : Nat) : Prop where
  le : len ≤ buf.length
  candidate : len = min baseLen buf.length ∨ PastLastNonzero buf len
  empty : len = 0 → buf.length = 0 ∨ (min baseLen buf.length = 0 ∧ PastLastNonzero buf 0)
  best : sections ≠ [] → pageBytes ≤ min baseLen buf.length → ¬ PastLastNonzero buf 0 →
    ∀ other, other = min baseLen buf.length ∨ PastLastNonzero buf other →
      ¬ probeRank (probe (buf.take len) sections).result < probeRank (probe (buf.take other) sections).result

theorem chooseCandidate_eq (probe : Probe) (buf : List UInt8) (baseLen scanEnd : Nat) (sections : List PtImageInfo) :
    chooseCandidate probe buf baseLen scanEnd sections = baseLen ∨
      chooseCandidate probe buf baseLen scanEnd sections = scanEnd := by
  unfold chooseCandidate
  dsimp only
  split_ifs <;> simp

/-- The candidate that is chosen by its probe is not the worse one. -/
theorem chooseCandidate_best (probe : Probe) (buf : List UInt8) {baseLen scanEnd : Nat}
    {sections : List PtImageInfo} (hsections : sections ≠ []) {other : Nat}
    (hother : other = baseLen ∨ other = scanEnd) :
    probeRank (probe (buf.take other) sections).result ≤
      probeRank (probe (buf.take (chooseCandidate probe buf baseLen scanEnd sections)) sections).result := by
  have hpos : 0 < sections.length := List.length_pos_iff.mpr hsections
  simp only [chooseCandidate, hpos, if_true]
  split
  · rename_i h
    -- the scan is chosen, as its probe works
    rcases hother with rfl | rfl
    · rcases h.2 with hfail | hbetter
      · exact probeRank_of_failed hfail _
      · exact le_of_lt ((probeResultBetter_iff _ _).mp hbetter)
    · exact le_rfl
  · rename_i h
    split
    · rename_i hboth
      rcases hother with rfl | rfl
      · exact probeRank_of_failed hboth.1 _
      · exact le_rfl
    · rcases hother with rfl | rfl
      · exact le_rfl
      · by_cases hscan : (probe (buf.take other) sections).rc = 0
        · refine le_of_not_gt fun hlt => h ⟨hscan, Or.inr ?_⟩
          exact (probeResultBetter_iff _ _).mpr hlt
        · exact probeRank_of_failed hscan _

theorem ite_lt_eq_min (m n : Nat) : (if n < m then n else m) = min m n := by
  rw [Nat.min_def]
  split <;> split <;> omega

theorem chooseSnapshotLen_of_pos (probe : Probe) {buf : List UInt8} {baseLen : Nat} (sections : List PtImageInfo)
    (hbase : 0 < min baseLen buf.length) (hscan : 0 < ptScanLastNonzero buf buf.length) :
    chooseSnapshotLen probe buf baseLen sections =
      let base := min baseLen buf.length
      let scanEnd := ptScanLastNonzero buf buf.length
      let chosen := chooseCandidate probe buf base scanEnd sections
      if scanEnd = base then base
      else if chosen = base ∧ base < pageBytes ∧ base < scanEnd then scanEnd else chosen := by
  have hbuf : buf.length ≠ 0 := by omega
  have hbase' : min baseLen buf.length ≠ 0 := Nat.ne_of_gt hbase
  have hscan' : ptScanLastNonzero buf buf.length ≠ 0 := Nat.ne_of_gt hscan
  simp only [chooseSnapshotLen, ite_lt_eq_min, hbuf, hbase', hscan', if_false, false_or]

theorem chooseSnapshotLen_of_zero (probe : Probe) {buf : List UInt8} {baseLen : Nat} (sections : List PtImageInfo)
    (h : min baseLen buf.length = 0 ∨ ptScanLastNonzero buf buf.length = 0) :
    chooseSnapshotLen probe buf baseLen sections =
      max (min baseLen buf.length) (ptScanLastNonzero buf buf.length) := by
  have hle := ptScanLastNonzero_le buf buf.length
  unfold chooseSnapshotLen
  rw [ite_lt_eq_min]
  by_cases hbuf : buf.length = 0
  · rw [if_pos hbuf]
    omega
  · rw [if_neg hbuf]
    by_cases hbase : min baseLen buf.length = 0
    · simp [hbase]
    · have hscan : ptScanLastNonzero buf buf.length = 0 := h.resolve_left hbase
      simp [hbase, hscan]

theorem chooseSnapshotLen_eq (probe : Probe) (buf : List UInt8) (baseLen : Nat) (sections : List PtImageInfo) :
    chooseSnapshotLen probe buf baseLen sections = min baseLen buf.length ∨
      chooseSnapshotLen probe buf baseLen sections = ptScanLastNonzero buf buf.length := by
  by_cases h : min baseLen buf.length = 0 ∨ ptScanLastNonzero buf buf.length = 0
  · rw [chooseSnapshotLen_of_zero probe sections h]
    exact max_choice _ _
  · rw [not_or] at h
    rw [chooseSnapshotLen_of_pos probe sections (Nat.pos_of_ne_zero h.1) (Nat.pos_of_ne_zero h.2)]
    dsimp only
    split
    · exact Or.inl rfl
    · split
      · exact Or.inr rfl
      · exact chooseCandidate_eq ..

theorem chooseSnapshotLen_sound (probe : Probe) (buf : List UInt8) (baseLen : Nat) (sections : List PtImageInfo) :
    SoundExtent probe buf baseLen sections (chooseSnapshotLen probe buf baseLen sections) := by
  have hpast := ptScanLastNonzero_pastLast buf
  have hle := ptScanLastNonzero_le buf buf.length
  have heq := chooseSnapshotLen_eq probe buf baseLen sections
  constructor
  · rcases heq with h | h
    · exact h ▸ Nat.min_le_right _ _
    · exact h ▸ hle
  · rcases heq with h | h
    · exact Or.inl h
    · exact Or.inr (h ▸ hpast)
  · intro hzero
    have hone : min baseLen buf.length = 0 ∨ ptScanLastNonzero buf buf.length = 0 :=
      heq.imp (fun h => h.symm.trans hzero) fun h => h.symm.trans hzero
    rw [chooseSnapshotLen_of_zero probe sections hone] at hzero
    obtain ⟨hbase, hscan⟩ : min baseLen buf.length = 0 ∧ ptScanLastNonzero buf buf.length = 0 := by omega
    exact Or.inr ⟨hbase, hscan ▸ hpast⟩
  · intro hsections hpage hnone other hother
    have hbase : 0 < min baseLen buf.length := Nat.lt_of_lt_of_le (by decide) hpage
    have hscan : 0 < ptScanLastNonzero buf buf.length :=
      Nat.pos_of_ne_zero fun h => hnone (h ▸ hpast)
    have hother' : other = min baseLen buf.length ∨ other = ptScanLastNonzero buf buf.length :=
      hother.imp_right fun h => h.unique hpast
    have hnear : ¬ min baseLen buf.length < pageBytes := Nat.not_lt.mpr hpage
    simp only [chooseSnapshotLen_of_pos probe sections hbase hscan, hnear, false_and, and_false, if_false]
    refine not_lt_of_ge ?_
    split
    · rename_i hsame
      rw [hsame, or_self] at hother'
      rw [hother']
    · exact chooseCandidate_best probe buf hsections hother'

/-! ## Saving -/

/-- A file whose writes all succeed. -/
def OutputFile.Works (file : OutputFile) : Prop := ∀ off bytes, file.write off bytes ≠ none

theorem writeLoop_of_works {file : OutputFile} (h : file.Works) (off : Nat) (bytes : List UInt8) :
    writeLoop file off bytes = some bytes := by
  fun_induction writeLoop file off bytes with
  | case1 off => rfl
  | case2 off bytes hbytes hn => exact absurd hn (h off bytes)
  | case3 off bytes hbytes n hn ih => rw [ih, Option.map_some, List.take_append_drop]

theorem snapshotOffset_toNat (len : Nat) : (snapshotOffset len).toNat = len % pageBytes := by
  have : len % pageBytes < pageBytes := Nat.mod_lt _ (by decide)
  rw [snapshotOffset, UInt64.toNat_ofNat']
  unfold pageBytes at *
  omega

theorem snapshotPage_toInt (len : Nat) : (snapshotPage len).toInt = Int.bmod (len / pageBytes) (2 ^ 32) := by
  rw [snapshotPage, Int32.toInt_ofNat']
  rfl

theorem bufferPosition_toNat {page : Int} {offset : UInt64} (hpage : 0 ≤ page) (hlt : page < 2 ^ 31)
    (hoffset : offset.toNat < pageBytes) :
    (bufferPosition page offset).toNat = page.toNat * pageBytes + offset.toNat := by
  have hword : (UInt64.ofInt page).toNat = page.toNat := by
    rw [UInt64.ofInt, UInt64.toNat_ofNat']
    omega
  unfold pageBytes at *
  rw [bufferPosition, UInt64.toNat_add, UInt64.toNat_mul, hword, UInt64.toNat_ofNat', pageBytes]
  omega

/-- A loop that does not fail has written all. -/
theorem writeLoop_eq {file : OutputFile} {off : Nat} {bytes written : List UInt8}
    (h : writeLoop file off bytes = some written) : written = bytes := by
  fun_induction writeLoop file off bytes generalizing written with
  | case1 off => exact (Option.some.inj h).symm
  | case2 off bytes hbytes hn => cases h
  | case3 off bytes hbytes n hn ih =>
      obtain ⟨rest, hrest, rfl⟩ := Option.map_eq_some_iff.mp h
      rw [ih hrest, List.take_append_drop]

/-- What is saved of an extent below 8 TiB. -/
theorem hwtCtxSnapshotBuffer_eq {ctx : TraceBuffer} {buf : { b : List UInt8 // b.length = ctx.bufsize }}
    {len : Nat} (hmapped : ctx.mapped = some buf) (hpos : 0 < len) (hle : len ≤ ctx.bufsize) (hlt : len < 2 ^ 43)
    (file : Option OutputFile) :
    hwtCtxSnapshotBuffer ctx file (snapshotPage len) (snapshotOffset len) =
      match file.bind fun file => writeLoop file 0 (buf.val.take len) with
      | none => ⟨-1, none⟩
      | some bytes => ⟨len, some bytes⟩ := by
  have hpage : (snapshotPage len).toInt = (len / pageBytes : Nat) := by
    rw [snapshotPage_toInt, Int.bmod_def, pageBytes]
    omega
  have hnonneg : ¬ snapshotPage len < 0 := by
    rw [Int32.lt_iff_toInt_lt, hpage]
    exact Int.not_lt.mpr (Int.natCast_nonneg _)
  have hoff := snapshotOffset_toNat len
  have htotal : (bufferPosition (snapshotPage len).toInt (snapshotOffset len)).toNat = len := by
    rw [bufferPosition_toNat, hpage, hoff, Int.toNat_natCast, Nat.div_add_mod']
    · rw [hpage]; exact Int.natCast_nonneg _
    · rw [hpage, pageBytes]; omega
    · rw [hoff]; exact Nat.mod_lt _ (by decide)
  have hfit : ¬ ctx.bufsize < len := Nat.not_lt.mpr hle
  simp only [hwtCtxSnapshotBuffer, hnonneg, hmapped, htotal, hfit, Nat.ne_of_gt hpos, if_false]
  cases file <;> rfl

theorem hwtCtxSnapshotBuffer_saves {ctx : TraceBuffer} {file : OutputFile}
    {buf : { b : List UInt8 // b.length = ctx.bufsize }}
    {len : Nat} (hmapped : ctx.mapped = some buf) (hworks : file.Works) (hpos : 0 < len) (hle : len ≤ ctx.bufsize)
    (hlt : len < 2 ^ 43) :
    hwtCtxSnapshotBuffer ctx (some file) (snapshotPage len) (snapshotOffset len) = ⟨len, some (buf.val.take len)⟩ := by
  rw [hwtCtxSnapshotBuffer_eq hmapped hpos hle hlt, Option.bind_some, writeLoop_of_works hworks]

/-- When it does not fail, all of it is saved. -/
theorem hwtCtxSnapshotBuffer_of_saved {ctx : TraceBuffer} {file : Option OutputFile}
    {buf : { b : List UInt8 // b.length = ctx.bufsize }} {len : Nat} (hmapped : ctx.mapped = some buf) (hpos : 0 < len)
    (hle : len ≤ ctx.bufsize) (hlt : len < 2 ^ 43)
    (hsaved : 0 ≤ (hwtCtxSnapshotBuffer ctx file (snapshotPage len) (snapshotOffset len)).saved) :
    hwtCtxSnapshotBuffer ctx file (snapshotPage len) (snapshotOffset len) = ⟨len, some (buf.val.take len)⟩ := by
  rw [hwtCtxSnapshotBuffer_eq hmapped hpos hle hlt] at hsaved ⊢
  cases hwritten : file.bind fun file => writeLoop file 0 (buf.val.take len) with
  | none =>
      rw [hwritten] at hsaved
      cases hsaved
  | some bytes =>
      obtain ⟨file, _, hloop⟩ := Option.bind_eq_some_iff.mp hwritten
      rw [writeLoop_eq hloop]

/-- Never more is saved than the buffer holds, and than what lies in front of the position. -/
theorem hwtCtxSnapshotBuffer_saved_le (ctx : TraceBuffer) (file : Option OutputFile) (lastPage : Int32)
    (lastOffset : UInt64) : (hwtCtxSnapshotBuffer ctx file lastPage lastOffset).saved ≤ ctx.bufsize ∧
      (lastPage < 0 ∧ (hwtCtxSnapshotBuffer ctx file lastPage lastOffset).saved = 0 ∨
        ¬ lastPage < 0 ∧ (hwtCtxSnapshotBuffer ctx file lastPage lastOffset).saved ≤
          (bufferPosition lastPage.toInt lastOffset).toNat) := by
  unfold hwtCtxSnapshotBuffer
  by_cases hpage : lastPage < 0
  · rw [if_pos hpage]
    exact ⟨Int.natCast_nonneg _, Or.inl ⟨hpage, rfl⟩⟩
  · rw [if_neg hpage]
    refine (fun h => ⟨h.1, Or.inr ⟨hpage, h.2⟩⟩ : _ ≤ _ ∧ _ ≤ _ → _) ?_
    cases ctx.mapped with
    | none => simp only; omega
    | some buf =>
        dsimp only
        generalize (bufferPosition lastPage.toInt lastOffset).toNat = total
        have hcap : (if ctx.bufsize < total then ctx.bufsize else total) ≤ ctx.bufsize ∧
            (if ctx.bufsize < total then ctx.bufsize else total) ≤ total := by split <;> omega
        generalize (if ctx.bufsize < total then ctx.bufsize else total) = capped at hcap
        split
        · simp only; omega
        · cases file with
          | none => simp only; omega
          | some file =>
              dsimp only
              cases writeLoop file 0 (buf.val.take capped) with
              | none => simp only; omega
              | some bytes => simp only; omega

/-- The page of a longer extent does not fit an `int`, and less is saved. -/
theorem hwtCtxSnapshotBuffer_lt (ctx : TraceBuffer) (file : Option OutputFile) (len : Nat) :
    (hwtCtxSnapshotBuffer ctx file (snapshotPage len) (snapshotOffset len)).saved < 2 ^ 43 := by
  rcases (hwtCtxSnapshotBuffer_saved_le ctx file (snapshotPage len) (snapshotOffset len)).2 with
    ⟨_, hzero⟩ | ⟨hpage, hle⟩
  · rw [hzero]; decide
  · have hnonneg : 0 ≤ (snapshotPage len).toInt := by
      rw [Int32.lt_iff_toInt_lt] at hpage
      exact Int.not_lt.mp hpage
    have hoff : (snapshotOffset len).toNat < pageBytes := by
      rw [snapshotOffset_toNat]
      exact Nat.mod_lt _ (by decide)
    have hsmall : (snapshotPage len).toInt < 2 ^ 31 := Int32.toInt_lt _
    rw [bufferPosition_toNat hnonneg hsmall hoff] at hle
    unfold pageBytes at *
    omega

/-- The length of the stretch that `snapshot_and_decode` chooses. -/
def snapshotLen (probe : Probe) (ctx : TraceBuffer) (buf : List UInt8) (stop : Option (Int32 × UInt64))
    (ts : TraceState) : Nat :=
  chooseSnapshotLen probe buf (knownEnd ctx.bufsize stop ts) ts.sections

theorem snapshotAndDecode_of_pos {probe : Probe} {ctx : TraceBuffer}
    {buf : { b : List UInt8 // b.length = ctx.bufsize }}
    (file : Option OutputFile) {stop : Option (Int32 × UInt64)} {ts : TraceState} (hmapped : ctx.mapped = some buf)
    (hpos : 0 < snapshotLen probe ctx buf.val stop ts) :
    snapshotAndDecode probe ctx file stop ts =
      let len := snapshotLen probe ctx buf.val stop ts
      let snapshot := hwtCtxSnapshotBuffer ctx file (snapshotPage len) (snapshotOffset len)
      ⟨snapshot, if 0 < snapshot.saved then some (buf.val.take snapshot.saved.toNat) else none⟩ := by
  rw [snapshotLen] at hpos ⊢
  simp only [snapshotAndDecode, hmapped, Nat.ne_of_gt hpos, if_false]

/-- Exactly the chosen stretch is saved and decoded. -/
def SavesExtent (probe : Probe) (ctx : TraceBuffer) (buf : List UInt8) (file : OutputFile)
    (stop : Option (Int32 × UInt64)) (ts : TraceState) : Prop :=
  let len := snapshotLen probe ctx buf stop ts
  snapshotAndDecode probe ctx (some file) stop ts = ⟨⟨len, some (buf.take len)⟩, some (buf.take len)⟩

theorem SavesExtent.lt {probe : Probe} {ctx : TraceBuffer} {buf : { b : List UInt8 // b.length = ctx.bufsize }}
    {file : OutputFile} {stop : Option (Int32 × UInt64)} {ts : TraceState} (hmapped : ctx.mapped = some buf)
    (h : SavesExtent probe ctx buf.val file stop ts) : snapshotLen probe ctx buf.val stop ts < 2 ^ 43 := by
  rcases Nat.eq_zero_or_pos (snapshotLen probe ctx buf.val stop ts) with hzero | hpos
  · rw [hzero]; decide
  · have hsaved := hwtCtxSnapshotBuffer_lt ctx (some file) (snapshotLen probe ctx buf.val stop ts)
    rw [SavesExtent, snapshotAndDecode_of_pos (some file) hmapped hpos] at h
    rw [congrArg (fun r => r.snapshot.saved) h] at hsaved
    exact Int.ofNat_lt.mp hsaved

end ObservableBSD.Trace
