import ObservableBSD.Base.Decimal
import ObservableBSD.Trace.Lemmas.State

/-!
# Header and timing in the sidecar

A chunk of a line may start anywhere in a path. No chunk starts like a timing line: inside a path a quote stands
behind a backslash, never behind a brace.
-/

namespace ObservableBSD.Trace

open Base

variable {line front back esc type : CString} {addr base : UInt64}

/-! ## Escaped paths -/

/-- Every quote stands behind a backslash. -/
def QuotesEscaped (s : CString) : Prop := ∀ pre post, s = pre ++ 34 :: post → ∃ pre', pre = pre' ++ [92]

theorem QuotesEscaped.append {s t : CString} (hs : QuotesEscaped s) (ht : QuotesEscaped t) :
    QuotesEscaped (s ++ t) := by
  intro pre post heq
  rcases List.append_eq_append_iff.mp heq with ⟨a, rfl, hrest⟩ | ⟨c, rfl, hrest⟩
  · obtain ⟨pre', rfl⟩ := ht a post hrest
    exact ⟨s ++ pre', (List.append_assoc ..).symm⟩
  · cases c with
    | nil =>
        obtain ⟨pre', hnil⟩ := ht [] post hrest.symm
        simp at hnil
    | cons d c =>
        obtain ⟨rfl, rfl⟩ := List.cons.inj hrest
        exact hs pre c rfl

theorem quotesEscaped_of_not_mem {s : CString} (h : 34 ∉ s) : QuotesEscaped s := by
  rintro pre post rfl
  exact absurd (List.mem_append_right pre List.mem_cons_self) h

theorem quotesEscaped_quote : QuotesEscaped (cstr "\\\"") := by
  intro pre post heq
  rcases pre with _ | ⟨b, _ | ⟨d, pre⟩⟩
  · cases heq
  · obtain ⟨rfl, _⟩ := List.cons.inj heq
    exact ⟨[], rfl⟩
  · have hlen := congrArg List.length heq
    simp [cstr] at hlen

structure Escaped (s : CString) : Prop where
  printable : Printable s
  quotes : QuotesEscaped s

theorem Escaped.append {s t : CString} (hs : Escaped s) (ht : Escaped t) : Escaped (s ++ t) :=
  ⟨hs.printable.append ht.printable, hs.quotes.append ht.quotes⟩

theorem escaped_of_all {s : CString} (hprint : s.all (fun c => 32 ≤ c.toNat) = true) (hquote : 34 ∉ s) : Escaped s :=
  ⟨printable_of_all hprint, quotesEscaped_of_not_mem hquote⟩

theorem digitByte_printable : ∀ d < 16, 34 < (digitByte d).toNat := by decide

theorem escaped_escapeByte (c : UInt8) : Escaped (escapeByte c) := by
  unfold escapeByte
  split
  · exact ⟨printable_of_all (by decide), quotesEscaped_quote⟩
  repeat' split
  iterate 6 exact escaped_of_all (by decide) (by decide)
  · have hhigh := digitByte_printable (c.toNat / 16) (by have := c.toNat_lt; omega)
    have hlow := digitByte_printable (c.toNat % 16) (Nat.mod_lt _ (by omega))
    refine (escaped_of_all (by decide) (by decide)).append (escaped_of_all ?_ ?_)
    · simp only [List.all_cons, List.all_nil, Bool.and_true, Bool.and_eq_true, decide_eq_true_eq]
      omega
    · intro hmem
      rcases List.mem_pair.mp hmem with h | h
      · exact absurd (h ▸ hhigh) (by decide)
      · exact absurd (h ▸ hlow) (by decide)
  · rename_i hquote _ _ _ _ _ _ hge
    rw [UInt8.lt_iff_toNat_lt, Nat.not_lt] at hge
    exact escaped_of_all (by simpa using hge) (by simpa using Ne.symm hquote)

theorem escaped_jsonEscapeFrom (dstlen : Nat) {dst : CString} (h : Escaped dst) (src : CString) :
    Escaped (jsonEscapeFrom dstlen dst src) := by
  induction src generalizing dst with
  | nil => exact h
  | cons c src ih =>
      rw [jsonEscapeFrom]
      split
      · exact ih (h.append (escaped_escapeByte c))
      · exact h

theorem escaped_jsonEscape (dstlen : Nat) (src : CString) : Escaped (jsonEscape dstlen src) :=
  escaped_jsonEscapeFrom dstlen (escaped_of_all rfl List.not_mem_nil) src

/-! ## Chunks of a line -/

theorem cons_of_append_of_not_mem {s t pre post : CString} {c : UInt8} (hs : c ∉ s) (h : s ++ t = pre ++ c :: post) :
    ∃ pre', t = pre' ++ c :: post := by
  rcases List.append_eq_append_iff.mp h with ⟨a, rfl, rfl⟩ | ⟨a, rfl, hrest⟩
  · exact ⟨a, rfl⟩
  · cases a with
    | nil => exact ⟨[], hrest.symm⟩
    | cons d a =>
        obtain ⟨rfl, _⟩ := List.cons.inj hrest
        exact absurd (List.mem_append_right pre List.mem_cons_self) hs

/-- No byte of it opens an object whose first key begins with `t`. -/
def NoObject (s : CString) : Prop := ∀ pre post, s ≠ pre ++ 123 :: 34 :: 116 :: post

theorem noObject_of_not_mem {s : CString} (h : 123 ∉ s) : NoObject s := by
  rintro pre post rfl
  exact h (List.mem_append_right pre List.mem_cons_self)

/-- A brace at the end of the path comes before `",`, and one inside it before no quote. -/
theorem noObject_field (hfront : 123 ∉ front) (hesc : QuotesEscaped esc) (hback : 123 ∉ back)
    (hend : back.take 2 = [34, 44]) : NoObject (front ++ (esc ++ back)) := by
  intro pre post heq
  obtain ⟨pre, heq⟩ := cons_of_append_of_not_mem hfront heq
  rcases List.append_eq_append_iff.mp heq with ⟨a, rfl, rfl⟩ | ⟨a, rfl, hrest⟩
  · exact hback (List.mem_append_right a List.mem_cons_self)
  rcases a with _ | ⟨b, _ | ⟨d, a⟩⟩
  · exact hback (by rw [List.nil_append] at hrest; exact hrest ▸ List.mem_cons_self)
  · simp only [List.cons_append, List.nil_append, List.cons.injEq] at hrest
    rw [← hrest.2] at hend
    simp at hend
  · simp only [List.cons_append, List.cons.injEq] at hrest
    obtain ⟨rfl, rfl, _⟩ := hrest
    obtain ⟨pre', hback'⟩ := hesc (pre ++ [123]) a (by simp)
    exact absurd (List.append_inj' hback' rfl).2 (by decide)

/-- A line of which no part is taken for a timing line. -/
structure OtherLine (line : CString) : Prop where
  newline : ∃ body, line = body ++ [10] ∧ 10 ∉ body
  start : afterLiteral timingKey line = none
  tail : NoObject line.tail

theorem OtherLine.chunk {chunk : CString} (h : OtherLine line) (hin : chunk <:+: line) :
    afterLiteral timingKey chunk = none := by
  obtain ⟨pre, post, rfl⟩ := hin
  cases hkey : afterLiteral timingKey chunk with
  | none => rfl
  | some rest =>
      have hchunk := eq_append_of_afterLiteral hkey
      subst hchunk
      cases pre with
      | nil =>
          have hstart := h.start
          rw [List.nil_append, List.append_assoc, afterLiteral_append] at hstart
          cases hstart
      | cons b pre => exact absurd (List.append_assoc ..) (h.tail pre (timingKey.drop 3 ++ (rest ++ post)))

theorem not_mem_hex (v : UInt64) : 123 ∉ numeral 16 v.toNat :=
  fun h => absurd (isDigit_of_mem_numeral (by omega) (by omega) h) (by decide)

theorem not_mem_intNumeral (v : Int) : 123 ∉ intNumeral v := by
  have hdigits : 123 ∉ numeral 10 v.natAbs :=
    fun h => absurd (isDigit_of_mem_numeral (by omega) (by omega) h) (by decide)
  unfold intNumeral
  split
  · simpa using hdigits
  · exact hdigits

theorem otherLine_section (hbrace : 123 ∉ type) (htype : Printable type) (hesc : Escaped esc)
    (hstart : afterLiteral timingKey (sectionLine type esc addr base) = none) :
    OtherLine (sectionLine type esc addr base) where
  newline := by
    simp only [sectionLine, lineEnd_eq.2, ← List.append_assoc]
    refine ⟨_, rfl, Printable.not_newline (((((((((printable_of_all ?_).append htype).append
      (printable_of_all ?_)).append hesc.printable).append (printable_of_all ?_)).append
      (fits_hex addr).printable).append (printable_of_all ?_)).append (fits_hex base).printable).append
      (printable_of_all ?_))⟩
    all_goals decide
  start := hstart
  tail := by
    have hfront : 123 ∉ cstr "\"type\":\"" ++ (type ++ cstr "\",\"path\":\"") := by
      simp only [List.mem_append, not_or]
      exact ⟨by decide, hbrace, by decide⟩
    have hback : 123 ∉ cstr "\",\"addr\":\"0x" ++ (numeral 16 addr.toNat ++ (cstr "\",\"base\":\"0x" ++
        (numeral 16 base.toNat ++ cstr "\"\x7d\n"))) := by
      simp only [List.mem_append, not_or]
      exact ⟨by decide, not_mem_hex addr, by decide, not_mem_hex base, by decide⟩
    have hfield := noObject_field hfront hesc.quotes hback rfl
    rw [List.append_assoc, List.append_assoc] at hfield
    exact hfield

theorem otherLine_thread (hbrace : 123 ∉ type) (htype : Printable type) (tid : Int32)
    (hstart : afterLiteral timingKey (threadLine type tid) = none) : OtherLine (threadLine type tid) where
  newline := by
    simp only [threadLine, lineEnd_eq.1, ← List.append_assoc]
    refine ⟨_, rfl, Printable.not_newline (((((printable_of_all ?_).append htype).append
      (printable_of_all ?_)).append (fits_int32 tid).printable).append (printable_of_all ?_))⟩
    all_goals decide
  start := hstart
  tail := by
    have hline : 123 ∉ cstr "\"type\":\"" ++
        (type ++ (cstr "\",\"tid\":" ++ (intNumeral tid.toInt ++ cstr "\x7d\n"))) := by
      simp only [List.mem_append, not_or]
      exact ⟨by decide, hbrace, by decide, not_mem_intNumeral tid.toInt, by decide⟩
    exact noObject_of_not_mem hline

theorem otherLine_sectionType (type : HwtRecordType) (hesc : Escaped esc) :
    OtherLine (sectionLine (sectionTypeName type) esc addr base) := by
  unfold sectionTypeName
  split
  · exact otherLine_section (by decide) (printable_of_all (by decide)) hesc rfl
  · split <;> exact otherLine_section (by decide) (printable_of_all (by decide)) hesc rfl

theorem otherLine_item (item : MetaItem) : ∀ line ∈ item.lines, OtherLine line := by
  intro line hline
  cases item with
  | record rec =>
      have hesc := escaped_jsonEscape maxPathLen rec.fullpath
      simp only [MetaItem.lines, metaWriterRecord] at hline
      split at hline
      · obtain rfl := List.mem_singleton.mp hline
        exact otherLine_sectionType .executable hesc
      · obtain rfl := List.mem_singleton.mp hline
        exact otherLine_sectionType .mmap hesc
      · obtain rfl := List.mem_singleton.mp hline
        exact otherLine_sectionType .kernel hesc
      · obtain rfl := List.mem_singleton.mp hline
        exact otherLine_thread (by decide) (printable_of_all (by decide)) _ rfl
      · obtain rfl := List.mem_singleton.mp hline
        exact otherLine_thread (by decide) (printable_of_all (by decide)) _ rfl
      · cases hline
  | sections infos =>
      obtain ⟨sec, _, rfl⟩ := List.mem_map.mp hline
      exact otherLine_sectionType sec.type (escaped_jsonEscape maxPathLen sec.path)

/-! ## Reading back -/

variable {format : List Directive} {items : List MetaItem}

/-- What the loop makes of a line. -/
def lineUint (format : List Directive) (line : CString) : Option Int32 :=
  match sscanf format line with
  | [.uint v] => some v.toInt32
  | _ => none

theorem lineUint_of_not_timing (h : afterLiteral timingKey line = none) :
    lineUint (.literal timingKey :: format) line = none := by
  rw [lineUint, sscanf_literal_none h]

theorem findSome?_items (format : List Directive) (items : List MetaItem) :
    (fgetsLines 256 (items.flatMap MetaItem.lines).flatten).findSome? (lineUint (.literal timingKey :: format)) =
      none := by
  have hother : ∀ line ∈ items.flatMap MetaItem.lines, OtherLine line := by
    intro line hline
    obtain ⟨item, _, hline⟩ := List.mem_flatMap.mp hline
    exact otherLine_item item line hline
  refine List.findSome?_eq_none_iff.mpr fun chunk hchunk => ?_
  obtain ⟨line, hline, hin⟩ := infix_of_mem_fgetsLines (fun l hl => (hother l hl).newline) hchunk
  exact lineUint_of_not_timing ((hother line hline).chunk hin)

theorem metaReadUint_metaFile (pid tid : Int32) {mtcFreq cycThresh v : UInt8} (items : List MetaItem)
    (hzero : mtcFreq = 0 ∧ cycThresh = 0 → v = 0)
    (htiming : ∀ line ∈ metaWriterTiming mtcFreq cycThresh,
      sscanf (.literal timingKey :: format) line = [.uint v.toUInt32]) :
    metaReadUint (.literal timingKey :: format) (metaFile pid tid mtcFreq cycThresh items) =
      v.toUInt32.toInt32 := by
  have hitems := findSome?_items format items
  have hcomplete := completeLine_timing mtcFreq cycThresh
  have hheader : ∀ line ∈ metaWriterHeader pid tid, afterLiteral timingKey line = none := by
    intro line hline
    obtain rfl := List.mem_singleton.mp hline
    rfl
  have hfile : metaFile pid tid mtcFreq cycThresh items = _ ++ _ := List.flatten_cons
  show ((fgetsLines 256 _).findSome? (lineUint _)).getD 0 = _
  rw [hfile, fgetsLines_cons (completeLine_header pid tid _ List.mem_cons_self), List.findSome?_cons,
    lineUint_of_not_timing (hheader _ List.mem_cons_self)]
  dsimp only
  by_cases hoff : mtcFreq = 0 ∧ cycThresh = 0
  · have hnone : metaWriterTiming mtcFreq cycThresh = [] := if_pos hoff
    show ((fgetsLines 256 (metaWriterTiming _ _ ++ _).flatten).findSome? _).getD 0 = _
    rw [hnone, List.nil_append, hitems, hzero hoff]
    rfl
  · obtain ⟨line, hline⟩ : ∃ line, metaWriterTiming mtcFreq cycThresh = [line] := ⟨_, if_neg hoff⟩
    rw [hline] at hcomplete htiming
    have hread : lineUint (.literal timingKey :: format) line = some v.toUInt32.toInt32 := by
      rw [lineUint, htiming line List.mem_cons_self]
    show ((fgetsLines 256 (metaWriterTiming _ _ ++ _).flatten).findSome? _).getD 0 = _
    rw [hline, List.singleton_append, List.flatten_cons, fgetsLines_cons (hcomplete line List.mem_cons_self),
      List.findSome?_cons, hread]
    rfl

/-- The scan of a timing line up to its second number. -/
theorem sscanf_timing (mtcFreq cycThresh : UInt8) (assigned : Bool) (format : List Directive) :
    ∀ line ∈ metaWriterTiming mtcFreq cycThresh, ∃ rest,
      rest = cstr ",\"cyc_thresh\":" ++ (numeral 10 cycThresh.toUInt32.toNat ++ cstr "\x7d\n") ∧
      sscanf (.literal timingKey :: .uint assigned :: format) line =
        if assigned then .uint mtcFreq.toUInt32 :: sscanf format rest else sscanf format rest := by
  intro line hline
  unfold metaWriterTiming at hline
  split at hline
  · cases hline
  · obtain rfl := List.mem_singleton.mp hline
    refine ⟨_, rfl, ?_⟩
    simp only [List.append_assoc]
    show sscanf (.literal timingKey :: _) (timingKey ++ (numeral 10 mtcFreq.toUInt32.toNat ++ _)) = _
    rw [sscanf_literal]
    exact sscanf_uint mtcFreq.toUInt32 assigned rfl (by decide)

theorem sscanf_mtcFreq (mtcFreq cycThresh : UInt8) :
    ∀ line ∈ metaWriterTiming mtcFreq cycThresh,
      sscanf [.literal timingKey, .uint true] line = [.uint mtcFreq.toUInt32] := by
  intro line hline
  obtain ⟨_, _, hscan⟩ := sscanf_timing mtcFreq cycThresh true [] line hline
  exact hscan

theorem sscanf_cycThresh (mtcFreq cycThresh : UInt8) :
    ∀ line ∈ metaWriterTiming mtcFreq cycThresh,
      sscanf [.literal timingKey, .uint false, .literal (cstr ",\"cyc_thresh\":"), .uint true, .literal (cstr "\x7d")]
        line = [.uint cycThresh.toUInt32] := by
  intro line hline
  obtain ⟨_, rfl, hscan⟩ := sscanf_timing mtcFreq cycThresh false
    [.literal (cstr ",\"cyc_thresh\":"), .uint true, .literal (cstr "\x7d")] line hline
  have hend : (cstr "\x7d\n").head? = some 125 := rfl
  rw [hscan, if_neg Bool.false_ne_true, sscanf_literal, sscanf_uint cycThresh.toUInt32 true hend (by decide),
    lineEnd_eq.1, sscanf_literal]
  rfl

theorem metaReadTid_metaFile (pid tid : Int32) (mtcFreq cycThresh : UInt8) (items : List MetaItem) :
    metaReadTid (metaFile pid tid mtcFreq cycThresh items) = tid := by
  have hfile : metaFile pid tid mtcFreq cycThresh items = _ ++ _ := List.flatten_cons
  have hkey : (cstr ",\"tid\":" ++ (intNumeral tid.toInt ++ cstr "\x7d\n")).head? = some 44 := rfl
  have hend : (cstr "\x7d\n").head? = some 125 := rfl
  have hscan : ∀ line ∈ metaWriterHeader pid tid, sscanf headerFormat line = [.int tid] := by
    intro line hline
    obtain rfl := List.mem_singleton.mp hline
    simp only [List.append_assoc]
    unfold headerFormat
    rw [sscanf_literal, sscanf_int pid false hkey (by decide), if_neg Bool.false_ne_true, sscanf_literal,
      sscanf_int tid true hend (by decide), lineEnd_eq.1, sscanf_literal]
    rfl
  rw [metaReadTid, hfile, fgetsLines_cons (completeLine_header pid tid _ List.mem_cons_self)]
  simp only [hscan _ List.mem_cons_self]

end ObservableBSD.Trace
