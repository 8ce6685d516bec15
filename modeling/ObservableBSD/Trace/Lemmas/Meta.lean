import ObservableBSD.Trace.Meta

/-!
# Lines of the sidecar

What `meta_read_sections` makes of each line that the writer can write, one line at a time.
-/

namespace ObservableBSD.Trace

open Base

variable {type path rest : CString} {addr base : UInt64}

/-! ## Complete lines -/

theorem Plain.printable (h : Plain path) : Printable path := fun c hc => (h c hc).2.2

theorem Plain.notQuote (h : Plain path) : ∀ c ∈ path, c ≠ 0 ∧ notQuote c = true := by
  intro c hc
  obtain ⟨hquote, _, hge⟩ := h c hc
  refine ⟨?_, by simpa [Trace.notQuote] using hquote⟩
  rintro rfl
  simp at hge

theorem Plain.append {s t : CString} (hs : Plain s) (ht : Plain t) : Plain (s ++ t) := by
  intro c hc
  rcases List.mem_append.mp hc with hc | hc
  · exact hs c hc
  · exact ht c hc

/-- What the reader's format takes for a type. -/
structure TypeName (type : CString) : Prop where
  ne : type ≠ []
  plain : Plain type
  short : type.length ≤ 31

instance (type : CString) : Decidable (TypeName type) :=
  decidable_of_iff (type ≠ [] ∧ Plain type ∧ type.length ≤ 31)
    ⟨fun h => ⟨h.1, h.2.1, h.2.2⟩, fun h => ⟨h.ne, h.plain, h.short⟩⟩

theorem typeName_of_all (hne : type ≠ []) (hplain : type.all (fun c => c ≠ 34 ∧ c ≠ 92 ∧ 32 ≤ c.toNat) = true)
    (hshort : type.length ≤ 31) : TypeName type := ⟨hne, plain_of_all hplain, hshort⟩

theorem TypeName.fits (h : TypeName type) : Fits 31 type := ⟨h.plain.printable, h.short⟩

theorem lineEnd_eq : cstr "\x7d\n" = cstr "\x7d" ++ [10] ∧ cstr "\"\x7d\n" = cstr "\"\x7d" ++ [10] := by
  decide

theorem completeLine_section (htype : TypeName type) (hpath : Plain path) (hlen : path.length ≤ 1023)
    (addr base : UInt64) : CompleteLine 4096 (sectionLine type path addr base) := by
  have hfield : Fits 1023 path := ⟨hpath.printable, hlen⟩
  simp only [sectionLine, lineEnd_eq.2, ← List.append_assoc]
  refine completeLine_of_fits ((((((((fits_of_all ?_).append htype.fits).append (fits_of_all ?_)).append hfield).append
    (fits_of_all ?_)).append (fits_hex addr)).append (fits_of_all ?_)).append (fits_hex base) |>.append
      (fits_of_all ?_)) ?_
  all_goals decide

theorem completeLine_header (pid tid : Int32) :
    ∀ line ∈ metaWriterHeader pid tid, CompleteLine 256 line := by
  intro line hline
  obtain rfl := List.mem_singleton.mp hline
  rw [lineEnd_eq.1, ← List.append_assoc]
  refine completeLine_of_fits (((((fits_of_all ?_).append (fits_int32 pid)).append (fits_of_all ?_)).append
    (fits_int32 tid)).append (fits_of_all ?_)) ?_
  all_goals decide

theorem completeLine_timing (mtcFreq cycThresh : UInt8) :
    ∀ line ∈ metaWriterTiming mtcFreq cycThresh, CompleteLine 256 line := by
  intro line hline
  unfold metaWriterTiming at hline
  split at hline
  · cases hline
  · obtain rfl := List.mem_singleton.mp hline
    rw [lineEnd_eq.1, ← List.append_assoc]
    refine completeLine_of_fits (((((fits_of_all ?_).append (fits_uint8 mtcFreq)).append (fits_of_all ?_)).append
      (fits_uint8 cycThresh)).append (fits_of_all ?_)) ?_
    all_goals decide

theorem completeLine_thread (htype : TypeName type) (tid : Int32) : CompleteLine 4096 (threadLine type tid) := by
  simp only [threadLine, lineEnd_eq.1, ← List.append_assoc]
  refine completeLine_of_fits (((((fits_of_all ?_).append htype.fits).append (fits_of_all ?_)).append
    (fits_int32 tid)).append (fits_of_all ?_)) ?_
  all_goals decide

/-! ## Fields -/

/-- The type of a line, and what the rest of the format makes of the rest of the line. -/
theorem sscanf_type (htype : TypeName type) (hrest : rest.head? = some 34) :
    sscanf sectionFormat (cstr "\x7b\"type\":\"" ++ (type ++ rest)) =
      .text type :: sscanf (sectionFormat.drop 2) rest := by
  unfold sectionFormat
  rw [sscanf_literal, sscanf_set htype.ne htype.plain.notQuote htype.short hrest (by decide)]
  rfl

theorem sscanf_sectionLine (htype : TypeName type) (hne : path ≠ []) (hpath : Plain path)
    (hlen : path.length ≤ 1023) (addr base : UInt64) :
    sscanf sectionFormat (sectionLine type path addr base) = [.text type, .text path, .long addr, .long base] := by
  have hquote : ∀ {s t : CString}, s.head? = some 34 → (s ++ t).head? = some 34 := head?_append_of_head?
  have hfield : notQuote 34 = false := by decide
  have hdigit : isDigit 16 34 = false := by decide
  have hx : (34 : UInt8) ≠ 120 ∧ (34 : UInt8) ≠ 88 := by decide
  rw [sectionLine, sscanf_type htype (hquote (by decide))]
  show _ :: sscanf (.literal (cstr "\",\"path\":\"") :: .set 1023 notQuote :: .literal (cstr "\",\"addr\":\"0x") ::
    .hexLong :: .literal (cstr "\",\"base\":\"0x") :: .hexLong :: [.literal (cstr "\"\x7d")]) _ = _
  rw [sscanf_literal, sscanf_set hne hpath.notQuote hlen (hquote (by decide)) hfield, sscanf_literal,
    sscanf_hexLong addr (hquote (by decide)) hdigit hx, sscanf_literal,
    sscanf_hexLong base (by decide) hdigit hx, lineEnd_eq.2, sscanf_literal]
  rfl

theorem sscanf_sectionLine_nil (htype : TypeName type) (addr base : UInt64) :
    sscanf sectionFormat (sectionLine type [] addr base) = [.text type] := by
  rw [sectionLine, sscanf_type htype (head?_append_of_head? (by decide))]
  show _ :: sscanf (.literal (cstr "\",\"path\":\"") :: .set 1023 notQuote :: _) _ = _
  rw [sscanf_literal, List.nil_append,
    sscanf_set_nil (head?_append_of_head? (by decide)) (show notQuote 34 = false by decide)]

/-- A line whose second key is not `path` ends the scan there. -/
theorem sscanf_otherKey (htype : TypeName type) (hquote : rest.head? = some 34)
    (hkey : afterLiteral (cstr "\",\"path\":\"") rest = none) :
    sscanf sectionFormat (cstr "\x7b\"type\":\"" ++ (type ++ rest)) = [.text type] := by
  rw [sscanf_type htype hquote]
  show _ :: sscanf (.literal (cstr "\",\"path\":\"") :: _) _ = _
  rw [sscanf_literal_none hkey]

end ObservableBSD.Trace
