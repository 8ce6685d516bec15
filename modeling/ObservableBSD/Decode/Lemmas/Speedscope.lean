import Mathlib.Algebra.Order.BigOperators.Group.List
import Mathlib.Data.Set.List
import ObservableBSD.Decode.Lemmas.SpeedscopeText

/-!
# What speedscope is shown

The frames are the tokens of all stacks, and the indices of a sample lead back to the tokens of its stack.
The document is UTF-8 exactly when what is left of every token is.
-/

namespace ObservableBSD.Decode

open Base Trace Export

/-! ## Frames -/

theorem speedscopeFrameIdx_of_mem {frames : List CString} {name : CString} (h : name ∈ frames) :
    ∃ i, speedscopeFrameIdx frames name = (frames, i) ∧ frames[i]? = some name := by
  cases hidx : frames.idxOf? name with
  | none => exact absurd h (List.idxOf?_eq_none_iff.1 hidx)
  | some i =>
      obtain ⟨hi, hget, -⟩ := List.idxOf?_eq_some_iff.1 hidx
      exact ⟨i, by rw [speedscopeFrameIdx, hidx], List.getElem?_eq_some_iff.2 ⟨hi, hget⟩⟩

theorem mem_speedscopeFrameIdx {frames : List CString} {name x : CString} :
    x ∈ (speedscopeFrameIdx frames name).1 ↔ x ∈ frames ∨ x = name := by
  by_cases h : name ∈ frames
  · obtain ⟨i, hidx, -⟩ := speedscopeFrameIdx_of_mem h
    rw [hidx]
    refine ⟨.inl, ?_⟩
    rintro (hx | rfl)
    · exact hx
    · exact h
  · rw [speedscopeFrameIdx, List.idxOf?_eq_none_iff.2 h]
    simp

theorem mem_foldl_frameIdx {toks frames : List CString} {x : CString} :
    x ∈ toks.foldl (fun frames tok => (speedscopeFrameIdx frames tok).1) frames ↔ x ∈ frames ∨ x ∈ toks := by
  induction toks generalizing frames with
  | nil => simp
  | cons tok toks ih => rw [List.foldl_cons, ih, mem_speedscopeFrameIdx, List.mem_cons, or_assoc]

/-- Phase 1 collects the tokens of all stacks. -/
theorem mem_speedscopeFrames {entries : List CollapsedEntry} {x : CString} :
    x ∈ speedscopeFrames entries ↔ ∃ e ∈ entries, x ∈ strtok 59 e.stack := by
  have hloop : ∀ frames : List CString, x ∈ entries.foldl (fun frames e =>
      (strtok 59 e.stack).foldl (fun frames tok => (speedscopeFrameIdx frames tok).1) frames) frames ↔
        x ∈ frames ∨ ∃ e ∈ entries, x ∈ strtok 59 e.stack := by
    induction entries with
    | nil => simp
    | cons e entries ih =>
        intro frames
        rw [List.foldl_cons, ih, mem_foldl_frameIdx, List.exists_mem_cons_iff, or_assoc]
  simpa [speedscopeFrames] using hloop []

/-! ## Samples -/

/-- Phase 2 finds every token among the frames. -/
theorem speedscopeSample_eq {frames toks : List CString} (h : ∀ tok ∈ toks, tok ∈ frames) :
    ∃ sample, speedscopeSample frames toks = (frames, sample) ∧
      List.Forall₂ (fun i tok => frames[i]? = some tok) sample toks := by
  induction toks with
  | nil => exact ⟨[], rfl, .nil⟩
  | cons tok toks ih =>
      obtain ⟨i, hidx, hget⟩ := speedscopeFrameIdx_of_mem (h tok List.mem_cons_self)
      obtain ⟨sample, hrest, hsample⟩ := ih fun t ht => h t (List.mem_cons_of_mem _ ht)
      exact ⟨i :: sample, by simp only [speedscopeSample, hidx, hrest], .cons hget hsample⟩

theorem speedscopeSamples_eq {frames : List CString} {entries : List CollapsedEntry}
    (h : ∀ e ∈ entries, ∀ tok ∈ strtok 59 e.stack, tok ∈ frames) :
    ∃ samples, speedscopeSamples frames entries = (frames, samples) ∧
      List.Forall₂ (fun sample e => List.Forall₂ (fun i tok => frames[i]? = some tok) sample (strtok 59 e.stack))
        samples entries := by
  induction entries with
  | nil => exact ⟨[], rfl, .nil⟩
  | cons e entries ih =>
      obtain ⟨sample, hstack, hsample⟩ := speedscopeSample_eq (h e List.mem_cons_self)
      obtain ⟨samples, hrest, hsamples⟩ := ih fun x hx => h x (List.mem_cons_of_mem _ hx)
      exact ⟨sample :: samples, by simp only [speedscopeSamples, hstack, hrest], .cons hsample hsamples⟩

/-! ## Stacks -/

/-- The part of a name that fits into `escaped`. -/
def shownName (name : CString) : CString := escapedPart 256 0 name

/-- The stack that the sample of an entry is read as. -/
def shownStack (stack : CString) : CString := [59].intercalate ((strtok 59 stack).map shownName)

/-- The name is printed as it is. -/
structure NameShown (name : CString) : Prop where
  nonempty : name ≠ []
  fits : (escapeBytes name.dropLast).length + 7 < 256
  utf8 : ∃ cs, name = utf8 cs

/-- The names of the stack are printed as they are; a stack of one empty name has no frames. -/
def StackShown (stack : CString) : Prop := stack = [] ∨ ∀ name ∈ stack.splitOn 59, NameShown name

theorem length_intercalate {names : List CString} (h : names ≠ []) :
    ([59].intercalate names).length + 1 = (names.map fun n => n.length + 1).sum := by
  induction names with
  | nil => exact absurd rfl h
  | cons n names ih => cases names with
      | nil => simp
      | cons m names =>
          have hrest := ih (List.cons_ne_nil m names)
          rw [List.intercalate_cons_cons, List.map_cons, List.sum_cons, ← hrest]
          simp only [List.length_append, List.length_singleton]
          omega

theorem escapedPart_eq_iff {dstlen pos : Nat} {name : CString} (h : name ≠ []) :
    escapedPart dstlen pos name = name ↔ pos + (escapeBytes name.dropLast).length + 7 < dstlen := by
  induction name generalizing pos with
  | nil => exact absurd rfl h
  | cons c name ih =>
      rw [escapedPart]
      cases name with
      | nil =>
          have hroom : escapeBytes [c].dropLast = [] := rfl
          rw [hroom]
          split <;> simp_all [escapedPart]
      | cons d name =>
          have hrest := @ih (pos + (escapeByte c).length) (List.cons_ne_nil d name)
          have hsplit : (escapeBytes (c :: d :: name).dropLast).length =
              (escapeByte c).length + (escapeBytes (d :: name).dropLast).length := by
            rw [List.dropLast_cons_cons, escapeBytes, List.flatMap_cons, List.length_append]
            rfl
          split
          · rw [List.cons_inj_right, hrest, hsplit]
            omega
          · simp only [List.nil_eq, reduceCtorEq, false_iff]
            omega

theorem shownName_length_le (name : CString) : (shownName name).length ≤ name.length :=
  (escapedPart_initial 256 0 name).length_le

/-- What is shown of names is at most as long as they are, and as long only when all of them are shown. -/
theorem shown_length_le (names : List CString) :
    (((names.filter (· ≠ [])).map shownName).map fun n => n.length + 1).sum ≤ (names.map fun n => n.length + 1).sum ∧
      ((names.map fun n => n.length + 1).sum ≤
          (((names.filter (· ≠ [])).map shownName).map fun n => n.length + 1).sum →
        ∀ n ∈ names, n ≠ [] ∧ shownName n = n) := by
  induction names with
  | nil => simp
  | cons n names ih =>
      obtain ⟨hle, hall⟩ := ih
      have hn := shownName_length_le n
      by_cases hnil : n = []
      · subst hnil
        rw [List.filter_cons_of_neg (by simp), List.map_cons, List.sum_cons]
        refine ⟨by omega, fun hge => ?_⟩
        rw [List.length_nil] at hge
        omega
      · rw [List.filter_cons_of_pos (by simpa using hnil)]
        simp only [List.map_cons, List.sum_cons]
        refine ⟨by omega, fun hge => ?_⟩
        have hwhole : (shownName n).length = n.length := by omega
        rintro m (_ | ⟨_, hm⟩)
        · exact ⟨hnil, (escapedPart_initial 256 0 n).eq_of_length hwhole⟩
        · exact hall (by omega) m hm

theorem shownStack_length_le (stack : CString) :
    (shownStack stack).length ≤ stack.length ∧ (stack.length ≤ (shownStack stack).length →
      stack = [] ∨ ∀ n ∈ stack.splitOn 59, n ≠ [] ∧ shownName n = n) := by
  by_cases htoks : strtok 59 stack = []
  · have hshown : shownStack stack = [] := by rw [shownStack, htoks]; rfl
    rw [hshown]
    exact ⟨Nat.zero_le _, fun h => .inl (List.length_eq_zero_iff.1 (Nat.le_zero.1 h))⟩
  · have hmap : (strtok 59 stack).map shownName ≠ [] := by simpa using htoks
    have hlen := length_intercalate hmap
    have hstack := length_intercalate (List.splitOn_ne_nil 59 stack)
    rw [List.intercalate_splitOn] at hstack
    obtain ⟨hle, hall⟩ := shown_length_le (stack.splitOn 59)
    change _ = (((stack.splitOn 59).filter (· ≠ [])).map shownName |>.map _).sum at hlen
    rw [shownStack]
    exact ⟨by omega, fun hge => .inr (hall (by omega))⟩

theorem NameShown.shownName_eq {name : CString} (h : NameShown name) : shownName name = name :=
  (escapedPart_eq_iff h.nonempty).2 (by simpa using h.fits)

theorem shownStack_eq {stack : CString} (h : StackShown stack) : shownStack stack = stack := by
  rcases h with rfl | h
  · rfl
  · have htoks : strtok 59 stack = stack.splitOn 59 :=
      List.filter_eq_self.2 fun n hn => by simpa using (h n hn).nonempty
    rw [shownStack, htoks, List.map_congr_left fun n hn => (h n hn).shownName_eq, List.map_id',
      List.intercalate_splitOn]

/-! ## Text -/

/-- The line of a frame is cut at the ends of the name. -/
theorem exists_shownName {cs : Text} {frame t : CString} (h : utf8 cs = frameLine frame ++ t) :
    ∃ name es, utf8 name = shownName frame ∧ t = utf8 es := by
  rw [frameLine, List.append_assoc, List.append_assoc] at h
  obtain ⟨ds, hds⟩ := exists_utf8_of_ascii_append (cstr_ascii (by decide)) h
  obtain ⟨body, rest, hbody, hrest, -⟩ := exists_utf8_of_append hds.symm (asciiHead_cons (by decide) _)
  rw [jsonEscape_eq] at hbody
  obtain ⟨name, hname⟩ := exists_utf8_of_escapeBytes hbody.symm
  obtain ⟨es, hes⟩ := exists_utf8_of_ascii_append (cstr_ascii (s := "\"\x7d") (by decide)) hrest.symm
  exact ⟨name, es, hname.symm, hes⟩

theorem speedscopeHead_ascii : ∀ b ∈ speedscopeHead, b.toNat < 128 := by
  simp only [speedscopeHead, List.forall_mem_append]
  exact ⟨cstr_ascii (by decide), cstr_ascii (by decide), cstr_ascii (by decide)⟩

theorem exists_shownNames {cs : Text} {frames : List CString} {t : CString}
    (h : utf8 cs = withCommas (cstr "\n") (frames.map frameLine) ++ t) :
    ∃ names : List Text, names.map utf8 = frames.map shownName := by
  induction frames generalizing cs with
  | nil => exact ⟨[], rfl⟩
  | cons frame frames ih => cases frames with
      | nil =>
          rw [List.map_singleton, withCommas, List.append_assoc] at h
          obtain ⟨name, -, hname, -⟩ := exists_shownName h
          exact ⟨[name], congrArg ([·]) hname⟩
      | cons next frames =>
          rw [List.map_cons, List.map_cons, withCommas, List.append_assoc] at h
          obtain ⟨name, es, hname, hes⟩ := exists_shownName h
          obtain ⟨ds, hds⟩ := exists_utf8_of_ascii_append (cstr_ascii (s := ",\n") (by decide)) hes.symm
          obtain ⟨names, hnames⟩ := ih hds.symm
          exact ⟨name :: names, congr (congrArg List.cons hname) hnames⟩

/-! ## Profile -/

theorem utf8_getD_name {names : List Text} {frames : List CString} (h : names.map utf8 = frames.map shownName)
    {i : Nat} {tok : CString} (hi : frames[i]? = some tok) :
    i < names.length ∧ utf8 (names.getD i []) = shownName tok := by
  have hget : (names.map utf8)[i]? = some (shownName tok) := by rw [h, List.getElem?_map, hi]; rfl
  rw [List.getElem?_map, Option.map_eq_some_iff] at hget
  obtain ⟨name, hname, htok⟩ := hget
  refine ⟨(List.getElem?_eq_some_iff.1 hname).1, ?_⟩
  rw [List.getD_eq_getElem?_getD, hname]
  exact htok

theorem sample_names {names : List Text} {frames : List CString} (h : names.map utf8 = frames.map shownName)
    {sample : List Nat} {toks : List CString}
    (hsample : List.Forall₂ (fun i tok => frames[i]? = some tok) sample toks) :
    (∀ i ∈ sample, i < names.length) ∧ (sample.map fun i => utf8 (names.getD i [])) = toks.map shownName := by
  induction hsample with
  | nil => exact ⟨by rintro i ⟨⟩, rfl⟩
  | cons hi _ ih =>
      obtain ⟨hlt, hname⟩ := utf8_getD_name h hi
      exact ⟨List.forall_mem_cons.2 ⟨hlt, ih.1⟩, congr (congrArg List.cons hname) ih.2⟩

theorem samples_stacks {names : List Text} {frames : List CString} (h : names.map utf8 = frames.map shownName)
    {samples : List (List Nat)} {entries : List CollapsedEntry}
    (hsamples : List.Forall₂ (fun sample e =>
      List.Forall₂ (fun i tok => frames[i]? = some tok) sample (strtok 59 e.stack)) samples entries) :
    (∀ sample ∈ samples, ∀ i ∈ sample, i < names.length) ∧
      (samples.map fun sample => [59].intercalate (sample.map fun i => utf8 (names.getD i []))) =
        entries.map fun e => shownStack e.stack := by
  induction hsamples with
  | nil => exact ⟨by rintro sample ⟨⟩, rfl⟩
  | cons hsample _ ih =>
      obtain ⟨hlt, hnames⟩ := sample_names h hsample
      exact ⟨List.forall_mem_cons.2 ⟨hlt, ih.1⟩,
        congr (congrArg List.cons (congrArg [59].intercalate hnames)) ih.2⟩

/-- The profile of the document: the samples are those of the shown stacks, with the counts as weights. -/
theorem exists_profile {entries : List CollapsedEntry} {names : List Text}
    (h : names.map utf8 = (speedscopeFrames entries).map shownName) :
    ∃ p : SpeedscopeProfile, utf8 (speedscopeText p) = speedscopePrint entries ∧
      (∀ sample ∈ p.samples, ∀ i ∈ sample, i < p.frames.length) ∧ p.samples.length = p.weights.length ∧
      p.endValue = p.weights.sum ∧
      (p.samples.map p.stack).zip p.weights = entries.map fun e => (shownStack e.stack, e.count) := by
  have hframes : ∀ e ∈ entries, ∀ tok ∈ strtok 59 e.stack, tok ∈ speedscopeFrames entries :=
    fun e he tok htok => mem_speedscopeFrames.2 ⟨e, he, htok⟩
  obtain ⟨samples, hsamples, hstacks⟩ := speedscopeSamples_eq hframes
  obtain ⟨hrange, hstack⟩ := samples_stacks h hstacks
  refine ⟨{ frames := names, samples, weights := entries.map CollapsedEntry.count,
            endValue := (entries.map CollapsedEntry.count).sum }, ?_, hrange, ?_, rfl, ?_⟩
  · rw [utf8_speedscopeText h, speedscopePrint, hsamples]
  · rw [List.length_map]
    exact hstacks.length_eq
  · exact (congrArg (List.zip · _) hstack).trans List.zip_map'

/-- Documents that show the same profile are the same. -/
theorem speedscopeAgrees_iff_perm {entries : List CollapsedEntry} {opts : Option PtDecodeOpts} :
    SpeedscopeAgrees entries opts ↔
      (∃ names : List Text, names.map utf8 = (speedscopeFrames entries).map shownName) ∧
        (entries.map fun e => (shownStack e.stack, e.count)).Perm
          ((collapsedLines entries opts).map fun e => (e.stack, e.count)) := by
  constructor
  · rintro ⟨doc, v, p, hdoc, hparse, hread, hshows⟩
    obtain ⟨rest, hrest⟩ := exists_utf8_of_ascii_append speedscopeHead_ascii hdoc
    obtain ⟨names, hnames⟩ := exists_shownNames hrest.symm
    obtain ⟨q, htext, -, -, -, hlines⟩ := exists_profile hnames
    obtain rfl := utf8_injective (hdoc.trans htext.symm)
    obtain rfl := Option.some.inj ((parse_speedscopeText q).symm.trans hparse)
    obtain rfl := Option.some.inj ((readSpeedscope_object q).symm.trans hread)
    exact ⟨⟨names, hnames⟩, hlines ▸ hshows.perm⟩
  · rintro ⟨⟨names, hnames⟩, hperm⟩
    obtain ⟨p, htext, hrange, hlen, hend, hlines⟩ := exists_profile hnames
    exact ⟨_, _, p, htext, parse_speedscopeText p, readSpeedscope_object p, hrange, hlen, hend, hlines ▸ hperm⟩

/-! ## Lines -/

theorem collapsedLines_perm {entries : List CollapsedEntry} {opts : Option PtDecodeOpts}
    (h : ∀ e ∈ entries, collapsedStackMatches e.stack opts = true) : (collapsedLines entries opts).Perm entries := by
  have hall : collapsedLines entries opts = entries.mergeSort collapsedCmpCount :=
    List.filter_eq_self.2 fun e he => h e (List.mem_mergeSort.1 he)
  rw [hall]
  exact List.mergeSort_perm entries collapsedCmpCount

/-- As many lines as entries: the filter drops none of them. -/
theorem matches_of_length {entries : List CollapsedEntry} {opts : Option PtDecodeOpts}
    (h : entries.length = (collapsedLines entries opts).length) :
    ∀ e ∈ entries, collapsedStackMatches e.stack opts = true := by
  have hsorted : (entries.mergeSort collapsedCmpCount).length = entries.length := List.length_mergeSort entries
  have hall := List.length_filter_eq_length_iff.1 (h.symm.trans hsorted.symm)
  exact fun e he => hall e (List.mem_mergeSort.2 he)

/-- No shown stack is longer than the stack, so none is shorter when the lines are the same. -/
theorem length_shownStack_of_perm {entries : List CollapsedEntry}
    (h : (entries.map fun e => (shownStack e.stack, e.count)).Perm (entries.map fun e => (e.stack, e.count))) :
    ∀ e ∈ entries, e.stack.length ≤ (shownStack e.stack).length := by
  have hsum := (h.map fun x => x.1.length).sum_eq
  simp only [List.map_map, Function.comp_def] at hsum
  intro e he
  by_contra hshort
  have hlt := List.sum_lt_sum (fun e : CollapsedEntry => (shownStack e.stack).length) (fun e => e.stack.length)
    (fun e _ => (shownStack_length_le e.stack).1) ⟨e, he, Nat.lt_of_not_le hshort⟩
  omega

/-- Every part of a name that is printed is UTF-8. -/
theorem exists_names_iff {entries : List CollapsedEntry} :
    (∃ names : List Text, names.map utf8 = (speedscopeFrames entries).map shownName) ↔
      ∀ e ∈ entries, ∀ tok ∈ strtok 59 e.stack, ∃ cs, utf8 cs = shownName tok := by
  have hrange : (∃ names : List Text, names.map utf8 = (speedscopeFrames entries).map shownName) ↔
      ∀ x ∈ (speedscopeFrames entries).map shownName, ∃ cs, utf8 cs = x :=
    Set.ext_iff.1 (Set.range_list_map utf8) _
  rw [hrange, List.forall_mem_map]
  constructor
  · exact fun h e he tok htok => h tok (mem_speedscopeFrames.2 ⟨e, he, htok⟩)
  · intro h tok htok
    obtain ⟨e, he, hmem⟩ := mem_speedscopeFrames.1 htok
    exact h e he tok hmem

theorem mem_strtok {stack tok : CString} : tok ∈ strtok 59 stack ↔ tok ∈ stack.splitOn 59 ∧ tok ≠ [] := by
  simp [strtok]

end ObservableBSD.Decode
