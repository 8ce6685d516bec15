import ObservableBSD.Export.Collapsed

/-!
# Folded stacks

What one event adds, how often a stack is counted, and when two stacks are one line.
-/

namespace ObservableBSD.Export

open Base

variable {s t : Sample} {ss : List Sample} {event : ProbeEvent} {events : List ProbeEvent}

/-! ## The text of a stack -/

/-- The text that is counted for a sample. -/
def Sample.path (s : Sample) : Text := [';'].intercalate s.parts

theorem isPresent_eq (stack : Option (List StackFrame)) :
    isPresent stack = decide ((stack.getD []).map StackFrame.formatted ≠ []) := by
  cases stack with
  | none => rfl
  | some frames => cases frames <;> rfl

theorem rootFirst_eq (stack : Option (List StackFrame)) :
    rootFirst stack = ((stack.getD []).map StackFrame.formatted).reverse := by
  rw [rootFirst, List.map_reverse]

theorem buildStackString_eq (event : ProbeEvent) :
    buildStackString event = if event.sample.HasFrames then event.sample.path else [] := by
  unfold buildStackString Sample.HasFrames Sample.path Sample.parts ProbeEvent.sample
  simp only [isPresent_eq, rootFirst_eq]
  generalize (event.stack.getD []).map StackFrame.formatted = kernel
  generalize (event.ustack.getD []).map StackFrame.formatted = user
  by_cases hk : kernel = [] <;> by_cases hu : user = [] <;> simp [hk, hu]

theorem parts_ne_nil (s : Sample) : s.parts ≠ [] := List.cons_ne_nil _ _

theorem Sample.HasFrames.path_ne_nil (h : s.HasFrames) : s.path ≠ [] := by
  have htail : s.kernel.reverse ++ (if s.kernel ≠ [] ∧ s.user ≠ [] then [text "--"] else []) ++
    s.user.reverse ≠ [] := by
    rcases h with h | h <;> simp [h]
  obtain ⟨part, parts, hparts⟩ := List.exists_cons_of_ne_nil htail
  rw [Sample.path, Sample.parts, hparts]
  simp [List.intercalate]

/-! ## When two stacks are one line -/

theorem Sample.Plain.notMem_parts (h : s.Plain) {c : Char} (hc : c = ';' ∨ c = '\n') : ∀ part ∈ s.parts, c ∉ part := by
  have hframe : ∀ f ∈ s.kernel ++ s.user, c ∉ f := fun f hf => by
    rcases hc with rfl | rfl
    · exact (h.frames f hf).1
    · exact (h.frames f hf).2.1
  intro part hpart
  simp only [Sample.parts, List.mem_cons, List.mem_append, List.mem_reverse] at hpart
  rcases hpart with rfl | (hk | hsep) | hu
  · rcases hc with rfl | rfl
    · exact h.execname.1
    · exact h.execname.2
  · exact hframe part (List.mem_append_left _ hk)
  · split at hsep
    · rw [List.mem_singleton.1 hsep]
      rcases hc with rfl | rfl <;> decide
    · cases hsep
  · exact hframe part (List.mem_append_right _ hu)

theorem Sample.Plain.path_inj (hs : s.Plain) (ht : t.Plain) (h : s.path = t.path) : s.parts = t.parts := by
  rw [← List.splitOn_intercalate ';' (hs.notMem_parts (.inl rfl)) (parts_ne_nil s),
    ← List.splitOn_intercalate ';' (ht.notMem_parts (.inl rfl)) (parts_ne_nil t)]
  exact congrArg (List.splitOn ';') h

theorem parts_of_both (hk : s.kernel ≠ []) (hu : s.user ≠ []) :
    s.parts = s.execname :: (s.kernel.reverse ++ text "--" :: s.user.reverse) := by
  rw [Sample.parts, if_pos ⟨hk, hu⟩]
  simp

theorem parts_of_one (h : s.kernel = [] ∨ s.user = []) : s.parts = s.execname :: (s.user ++ s.kernel).reverse := by
  rw [Sample.parts, if_neg fun hboth => h.elim hboth.1 hboth.2]
  simp

theorem Sample.Plain.separator_notMem (h : s.Plain) :
    text "--" ∉ s.kernel ∧ text "--" ∉ s.user ∧ text "--" ∉ (s.user ++ s.kernel).reverse := by
  have hnot : ∀ f ∈ s.kernel ++ s.user, f ≠ text "--" := fun f hf => (h.frames f hf).2.2
  refine ⟨fun hmem => ?_, fun hmem => ?_, fun hmem => ?_⟩
  · exact hnot _ (List.mem_append_left _ hmem) rfl
  · exact hnot _ (List.mem_append_right _ hmem) rfl
  · rw [List.mem_reverse, List.mem_append, or_comm, ← List.mem_append] at hmem
    exact hnot _ hmem rfl

/-- Frames of one stack only are told from frames of both, but not by the stack that they are of. -/
theorem Sample.Plain.path_eq_iff (hs : s.Plain) (ht : t.Plain) : s.path = t.path ↔ s.Shares t := by
  have hseps := hs.separator_notMem
  have hsept := ht.separator_notMem
  have hmem (k u : List Text) : text "--" ∈ k.reverse ++ text "--" :: u.reverse := by simp
  constructor
  · intro h
    have hparts := hs.path_inj ht h
    by_cases hboth : s.kernel ≠ [] ∧ s.user ≠ []
    · rw [parts_of_both hboth.1 hboth.2] at hparts
      by_cases hboth' : t.kernel ≠ [] ∧ t.user ≠ []
      · rw [parts_of_both hboth'.1 hboth'.2, List.cons.injEq, List.append_cons_inj_of_notMem (by simpa using hseps.1)
          (by simpa using hseps.2.1)] at hparts
        exact ⟨hparts.1, .inl ⟨List.reverse_injective hparts.2.1, List.reverse_injective hparts.2.2.2⟩⟩
      · rw [parts_of_one (by tauto), List.cons.injEq] at hparts
        exact absurd (hparts.2 ▸ hmem s.kernel s.user) hsept.2.2
    · have hone : s.kernel = [] ∨ s.user = [] := by tauto
      rw [parts_of_one hone] at hparts
      by_cases hboth' : t.kernel ≠ [] ∧ t.user ≠ []
      · rw [parts_of_both hboth'.1 hboth'.2, List.cons.injEq] at hparts
        exact absurd (hparts.2.symm ▸ hmem t.kernel t.user) hseps.2.2
      · have hone' : t.kernel = [] ∨ t.user = [] := by tauto
        rw [parts_of_one hone', List.cons.injEq] at hparts
        have hframes : s.user ++ s.kernel = t.user ++ t.kernel := List.reverse_injective hparts.2
        refine ⟨hparts.1, ?_⟩
        rcases hone with hk | hu <;> rcases hone' with hk' | hu'
        · rw [hk, hk', List.append_nil, List.append_nil] at hframes
          exact .inl ⟨hk.trans hk'.symm, hframes⟩
        · rw [hk, hu', List.append_nil, List.nil_append] at hframes
          exact .inr (.inr ⟨hframes, hk, hu'⟩)
        · rw [hu, hk', List.append_nil, List.nil_append] at hframes
          exact .inr (.inl ⟨hframes, hu, hk'⟩)
        · rw [hu, hu', List.nil_append, List.nil_append] at hframes
          exact .inl ⟨hframes, hu.trans hu'.symm⟩
  · rintro ⟨hname, hframes⟩
    unfold Sample.path
    rcases hframes with ⟨hk, hu⟩ | ⟨hframes, hu, hk⟩ | ⟨hframes, hk, hu⟩
    · rw [Sample.parts, Sample.parts, hname, hk, hu]
    · rw [parts_of_one (.inr hu), parts_of_one (.inl hk), hname, hu, hk, hframes, List.append_nil, List.nil_append]
    · rw [parts_of_one (.inl hk), parts_of_one (.inr hu), hname, hu, hk, hframes, List.append_nil, List.nil_append]

/-! ## The count of a stack -/

/-- The stacks that are counted. -/
def paths (events : List ProbeEvent) : List Text := (samples events).map Sample.path

theorem samples_concat (events : List ProbeEvent) (event : ProbeEvent) :
    samples (events ++ [event]) = samples events ++ if event.sample.HasFrames then [event.sample] else [] := by
  rw [samples, List.map_append, List.filter_append, ← samples]
  by_cases h : event.sample.HasFrames <;> simp [h]

theorem plain_of_mem (hplain : ∀ e ∈ events, e.sample.Plain) (h : s ∈ samples events) : s.Plain := by
  obtain ⟨e, he, rfl⟩ := List.mem_map.1 (List.mem_filter.1 h).1
  exact hplain e he

theorem emit_of_hasFrames (h : event.sample.HasFrames) (x : CollapsedStackExporter) : x.emit event =
    if countIn x.folded event.sample.path + 1 < 2 ^ 64 then some { x with folded := bump x.folded event.sample.path }
    else none := by
  have hne : event.sample.path.isEmpty = false := by simpa using h.path_ne_nil
  unfold CollapsedStackExporter.emit
  simp only [buildStackString_eq, if_pos h, hne]
  rfl

theorem emit_of_not_hasFrames (h : ¬ event.sample.HasFrames) (x : CollapsedStackExporter) : x.emit event = some x := by
  unfold CollapsedStackExporter.emit
  simp only [buildStackString_eq, if_neg h]
  rfl

theorem paths_of_hasFrames (h : event.sample.HasFrames) (events : List ProbeEvent) :
    paths (events ++ [event]) = paths events ++ [event.sample.path] := by
  rw [paths, samples_concat, if_pos h, List.map_append, List.map_singleton, paths]

theorem paths_of_not_hasFrames (h : ¬ event.sample.HasFrames) (events : List ProbeEvent) :
    paths (events ++ [event]) = paths events := by
  rw [paths, samples_concat, if_neg h, List.append_nil, paths]

/-- Every element of a list stands there fewer than `n` times. -/
def CountsBelow {α : Type} [DecidableEq α] (n : Nat) (l : List α) : Prop := ∀ a ∈ l, l.count a < n

instance {α : Type} [DecidableEq α] (n : Nat) (l : List α) : Decidable (CountsBelow n l) :=
  inferInstanceAs (Decidable (∀ a ∈ l, _))

theorem countsBelow_iff_countP {α : Type} [DecidableEq α] {n : Nat} {l : List α} :
    CountsBelow n l ↔ ∀ a ∈ l, (l.countP fun b => b = a) < n := Iff.rfl

theorem CountsBelow.perm {α : Type} [DecidableEq α] {n : Nat} {l l' : List α} (h : CountsBelow n l)
    (hperm : l'.Perm l) :
    CountsBelow n l' := fun a ha => by
  rw [hperm.count_eq]
  exact h a (hperm.mem_iff.1 ha)

theorem countsBelow_concat {α : Type} [DecidableEq α] {n : Nat} {l : List α} {a : α} :
    CountsBelow n (l ++ [a]) ↔ CountsBelow n l ∧ l.count a + 1 < n := by
  unfold CountsBelow
  constructor
  · intro h
    refine ⟨fun b hb => ?_, ?_⟩
    · have hlt := h b (List.mem_append_left _ hb)
      rw [List.count_append] at hlt
      omega
    · have hlt := h a (List.mem_append_right _ List.mem_cons_self)
      rwa [List.count_append, List.count_singleton_self] at hlt
  · rintro ⟨hl, ha⟩ b hb
    rw [List.count_append, List.count_singleton]
    by_cases hab : a = b
    · subst hab
      simpa using ha
    · have hmem : b ∈ l := (List.mem_append.1 hb).resolve_right fun h => hab (List.mem_singleton.1 h).symm
      simpa [hab] using hl b hmem

/-- The dictionary tallies the stacks, as long as none is counted too often. -/
theorem emitAll_eq (events : List ProbeEvent) : CollapsedStackExporter.emitAll {} events =
    if CountsBelow (2 ^ 64) (paths events) then some { folded := tally (paths events) } else none := by
  induction events using List.reverseRecOn with
  | nil => rfl
  | append_singleton events event ih =>
      have hstep : CollapsedStackExporter.emitAll {} (events ++ [event]) =
          (CollapsedStackExporter.emitAll {} events).bind fun x => x.emit event := by
        simp [CollapsedStackExporter.emitAll, List.foldlM_append]
      rw [hstep, ih]
      by_cases hbelow : CountsBelow (2 ^ 64) (paths events)
      · rw [if_pos hbelow, Option.bind_some]
        by_cases hframes : event.sample.HasFrames
        · rw [emit_of_hasFrames hframes, paths_of_hasFrames hframes, tally_concat, countIn_tally]
          simp only [countsBelow_concat, hbelow, true_and]
        · rw [emit_of_not_hasFrames hframes, paths_of_not_hasFrames hframes, if_pos hbelow]
      · have hnot : ¬ CountsBelow (2 ^ 64) (paths (events ++ [event])) := fun h => by
          by_cases hframes : event.sample.HasFrames
          · rw [paths_of_hasFrames hframes] at h
            exact hbelow (countsBelow_concat.1 h).1
          · rw [paths_of_not_hasFrames hframes] at h
            exact hbelow h
        rw [if_neg hbelow, if_neg hnot]
        rfl

/-! ## The printed lines -/

/-- However the dictionary is walked through, the entries are printed in one order. -/
theorem mergeSort_eq_of_perm {u v : List (Text × Nat)} (h : u.Perm v) (hnodup : (v.map Prod.fst).Nodup) :
    (u.mergeSort fun a b => a.1 ≤ b.1) = v.mergeSort fun a b => a.1 ≤ b.1 := by
  have hsorted (w : List (Text × Nat)) : (w.mergeSort fun a b => a.1 ≤ b.1).Pairwise fun a b => a.1 ≤ b.1 := by
    have htotal (a b : Text × Nat) : (decide (a.1 ≤ b.1) || decide (b.1 ≤ a.1)) = true := by
      simpa using le_total a.1 b.1
    have htrans (a b c : Text × Nat) (hab : decide (a.1 ≤ b.1) = true) (hbc : decide (b.1 ≤ c.1) = true) :
        decide (a.1 ≤ c.1) = true :=
      decide_eq_true (le_trans (of_decide_eq_true hab) (of_decide_eq_true hbc))
    have hpairwise : (w.mergeSort fun a b => a.1 ≤ b.1).Pairwise fun a b => decide (a.1 ≤ b.1) = true :=
      List.pairwise_mergeSort htrans htotal w
    simpa using hpairwise
  refine List.Perm.eq_of_pairwise (fun a b ha hb hab hba => ?_) (hsorted u) (hsorted v) ?_
  · have hu : a ∈ v := h.mem_iff.1 (List.mem_mergeSort.1 ha)
    exact List.inj_on_of_nodup_map hnodup hu (List.mem_mergeSort.1 hb) (le_antisymm hab hba)
  · exact ((List.mergeSort_perm u _).trans h).trans (List.mergeSort_perm v _).symm

theorem notMem_intercalate {c : Char} (hc : c ≠ ';') {parts : List Text} (h : ∀ part ∈ parts, c ∉ part) :
    c ∉ [';'].intercalate parts := by
  induction parts with
  | nil => exact List.not_mem_nil
  | cons part parts ih =>
      have hpart : c ∉ part := h part List.mem_cons_self
      have hrest : c ∉ [';'].intercalate parts := ih fun p hp => h p (List.mem_cons_of_mem _ hp)
      cases parts with
      | nil => simpa using hpart
      | cons next parts =>
          rw [List.intercalate_cons_cons]
          simp [hpart, hrest, hc]

theorem natText_plain {n : Nat} {c : Char} (h : c ∈ natText n) : c ≠ ' ' ∧ c ≠ '\n' := by
  have hdigit : c.isDigit = true := Nat.isDigit_of_mem_toDigits (by decide) (by decide) h
  constructor
  · rintro rfl
    cases hdigit
  · rintro rfl
    cases hdigit

theorem front_of_last {c : Char} {p q u v : Text} (hu : c ∉ u) (hv : c ∉ v) (h : p ++ c :: u = q ++ c :: v) :
    p = q := by
  have hcons {d u v : Text} (hu : c ∉ u) (h : c :: u = d ++ c :: v) : d = [] := by
    cases d with
    | nil => rfl
    | cons e d => exact absurd ((List.cons.inj h).2 ▸ List.mem_append_right d List.mem_cons_self) hu
  rcases List.append_eq_append_iff.1 h with ⟨d, rfl, hd⟩ | ⟨d, rfl, hd⟩
  · rw [hcons hu hd, List.append_nil]
  · rw [hcons hv hd, List.append_nil]

def foldedLine (entry : Text × Nat) : Text := entry.1 ++ text " " ++ natText entry.2 ++ text "\n"

/-- The stack of a line is what stands in front of its last blank. -/
theorem foldedLine_inj {a b : Text × Nat} (h : foldedLine a = foldedLine b) : a.1 = b.1 := by
  have hline : a.1 ++ ' ' :: (natText a.2 ++ ['\n']) = b.1 ++ ' ' :: (natText b.2 ++ ['\n']) := by
    simpa [foldedLine, text] using h
  have hblank (n : Nat) : ' ' ∉ natText n ++ ['\n'] := by
    simpa using fun hmem => (natText_plain hmem).1 rfl
  exact front_of_last (hblank a.2) (hblank b.2) hline

theorem shutdown_eq (snapshot : List (Text × Nat)) : CollapsedStackExporter.shutdown snapshot =
    (snapshot.mergeSort fun a b => a.1 ≤ b.1).map foldedLine := rfl

theorem exists_samples {entries : List (Text × Nat)} (h : ∀ e ∈ entries, ∃ s ∈ ss, s.path = e.1) :
    ∃ lines : List (Sample × Nat), entries = lines.map (fun l => (l.1.path, l.2)) ∧ ∀ l ∈ lines, l.1 ∈ ss := by
  induction entries with
  | nil => exact ⟨[], rfl, fun l hl => by cases hl⟩
  | cons e entries ih =>
      obtain ⟨⟨s, hs, hpath⟩, hrest⟩ := List.forall_mem_cons.1 h
      obtain ⟨lines, rfl, hlines⟩ := ih hrest
      refine ⟨(s, e.2) :: lines, ?_, List.forall_mem_cons.2 ⟨hs, hlines⟩⟩
      rw [List.map_cons, hpath]

theorem printsFolded_of_perm {entries : List (Text × Nat)} (hperm : entries.Perm (tally (ss.map Sample.path)))
    (hplain : ∀ s ∈ ss, s.Plain) : PrintsFolded ss (entries.map foldedLine) := by
  have hmem {e : Text × Nat} : e ∈ entries ↔
      e.1 ∈ ss.map Sample.path ∧ e.2 = (ss.map Sample.path).countP fun p => p = e.1 := by
    rw [hperm.mem_iff, ← mem_tally_iff_countP]
  have hnodup : (entries.map Prod.fst).Nodup := (hperm.map Prod.fst).nodup_iff.2 (nodup_map_fst_tally _)
  have hshares {s t : Sample} (hs : s ∈ ss) (ht : t ∈ ss) : t.path = s.path ↔ s.Shares t := by
    rw [eq_comm, (hplain s hs).path_eq_iff (hplain t ht)]
  have hsamples : ∀ e ∈ entries, ∃ s ∈ ss, s.path = e.1 := fun e he => List.mem_map.1 (hmem.1 he).1
  obtain ⟨lines, rfl, hmember⟩ := exists_samples hsamples
  have hstacks : (lines.map fun l => (l.1.path, l.2)).map Prod.fst = lines.map fun l => l.1.path := by
    rw [List.map_map]
    rfl
  refine ⟨⟨lines, ⟨hmember, fun l hl => ?_, fun s hs => ?_, ?_⟩, ?_⟩, ?_, ?_⟩
  · have hentry : (l.1.path, l.2) ∈ lines.map fun l => (l.1.path, l.2) := List.mem_map_of_mem hl
    rw [(hmem.1 hentry).2, List.countP_map]
    exact List.countP_congr fun s hs => by simpa using hshares (hmember l hl) hs
  · have hpath : s.path ∈ lines.map fun l => l.1.path := by
      have hentry : (s.path, (ss.map Sample.path).countP fun p => p = s.path) ∈ lines.map fun l => (l.1.path, l.2) :=
        hmem.2 ⟨List.mem_map_of_mem hs, rfl⟩
      rw [← hstacks]
      exact List.mem_map_of_mem hentry
    rw [hstacks] at hnodup
    have hone := List.count_eq_one_of_mem hnodup hpath
    rw [List.count, List.countP_map] at hone
    rw [← hone]
    exact List.countP_congr fun l hl => by simpa using (hshares hs (hmember l hl)).symm
  · have hsum := (hperm.map Prod.snd).sum_nat
    rw [sum_tally, List.length_map, List.map_map] at hsum
    exact hsum
  · rw [List.map_map]
    rfl
  · intro t ht
    obtain ⟨e, he, rfl⟩ := List.mem_map.1 ht
    obtain ⟨s, hs, hpath⟩ := List.mem_map.1 (hmem.1 he).1
    refine ⟨e.1 ++ text " " ++ natText e.2, rfl, ?_⟩
    have hline : '\n' ∉ e.1 := hpath ▸ notMem_intercalate (by decide) ((hplain s hs).notMem_parts (.inr rfl))
    have hdigits : '\n' ∉ natText e.2 := fun h => (natText_plain h).2 rfl
    simp [text, hline, hdigits]
  · exact hnodup.of_map _ |>.map_on fun a ha b hb h => List.inj_on_of_nodup_map hnodup ha hb (foldedLine_inj h)

end ObservableBSD.Export
