import ObservableBSD.Instruments.Firing

/-!
# The handler over the lines of a firing
-/

namespace ObservableBSD.Instruments

open Base Export

variable {boundary : CharacterBoundary} {cfg : WatchConfig} {s : WatchState} {f : Firing} {line : Text}
  {lines : List Text}

/-! ## One line -/

theorem trimmed_ne_of_frame (h : isStackFrame boundary line = true) : trimmed line ≠ [] := by
  intro hnil
  unfold isStackFrame at h
  rw [hnil] at h
  simp [hasPrefix, scalars, scalarsIn, standsIn] at h

theorem handleLine_blank (h : trimmed line = []) : handleLine cfg s line = s := by
  simp [handleLine, h]

theorem handleLine_kernel (h : isStackFrame cfg.boundary line = true) (hu : s.inUStack = false) :
    handleLine cfg s line =
      { s with pendingKStack := s.pendingKStack ++ [parseStackFrame cfg.boundary (trimmed line)] } := by
  simp [handleLine, trimmed_ne_of_frame h, h, hu]

theorem handleLine_user (h : isStackFrame cfg.boundary line = true) (hu : s.inUStack = true) :
    handleLine cfg s line =
      { s with pendingUStack := s.pendingUStack ++ [parseStackFrame cfg.boundary (trimmed line)] } := by
  simp [handleLine, trimmed_ne_of_frame h, h, hu]

theorem trimmed_ustackMarker : trimmed ustackMarker = ustackMarker := by decide

theorem handleLine_marker : handleLine cfg s ustackMarker = { s with inUStack := true } := by
  have hne : ustackMarker ≠ [] := by decide
  have hframe : isStackFrame cfg.boundary ustackMarker = false := rfl
  simp [handleLine, trimmed_ustackMarker, hne, hframe]

theorem handleLine_body (h : f.Classified cfg.boundary) : handleLine cfg s f.body =
    { flushPending cfg s with
      pendingBody := some (trimmed f.body)
      pendingTimestamp := cfg.clock (flushPending cfg s).dates
      dates := (flushPending cfg s).dates + 1 } := by
  simp [handleLine, h.body_ne, h.body_not_frame, h.body_ne_marker]

/-! ## Many lines -/

theorem foldl_handleLine_filter (lines : List Text) (s : WatchState) :
    (lines.filter fun line => trimmed line ≠ []).foldl (handleLine cfg) s = lines.foldl (handleLine cfg) s := by
  induction lines generalizing s with
  | nil => rfl
  | cons line lines ih =>
      by_cases h : trimmed line = []
      · rw [List.filter_cons_of_neg (by simpa using h), List.foldl_cons, handleLine_blank h]
        exact ih s
      · rw [List.filter_cons_of_pos (by simpa using h), List.foldl_cons, List.foldl_cons]
        exact ih _

theorem foldl_onBufferedOutput (calls : List BufferedOutput) (s : WatchState) :
    calls.foldl (onBufferedOutput cfg) s = (calls.flatMap (·.lines)).foldl (handleLine cfg) s := by
  induction calls generalizing s with
  | nil => rfl
  | cons call calls ih =>
      rw [List.foldl_cons, List.flatMap_cons, List.foldl_append, ih]
      rfl

theorem foldl_handleLine_kernel (h : ∀ line ∈ lines, isStackFrame cfg.boundary line = true) (hu : s.inUStack = false) :
    lines.foldl (handleLine cfg) s = { s with pendingKStack := s.pendingKStack ++ framesOf cfg.boundary lines } := by
  induction lines generalizing s with
  | nil => simp [framesOf]
  | cons line lines ih =>
      rw [List.foldl_cons, handleLine_kernel (h line List.mem_cons_self) hu,
        ih fun l hl => h l (List.mem_cons_of_mem _ hl)]
      · simp [framesOf]
      · exact hu

theorem foldl_handleLine_user (h : ∀ line ∈ lines, isStackFrame cfg.boundary line = true) (hu : s.inUStack = true) :
    lines.foldl (handleLine cfg) s = { s with pendingUStack := s.pendingUStack ++ framesOf cfg.boundary lines } := by
  induction lines generalizing s with
  | nil => simp [framesOf]
  | cons line lines ih =>
      rw [List.foldl_cons, handleLine_user (h line List.mem_cons_self) hu,
        ih fun l hl => h l (List.mem_cons_of_mem _ hl)]
      · simp [framesOf]
      · exact hu

/-! ## One firing -/

def WatchState.Settled (s : WatchState) : Prop :=
  s.pendingBody = none → s.pendingKStack = [] ∧ s.pendingUStack = [] ∧ s.inUStack = false

structure WatchState.Empty (s : WatchState) : Prop where
  body : s.pendingBody = none
  kernel : s.pendingKStack = []
  user : s.pendingUStack = []
  mode : s.inUStack = false

theorem settled_watchInit (cfg : WatchConfig) : (watchInit cfg).Settled := fun _ => ⟨rfl, rfl, rfl⟩

theorem WatchState.Settled.flush (h : s.Settled) (cfg : WatchConfig) : (flushPending cfg s).Empty := by
  unfold flushPending
  cases hb : s.pendingBody with
  | none =>
      obtain ⟨hk, hu, hm⟩ := h hb
      exact ⟨hb, hk, hu, hm⟩
  | some body => exact ⟨rfl, rfl, rfl, rfl⟩

/-- The lines that go to `pendingKStack`: unmarked user frames do. -/
def Firing.kernelLines (withStack withUstack : Bool) (f : Firing) : List Text :=
  if withStack then f.kernel else if withUstack then f.user else []

def Firing.userLines (withStack withUstack : Bool) (f : Firing) : List Text :=
  if withStack && withUstack then f.user else []

/-- The lines of a firing flush the event before it and leave its own pending. -/
theorem foldl_handleLine_firing (hs : s.Settled) (hf : f.Classified cfg.boundary) (withStack withUstack : Bool) :
    (f.lines withStack withUstack).foldl (handleLine cfg) s =
      { flushPending cfg s with
        pendingBody := some (trimmed f.body)
        pendingKStack := framesOf cfg.boundary (f.kernelLines withStack withUstack)
        pendingUStack := framesOf cfg.boundary (f.userLines withStack withUstack)
        pendingTimestamp := cfg.clock (flushPending cfg s).dates
        inUStack := withStack && withUstack
        dates := (flushPending cfg s).dates + 1 } := by
  obtain ⟨_, hk, hu, hm⟩ := hs.flush cfg
  rw [Firing.lines, List.foldl_cons, handleLine_body hf]
  cases withStack <;> cases withUstack <;>
    simp only [renderedActions, stackActions, ustackActions, List.flatMap_cons, List.flatMap_nil,
      List.nil_append, List.append_nil, List.cons_append, Bool.false_eq_true, if_true, if_false,
      Action.lines, Firing.kernelLines, Firing.userLines, Bool.and_true, Bool.and_false, List.foldl_append,
      List.foldl_nil, List.foldl_cons]
  · simp [framesOf, hk, hu, hm]
  · rw [foldl_handleLine_kernel hf.user]
    · simp [framesOf, hk, hu, hm]
    · exact hm
  · rw [foldl_handleLine_kernel hf.kernel]
    · simp [framesOf, hk, hu, hm]
    · exact hm
  · rw [foldl_handleLine_kernel hf.kernel, handleLine_marker, foldl_handleLine_user hf.user]
    · simp [framesOf, hk, hu]
    · rfl
    · exact hm

/-! ## A run -/

def Firing.eventStacks (boundary : CharacterBoundary) (withStack withUstack : Bool) (f : Firing) :
    Option Text × Option (List StackFrame) × Option (List StackFrame) :=
  (some (trimmed f.body), framesOrNil (framesOf boundary (f.kernelLines withStack withUstack)),
    framesOrNil (framesOf boundary (f.userLines withStack withUstack)))

theorem emitted_firings (hs : s.Settled) {firings : List Firing} (hf : ∀ f ∈ firings, f.Classified cfg.boundary)
    (withStack withUstack : Bool) :
    (flushPending cfg ((firings.flatMap (·.lines withStack withUstack)).foldl (handleLine cfg) s)).emitted.map
        stacksOf =
      (flushPending cfg s).emitted.map stacksOf ++ firings.map (·.eventStacks cfg.boundary withStack withUstack) := by
  induction firings generalizing s with
  | nil => simp
  | cons f firings ih =>
      rw [List.flatMap_cons, List.foldl_append,
        foldl_handleLine_firing hs (hf f List.mem_cons_self),
        ih _ fun g hg => hf g (List.mem_cons_of_mem _ hg)]
      · simp [flushPending, WatchState.event, stacksOf, Firing.eventStacks]
      · intro hnone
        cases hnone

theorem structuredEvents_stacks {firings : List Firing} {calls : List BufferedOutput}
    {withStack withUstack : Bool} (hf : ∀ f ∈ firings, f.Classified cfg.boundary)
    (hd : Delivers withStack withUstack firings calls) :
    (structuredEvents cfg calls).map stacksOf = firings.map (·.eventStacks cfg.boundary withStack withUstack) := by
  unfold structuredEvents
  rw [foldl_onBufferedOutput, ← foldl_handleLine_filter, hd, emitted_firings (settled_watchInit cfg) hf]
  rfl

theorem framesOrNil_framesOf_nil : framesOrNil (framesOf boundary []) = none := rfl

theorem framesOrNil_framesOf_eq_none {lines : List Text} :
    framesOrNil (framesOf boundary lines) = none ↔ lines = [] := by
  unfold framesOrNil framesOf
  cases lines <;> simp

/-- A firing keeps its frames unless its user frames come without a marker. -/
theorem Firing.eventStacks_eq_iff (boundary : CharacterBoundary) (withStack withUstack : Bool) (f : Firing) :
    f.eventStacks boundary withStack withUstack = f.stacks boundary withStack withUstack ↔
      (withStack = true ∨ withUstack = false ∨ f.user = []) := by
  cases withStack <;> cases withUstack <;>
    simp only [Firing.eventStacks, Firing.stacks, Firing.kernelLines, Firing.userLines, Prod.mk.injEq,
      if_true, Bool.false_eq_true, if_false, Bool.and_true, Bool.and_false, true_or, or_true, true_and,
      false_or, reduceCtorEq, framesOrNil_framesOf_nil]
  rw [framesOrNil_framesOf_eq_none, @eq_comm _ none, framesOrNil_framesOf_eq_none, and_self]

end ObservableBSD.Instruments
