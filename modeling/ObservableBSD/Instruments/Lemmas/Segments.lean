import ObservableBSD.Instruments.Lemmas.Text
import ObservableBSD.Instruments.Lemmas.WatchRunner
import ObservableBSD.Instruments.Segments

/-!
# The handler over segments
-/

namespace ObservableBSD.Instruments

open Base Export

variable {boundary : CharacterBoundary} {cfg : WatchConfig} {s : WatchState} {line : Text} {lines : List Text}

/-! ## Kinds of lines -/

theorem isStackFrame_of_kind (h : lineKind boundary line ≠ .frame) : isStackFrame boundary line = false := by
  cases hf : isStackFrame boundary line with
  | false => rfl
  | true =>
      refine absurd ?_ h
      rw [lineKind, if_neg (trimmed_ne_of_frame hf), if_pos hf]

theorem isStackFrame_iff_kind : isStackFrame boundary line = true ↔ lineKind boundary line = .frame := by
  constructor
  · intro hf
    rw [lineKind, if_neg (trimmed_ne_of_frame hf), if_pos hf]
  · intro hk
    unfold lineKind at hk
    split at hk
    · cases hk
    split at hk
    · assumption
    split at hk
    · cases hk
    · cases hk

theorem trimmed_of_marker (h : lineKind boundary line = .marker) : trimmed line = ustackMarker := by
  unfold lineKind at h
  split at h
  · cases h
  split at h
  · cases h
  split at h
  · assumption
  · cases h

theorem trimmed_of_blank (h : lineKind boundary line = .blank) : trimmed line = [] := by
  unfold lineKind at h
  split at h
  · assumption
  split at h
  · cases h
  split at h
  · cases h
  · cases h

theorem handleLine_of_marker (h : lineKind cfg.boundary line = .marker) :
    handleLine cfg s line = { s with inUStack := true } := by
  have htrimmed := trimmed_of_marker h
  have hne : trimmed line ≠ [] := by rw [htrimmed]; decide
  have hframe : isStackFrame cfg.boundary line = false := isStackFrame_of_kind (by rw [h]; decide)
  rw [handleLine, if_neg hne, if_neg (by rw [hframe]; decide), if_pos htrimmed]

theorem handleLine_of_body (h : lineKind cfg.boundary line = .body) : handleLine cfg s line =
    { flushPending cfg s with
      pendingBody := some (trimmed line)
      pendingTimestamp := cfg.clock (flushPending cfg s).dates
      dates := (flushPending cfg s).dates + 1 } := by
  have hframe : isStackFrame cfg.boundary line = false := isStackFrame_of_kind (by rw [h]; decide)
  have hne : trimmed line ≠ [] := fun hnil => by rw [lineKind, if_pos hnil] at h; cases h
  have hmarker : trimmed line ≠ ustackMarker := fun hm => by
    rw [lineKind, if_neg hne, if_neg (by rw [hframe]; decide), if_pos hm] at h
    cases h
  rw [handleLine, if_neg hne, if_neg (by rw [hframe]; decide), if_neg hmarker]

/-! ## Lines between two bodies -/

/-- The lines in front of the first marker, or none when a marker was seen already. -/
def unmarked (boundary : CharacterBoundary) (seen : Bool) (lines : List Text) : List Text :=
  if seen then [] else lines.takeWhile fun line => !isMarker boundary line

def marked (boundary : CharacterBoundary) (seen : Bool) (lines : List Text) : List Text :=
  if seen then lines else lines.dropWhile fun line => !isMarker boundary line

/-- The frames are collected behind those that are there. -/
theorem foldl_handleLine_rest (h : ∀ line ∈ lines, isBody cfg.boundary line = false) (s : WatchState) :
    lines.foldl (handleLine cfg) s =
      { s with
        pendingKStack := s.pendingKStack ++
          framesOf cfg.boundary (frameLines cfg.boundary (unmarked cfg.boundary s.inUStack lines))
        pendingUStack := s.pendingUStack ++
          framesOf cfg.boundary (frameLines cfg.boundary (marked cfg.boundary s.inUStack lines))
        inUStack := s.inUStack || lines.any (isMarker cfg.boundary) } := by
  induction lines generalizing s with
  | nil => cases s with | mk _ _ _ _ m _ _ => cases m <;> simp [unmarked, marked, frameLines, framesOf]
  | cons line lines ih =>
      have hrest := ih fun l hl => h l (List.mem_cons_of_mem _ hl)
      have hbody := h line List.mem_cons_self
      rw [List.foldl_cons, hrest]
      cases hk : lineKind cfg.boundary line with
      | blank =>
          have hframe : isStackFrame cfg.boundary line = false := isStackFrame_of_kind (by rw [hk]; decide)
          have hmarker : isMarker cfg.boundary line = false := by simp [isMarker, hk]
          rw [handleLine_blank (trimmed_of_blank hk)]
          cases hm : s.inUStack <;> simp [unmarked, marked, frameLines, hframe, hmarker]
      | frame =>
          have hframe := isStackFrame_iff_kind.2 hk
          have hmarker : isMarker cfg.boundary line = false := by simp [isMarker, hk]
          cases hm : s.inUStack with
          | false =>
              rw [handleLine_kernel hframe hm]
              simp [unmarked, marked, frameLines, hframe, hmarker, hm, framesOf]
          | true =>
              rw [handleLine_user hframe hm]
              simp [unmarked, marked, frameLines, hframe, hm, framesOf]
      | marker =>
          have hframe : isStackFrame cfg.boundary line = false := isStackFrame_of_kind (by rw [hk]; decide)
          have hmarker : isMarker cfg.boundary line = true := by simp [isMarker, hk]
          rw [handleLine_of_marker hk]
          cases hm : s.inUStack <;> simp [unmarked, marked, frameLines, hframe, hmarker]
      | body => simp [isBody, hk] at hbody

/-! ## Segments -/

structure Segment.Cut (g : Segment) (boundary : CharacterBoundary) : Prop where
  body : lineKind boundary g.body = .body
  rest : ∀ line ∈ g.rest, isBody boundary line = false

theorem segments_cut (lines : List Text) : ∀ g ∈ segments boundary lines, g.Cut boundary := by
  induction lines with
  | nil => exact fun g hg => by cases hg
  | cons line lines ih =>
      rw [segments]
      split
      · rename_i hbody
        refine List.forall_mem_cons.2 ⟨⟨by simpa [isBody] using hbody, fun l hl => ?_⟩, ih⟩
        simpa using List.mem_takeWhile_imp hl
      · exact ih

theorem orphans_append_segments (boundary : CharacterBoundary) (lines : List Text) :
    orphans boundary lines ++ (segments boundary lines).flatMap Segment.lines = lines := by
  induction lines with
  | nil => rfl
  | cons line lines ih =>
      unfold orphans at ih ⊢
      cases hbody : isBody boundary line with
      | true => simp [segments, hbody, Segment.lines, ih]
      | false => simp [segments, hbody, ih]

theorem withoutOrphans_eq (lines : List Text) :
    withoutOrphans boundary lines = (segments boundary lines).flatMap Segment.lines := by
  have hcut : orphans boundary lines ++ withoutOrphans boundary lines = lines := List.takeWhile_append_dropWhile
  exact List.append_cancel_left (hcut.trans (orphans_append_segments boundary lines).symm)

theorem withoutOrphans_suffix (lines : List Text) : withoutOrphans boundary lines <:+ lines :=
  List.dropWhile_suffix _

theorem orphans_not_body (lines : List Text) : ∀ line ∈ orphans boundary lines, isBody boundary line = false := by
  intro line hline
  simpa using List.mem_takeWhile_imp hline

/-! ## Events of segments -/

/-- The event of a segment that is read in the state `f`, where nothing is pending. -/
def eventWith (cfg : WatchConfig) (f : WatchState) (g : Segment) : ProbeEvent :=
  { timestamp := cfg.clock f.dates
    profileName := cfg.profileName
    probeName := []
    pid := (parseMetadata cfg.boundary cfg.isNumber (trimmed g.body)).2
    execname := (parseMetadata cfg.boundary cfg.isNumber (trimmed g.body)).1
    printfBody := some (trimmed g.body)
    stack := framesOrNil (f.pendingKStack ++
      framesOf cfg.boundary (frameLines cfg.boundary (unmarked cfg.boundary f.inUStack g.rest)))
    ustack := framesOrNil (f.pendingUStack ++
      framesOf cfg.boundary (frameLines cfg.boundary (marked cfg.boundary f.inUStack g.rest))) }

/-- Nothing is pending, and `dates` readings of the clock were made. -/
def emptyState (dates : Nat) : WatchState := { pendingTimestamp := 0, dates }

def eventsFrom (cfg : WatchConfig) : Nat → List Segment → List ProbeEvent
  | _, [] => []
  | i, g :: gs => eventWith cfg (emptyState i) g :: eventsFrom cfg (i + 1) gs

def eventsWith (cfg : WatchConfig) (f : WatchState) : List Segment → List ProbeEvent
  | [] => []
  | g :: gs => eventWith cfg f g :: eventsFrom cfg (f.dates + 1) gs

theorem eventWith_empty {f : WatchState} (h : f.Empty) (g : Segment) :
    eventWith cfg f g = eventWith cfg (emptyState f.dates) g := by
  unfold eventWith emptyState
  rw [h.kernel, h.user, h.mode]

theorem eventsWith_empty {f : WatchState} (h : f.Empty) (gs : List Segment) :
    eventsWith cfg f gs = eventsFrom cfg f.dates gs := by
  cases gs with
  | nil => rfl
  | cons g gs => rw [eventsWith, eventsFrom, eventWith_empty h]

theorem foldl_handleLine_segment (cfg : WatchConfig) {g : Segment} (hg : g.Cut cfg.boundary) (s : WatchState) :
    flushPending cfg (g.lines.foldl (handleLine cfg) s) =
      { flushPending cfg s with
        pendingBody := none
        pendingKStack := []
        pendingUStack := []
        inUStack := false
        pendingTimestamp := cfg.clock (flushPending cfg s).dates
        dates := (flushPending cfg s).dates + 1
        emitted := (flushPending cfg s).emitted ++ [eventWith cfg (flushPending cfg s) g] } := by
  rw [Segment.lines, List.foldl_cons, handleLine_of_body hg.body, foldl_handleLine_rest hg.rest]
  rfl

/-- Reading more lines starts with what is flushed, as soon as a body line comes. -/
theorem emitted_segments {gs : List Segment} (hgs : ∀ g ∈ gs, g.Cut cfg.boundary) (s : WatchState) :
    (flushPending cfg ((gs.flatMap Segment.lines).foldl (handleLine cfg) s)).emitted =
      (flushPending cfg s).emitted ++ eventsWith cfg (flushPending cfg s) gs := by
  induction gs generalizing s with
  | nil => exact (List.append_nil _).symm
  | cons g gs ih =>
      have hseg := foldl_handleLine_segment cfg (hgs g List.mem_cons_self) s
      have hempty : (flushPending cfg (g.lines.foldl (handleLine cfg) s)).Empty := by
        rw [hseg]
        exact ⟨rfl, rfl, rfl, rfl⟩
      rw [List.flatMap_cons, List.foldl_append, ih fun g' hg' => hgs g' (List.mem_cons_of_mem _ hg'),
        eventsWith_empty hempty, hseg, List.append_assoc]
      rfl

def orphanState (cfg : WatchConfig) (lines : List Text) : WatchState :=
  { watchInit cfg with
    pendingKStack := framesOf cfg.boundary (frameLines cfg.boundary (unmarked cfg.boundary false lines))
    pendingUStack := framesOf cfg.boundary (frameLines cfg.boundary (marked cfg.boundary false lines))
    inUStack := lines.any (isMarker cfg.boundary) }

theorem structuredEvents_eq (cfg : WatchConfig) (calls : List BufferedOutput) : structuredEvents cfg calls =
    eventsWith cfg (orphanState cfg (orphans cfg.boundary (calls.flatMap (·.lines))))
      (segments cfg.boundary (calls.flatMap (·.lines))) := by
  have hlines := orphans_append_segments cfg.boundary (calls.flatMap (·.lines))
  unfold structuredEvents
  rw [foldl_onBufferedOutput, ← hlines, List.foldl_append, foldl_handleLine_rest (orphans_not_body _), hlines,
    emitted_segments (segments_cut _)]
  rfl

theorem structuredEvents_without (cfg : WatchConfig) (calls : List BufferedOutput) {calls' : List BufferedOutput}
    (h : calls'.flatMap (·.lines) = withoutOrphans cfg.boundary (calls.flatMap (·.lines))) :
    structuredEvents cfg calls' = eventsFrom cfg 1 (segments cfg.boundary (calls.flatMap (·.lines))) := by
  unfold structuredEvents
  rw [foldl_onBufferedOutput, h, withoutOrphans_eq, emitted_segments (segments_cut _)]
  exact eventsWith_empty ⟨rfl, rfl, rfl, rfl⟩ _

/-! ## Orphans -/

theorem frameLines_append (u v : List Text) :
    frameLines boundary (u ++ v) = frameLines boundary u ++ frameLines boundary v :=
  List.filter_append ..

theorem framesOf_append (u v : List Text) : framesOf boundary (u ++ v) = framesOf boundary u ++ framesOf boundary v :=
  List.map_append

theorem framesOf_eq_nil {u : List Text} : framesOf boundary u = [] ↔ u = [] := List.map_eq_nil_iff

theorem unmarked_append_marked (boundary : CharacterBoundary) (seen : Bool) (lines : List Text) :
    unmarked boundary seen lines ++ marked boundary seen lines = lines := by
  cases seen
  · exact List.takeWhile_append_dropWhile
  · rfl

theorem framesOrNil_getD (frames : List StackFrame) : (framesOrNil frames).getD [] = frames := by
  unfold framesOrNil
  split
  · rename_i h
    exact h.symm
  · rfl

theorem framesOrNil_injective {u v : List StackFrame} (h : framesOrNil u = framesOrNil v) : u = v := by
  rw [← framesOrNil_getD u, h, framesOrNil_getD]

theorem eventFrames_eventWith (f : WatchState) (g : Segment) : eventFrames (eventWith cfg f g) =
    f.pendingKStack ++ framesOf cfg.boundary (frameLines cfg.boundary (unmarked cfg.boundary f.inUStack g.rest)) ++
      (f.pendingUStack ++ framesOf cfg.boundary (frameLines cfg.boundary (marked cfg.boundary f.inUStack g.rest))) := by
  unfold eventFrames eventWith
  rw [framesOrNil_getD, framesOrNil_getD]

theorem framesOf_rest (boundary : CharacterBoundary) (seen : Bool) (rest : List Text) :
    framesOf boundary (frameLines boundary (unmarked boundary seen rest)) ++
        framesOf boundary (frameLines boundary (marked boundary seen rest)) =
      framesOf boundary (frameLines boundary rest) := by
  rw [← framesOf_append, ← frameLines_append, unmarked_append_marked]

/-- An event that starts without frames has those of its own segment. -/
theorem eventFrames_own {f : WatchState} (hk : f.pendingKStack = []) (hu : f.pendingUStack = []) (g : Segment) :
    eventFrames (eventWith cfg f g) = framesOf cfg.boundary (frameLines cfg.boundary g.rest) := by
  rw [eventFrames_eventWith, hk, hu, List.nil_append, List.nil_append, framesOf_rest]

theorem map_eventsFrom (i : Nat) (gs : List Segment) :
    (eventsFrom cfg i gs).map (fun e => (e.printfBody, eventFrames e)) =
      gs.map fun g => (some (trimmed g.body), framesOf cfg.boundary (frameLines cfg.boundary g.rest)) := by
  induction gs generalizing i with
  | nil => rfl
  | cons g gs ih =>
      rw [eventsFrom, List.map_cons, List.map_cons, ih, eventFrames_own rfl rfl]
      rfl

theorem orphanState_frames (cfg : WatchConfig) (o : List Text) :
    (orphanState cfg o).pendingKStack ++ (orphanState cfg o).pendingUStack =
      framesOf cfg.boundary (frameLines cfg.boundary o) :=
  framesOf_rest cfg.boundary false o

/-- The first event has its own frames only when no frame stands in front of its body. -/
theorem eventFrames_orphanState_iff (o : List Text) (g : Segment) :
    eventFrames (eventWith cfg (orphanState cfg o) g) = framesOf cfg.boundary (frameLines cfg.boundary g.rest) ↔
      frameLines cfg.boundary o = [] := by
  constructor
  · intro h
    have hlen := congrArg List.length h
    have hown := congrArg List.length (framesOf_rest cfg.boundary (orphanState cfg o).inUStack g.rest)
    have horphans := congrArg List.length (orphanState_frames cfg o)
    rw [eventFrames_eventWith] at hlen
    simp only [List.length_append] at hlen hown horphans
    have hnil : framesOf cfg.boundary (frameLines cfg.boundary o) = [] := List.length_eq_zero_iff.1 (by omega)
    exact framesOf_eq_nil.1 hnil
  · intro h
    have hnil := orphanState_frames cfg o
    rw [h, framesOf_eq_nil.2 rfl, List.append_eq_nil_iff] at hnil
    exact eventFrames_own hnil.1 hnil.2 g

/-- Without frames in front of it, the first event is the one of its own segment, unless a marker there takes its kernel
frames for user frames. -/
theorem eventWith_orphanState_iff {o : List Text} (ho : frameLines cfg.boundary o = []) (g : Segment) :
    eventWith cfg (orphanState cfg o) g = eventWith cfg (emptyState 1) g ↔
      (o.any (isMarker cfg.boundary) = true → g.kernel cfg.boundary = []) := by
  have hnil := orphanState_frames cfg o
  rw [ho, framesOf_eq_nil.2 rfl, List.append_eq_nil_iff] at hnil
  have hkernel : g.kernel cfg.boundary = frameLines cfg.boundary (unmarked cfg.boundary false g.rest) := rfl
  have hmode : (orphanState cfg o).inUStack = o.any (isMarker cfg.boundary) := rfl
  unfold eventWith
  rw [hnil.1, hnil.2, hmode, hkernel]
  cases hm : o.any (isMarker cfg.boundary) with
  | false =>
      refine iff_of_true ?_ fun h => by cases h
      rfl
  | true =>
      constructor
      · intro heq _
        have hstack : framesOrNil [] =
            framesOrNil (framesOf cfg.boundary (frameLines cfg.boundary (unmarked cfg.boundary false g.rest))) :=
          congrArg ProbeEvent.stack heq
        exact framesOf_eq_nil.1 (framesOrNil_injective hstack).symm
      · intro hnone
        have hnone := hnone rfl
        have hall : frameLines cfg.boundary (marked cfg.boundary false g.rest) =
            frameLines cfg.boundary (marked cfg.boundary true g.rest) := by
          have hcut := congrArg (frameLines cfg.boundary) (unmarked_append_marked cfg.boundary false g.rest)
          rwa [frameLines_append, hnone, List.nil_append] at hcut
        have hunmarked : frameLines cfg.boundary (unmarked cfg.boundary true g.rest) = [] := rfl
        have hdates : (orphanState cfg o).dates = 1 := rfl
        rw [← hall, hunmarked, hdates]
        simp [emptyState, hnone]

/-! ## Calls and lines -/

/-- The handler takes no notice of blank lines. -/
theorem structuredEvents_congr {calls calls' : List BufferedOutput}
    (h : (calls'.flatMap (·.lines)).filter (fun line => trimmed line ≠ []) =
      (calls.flatMap (·.lines)).filter (fun line => trimmed line ≠ [])) :
    structuredEvents cfg calls' = structuredEvents cfg calls := by
  unfold structuredEvents
  rw [foldl_onBufferedOutput, foldl_onBufferedOutput, ← foldl_handleLine_filter, h, foldl_handleLine_filter]

/-- Up to blank lines, the calls that deliver a text deliver the lines of the text. -/
theorem Divides.nonblank {text : Text} {calls : List BufferedOutput} (h : Divides text calls) :
    (calls.flatMap (·.lines)).filter (fun line => trimmed line ≠ []) =
      (splitNewlines text).filter (fun line => trimmed line ≠ []) := by
  have hnil : ([[]] : List Text).filter (fun line => trimmed line ≠ []) = [] := rfl
  have hcall (output : Text) : ({ output } : BufferedOutput).lines = splitNewlines output := rfl
  induction h with
  | nil => rfl
  | last s => rw [List.flatMap_cons, List.flatMap_nil, List.append_nil, hcall]
  | behind hfront _ ih =>
      rw [List.flatMap_cons, List.filter_append, ih, hcall, splitNewlines_append hfront, splitNewlines_append hfront,
        List.filter_append, List.filter_append, splitNewlines, hnil, List.append_nil]
  | before hfront _ ih =>
      rw [List.flatMap_cons, List.filter_append, ih, hcall, splitNewlines_append hfront, List.filter_append]
      rfl
  | fragment hdata _ ih =>
      rw [List.flatMap_cons, List.filter_append, ih, BufferedOutput.lines, if_pos hdata]
      rfl

theorem splitNewlines_of_lines {calls : List BufferedOutput} {line : Text} (h : line ∈ calls.flatMap (·.lines)) :
    splitNewlines line = [line] := by
  obtain ⟨call, _, hline⟩ := List.mem_flatMap.1 h
  unfold BufferedOutput.lines at hline
  split at hline
  · cases hline
  · exact splitNewlines_of_mem hline

/-- Some calls deliver the lines, if none of them is more than a line. -/
theorem exists_calls {lines : List Text} (h : ∀ line ∈ lines, splitNewlines line = [line]) :
    ∃ calls : List BufferedOutput, calls.flatMap (·.lines) = lines := by
  refine ⟨lines.map fun line => { output := line }, ?_⟩
  induction lines with
  | nil => rfl
  | cons line lines ih =>
      have hline : ({ output := line } : BufferedOutput).lines = [line] := h line List.mem_cons_self
      rw [List.map_cons, List.flatMap_cons, hline, ih fun l hl => h l (List.mem_cons_of_mem _ hl)]
      rfl

end ObservableBSD.Instruments
