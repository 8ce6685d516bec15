import ObservableBSD.Instruments.Lemmas.BodyText
import ObservableBSD.Instruments.Lemmas.Segments

/-!
# Results about the text that libdtrace delivers
-/

namespace ObservableBSD.Instruments

open Base Export

/-! ## Events -/

/-- Every event has the frames behind its own body line exactly when no frame stands in front of the first one, and
a marker there does no harm. -/
theorem framesOwn_iff (cfg : WatchConfig) (calls : List BufferedOutput) :
    FramesOwn cfg calls ↔ OrphansHarmless cfg.boundary (calls.flatMap (·.lines)) := by
  have hwithout (calls' : List BufferedOutput)
      (hsame : calls'.flatMap (·.lines) = withoutOrphans cfg.boundary (calls.flatMap (·.lines))) :
      structuredEvents cfg calls' = eventsFrom cfg 1 (segments cfg.boundary (calls.flatMap (·.lines))) :=
    structuredEvents_without cfg calls hsame
  have hwith := structuredEvents_eq cfg calls
  have hlines : ∀ line ∈ withoutOrphans cfg.boundary (calls.flatMap (·.lines)), splitNewlines line = [line] :=
    fun line hline => splitNewlines_of_lines ((withoutOrphans_suffix _).subset hline)
  obtain ⟨clean, hclean⟩ := exists_calls hlines
  constructor
  · intro h
    unfold OrphansHarmless
    cases hgs : segments cfg.boundary (calls.flatMap (·.lines)) with
    | nil => exact .inl rfl
    | cons g gs =>
        have hevents := h.events
        have horphans := h.orphans clean hclean
        rw [hwithout clean hclean, hwith, hgs, eventsFrom, eventsWith, List.cons.injEq] at horphans
        rw [hwith, hgs, eventsWith, List.map_cons, List.map_cons, List.cons.injEq, Prod.mk.injEq] at hevents
        have hnone := (eventFrames_orphanState_iff _ g).1 hevents.1.2
        refine .inr ⟨hnone, fun hmarker g' hg' => ?_⟩
        cases hg'
        exact (eventWith_orphanState_iff hnone g).1 horphans.1.symm hmarker
  · intro h
    have hown : structuredEvents cfg calls =
        eventsFrom cfg 1 (segments cfg.boundary (calls.flatMap (·.lines))) := by
      rw [hwith]
      rcases h with hnil | ⟨hnone, hmarker⟩
      · rw [hnil]
        rfl
      · cases hgs : segments cfg.boundary (calls.flatMap (·.lines)) with
        | nil => rfl
        | cons g gs =>
            rw [hgs] at hmarker
            rw [eventsWith, eventsFrom, (eventWith_orphanState_iff hnone g).2 fun hm => hmarker hm g rfl]
            rfl
    refine ⟨?_, fun text calls' hdivides hdivides' => ?_, fun calls' hsame => ?_, fun calls' hsame => ?_⟩
    · rw [hown, map_eventsFrom]
    · exact structuredEvents_congr (hdivides'.nonblank.trans hdivides.nonblank.symm)
    · exact structuredEvents_congr hsame
    · rw [hwithout calls' hsame, hown]

def digitConfig : WatchConfig where
  profileName := text "io"
  joining := accentJoining
  isNumber := Char.isDigit
  clock _ := 0

/-- A frame in front of the first body line goes to its event. -/
theorem orphanFrame_not_framesOwn :
    ¬ ∀ cfg calls, FramesOwn cfg calls := by
  intro h
  have hevents := (h digitConfig [{ output := text " m`f+0x2" }, { output := text "a[1]" }]).events
  exact absurd hevents (by decide)

/-! ## Names and pids -/

/-- The name and the pid of a body are read back exactly when the bracket behind the name is the first one. -/
theorem parseMetadata_iff (cfg : WatchConfig) (hnumber : ∀ c : Char, c.toNat < 128 → cfg.isNumber c = c.isDigit)
    (execname : Text) (pid : Int32) (hpid : 0 ≤ pid) (suffix : Text)
    (hsuffix : suffix.head? = some ']' ∨ suffix.head? = some '/') :
    (parseMetadata cfg.boundary cfg.isNumber (execname ++ '[' :: (Nat.toDigits 10 pid.toInt.toNat ++ suffix)) =
        (execname, pid) ∧
      ∀ s : WatchState,
        (s.event cfg (execname ++ '[' :: (Nat.toDigits 10 pid.toInt.toNat ++ suffix))).execname = execname ∧
        (s.event cfg (execname ++ '[' :: (Nat.toDigits 10 pid.toInt.toNat ++ suffix))).pid = pid) ↔
      BracketEnds cfg.boundary execname := by
  constructor
  · rintro ⟨hparse, _⟩
    exact bracketEnds_of_parseMetadata hparse
  · intro hname
    have hparse := parseMetadata_append hnumber hname hpid hsuffix
    refine ⟨hparse, fun s => ?_⟩
    unfold WatchState.event
    rw [hparse]
    exact ⟨rfl, rfl⟩

theorem cat_parseMetadata :
    parseMetadata accentJoining.boundary Char.isDigit (text "cat[42/100]: read") = (text "cat", 42) :=
  ((parseMetadata_iff digitConfig (fun _ _ => rfl) (text "cat") 42 (by decide) (text "/100]: read") (.inr rfl)).2
    ⟨by decide, by decide⟩).1

/-- The utility `[` loses its name and its pid. -/
theorem bracket_not_parseMetadata :
    ¬ ∀ (execname : Text) (pid : Int32) (suffix : Text), 0 ≤ pid → suffix.head? = some ']' ∨ suffix.head? = some '/' →
      parseMetadata accentJoining.boundary Char.isDigit
          (execname ++ '[' :: (Nat.toDigits 10 pid.toInt.toNat ++ suffix)) = (execname, pid) := by
  intro h
  have hparse := h (text "[") 7 (text "]") (by decide) (.inl rfl)
  exact absurd hparse (by decide)

/-! ## Stack frames -/

/-- A frame that was read is read again from its text. Any other one is exactly when its text shows where the parts
end. -/
theorem parseStackFrame_formatted_iff (j : Joining) :
    (∀ line, parseStackFrame j.boundary (parseStackFrame j.boundary line).formatted =
      parseStackFrame j.boundary line) ∧
    ∀ f, Readable f → (parseStackFrame j.boundary f.formatted = f ↔ Shown j.boundary f) :=
  ⟨parseStackFrame_formatted_parse j, fun _ h => h.parse_formatted_iff⟩

theorem mainFrame_parseStackFrame : parseStackFrame accentJoining.boundary (text "libc.so.7`main+0x2f") =
    { address := 0, module := text "libc.so.7", symbol := text "main", offset := some 0x2f } :=
  ((parseStackFrame_formatted_iff accentJoining).2
    { address := 0, module := text "libc.so.7", symbol := text "main", offset := some 0x2f }
    (.offset 0x2f (by
      intro d hd
      obtain rfl : 'l' = d := Option.some.inj hd
      rfl))).2 ⟨⟨by decide, by decide, by decide⟩, by decide⟩

/-- Where a symbol starts with an accent, the backtick in front of it is no `Character`, and the whole text is taken for
a symbol. -/
theorem accentFrame_not_parseStackFrame :
    ¬ ∀ (module symbol : Text) (offset : UInt64), '`' ∉ module → (∀ d ∈ module.head?, whitespaces d = false) →
      parseStackFrame accentJoining.boundary ({ address := 0, module, symbol, offset } : StackFrame).formatted =
        { address := 0, module, symbol, offset } := by
  intro h
  have hblank : ∀ d ∈ (text "m").head?, whitespaces d = false := by
    intro d hd
    obtain rfl : 'm' = d := Option.some.inj hd
    rfl
  have hparse := h (text "m") (text "\u0301f") 2 (by decide) hblank
  exact absurd hparse (by decide)

end ObservableBSD.Instruments
