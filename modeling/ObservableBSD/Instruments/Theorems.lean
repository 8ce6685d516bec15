import ObservableBSD.Instruments.Lemmas.FilterOptions
import ObservableBSD.Instruments.Lemmas.WatchRunner

/-!
# Frames, firings and filters
-/

namespace ObservableBSD.Instruments

open Base DLang Export

/-! ## Frames -/

/-- Every event has the frames of its own firing, each kind in its place, exactly when a marker tells
user frames from kernel frames or there are none to tell. -/
theorem framesKept_iff (cfg : WatchConfig) (withStack withUstack : Bool) {firings : List Firing}
    {calls : List BufferedOutput} (hf : ∀ f ∈ firings, f.Classified cfg.boundary)
    (hd : Delivers withStack withUstack firings calls) :
    FramesKept cfg.boundary withStack withUstack firings (structuredEvents cfg calls) ↔
      (withStack = true ∨ withUstack = false ∨ ∀ f ∈ firings, f.user = []) := by
  unfold FramesKept
  rw [structuredEvents_stacks hf hd, List.map_inj_left]
  simp only [Firing.eventStacks_eq_iff]
  cases withStack <;> cases withUstack <;> simp

def userFiring : Firing where
  body := text "a[1]"
  kernel := []
  user := [text " m`f+0x2"]

theorem userFiring_classified : userFiring.Classified accentJoining.boundary where
  body_ne := by decide
  body_not_frame := by decide
  body_ne_marker := by decide
  kernel := nofun
  user := by decide

def userConfig : WatchConfig where
  profileName := []
  joining := accentJoining
  isNumber := Char.isDigit
  clock _ := 0

/-- With both flags the marker stands before the user frame. -/
theorem userFiring_kept : FramesKept accentJoining.boundary true true [userFiring]
    (structuredEvents userConfig
      [{ output := text "a[1]\n" }, { output := text "__BSDINSTRUMENTS_USTACK__\n" },
        { output := text "\n m`f+0x2\n" }]) :=
  (framesKept_iff userConfig true true (List.forall_mem_singleton.mpr userFiring_classified)
    (by unfold Delivers; decide)).mpr (Or.inl rfl)

/-- With `--with-ustack` alone the user frame becomes the event's kernel stack. -/
theorem userFiring_mixed : userFiring.Classified accentJoining.boundary ∧
    Delivers false true [userFiring] [{ output := text "a[1]\n" }, { output := text "\n m`f+0x2\n" }] ∧
      ¬ FramesKept accentJoining.boundary false true [userFiring]
        (structuredEvents userConfig [{ output := text "a[1]\n" }, { output := text "\n m`f+0x2\n" }]) := by
  refine ⟨userFiring_classified, ?_⟩
  unfold Delivers FramesKept
  decide

/-! ## Filters -/

end ObservableBSD.Instruments
