import ObservableBSD.Trace.Lemmas.Recording

/-!
# What was decoded is saved

Each buffer that is decoded has been saved with a sidecar, and no later file of the session replaces either.
-/

namespace ObservableBSD.Trace.Session

open Base Elf Decode

variable {mem : Nat → UInt8} {d : Disk} {ctx : HwtCtx} {ts : TraceState} {out path : CString} {tid : Int32}

/-! ## Offline -/

/-- Every input of the live decoder can be decoded again from a file of the session, other than the files that
are still to be written for the threads `ids`. -/
def Replaying (out : CString) (ids : List Int32) (d : Disk) : Prop :=
  ∀ input ∈ d.decoded, ∃ k, (∀ t ∈ ids, k ≠ some t) ∧ cmdDecode d.files (savedPath out k) = some input

theorem Replaying.mono {ids ids' : List Int32} (h : Replaying out ids d) (hids : ids' ⊆ ids) :
    Replaying out ids' d := fun input hinput =>
  have ⟨k, hne, hk⟩ := h input hinput
  ⟨k, fun t ht => hne t (hids ht), hk⟩

theorem cmdDecode_put {p : CString} (bytes : List UInt8) (hfile : p ≠ path) (hsidecar : p ≠ deriveMetaPath path) :
    cmdDecode (d.put p bytes).files path = cmdDecode d.files path := by
  rw [cmdDecode, Disk.put_files_of_ne hsidecar.symm, Disk.put_files_of_ne hfile.symm, cmdDecode]

/-- What is written for a thread that is still to be saved touches no file that was decoded. -/
theorem Replaying.put {ids : List Int32} {threadId : Int32} (hout : Roomy out) (h : Replaying out ids d)
    (hmem : threadId ∈ ids) {p : CString} (bytes : List UInt8)
    (hp : p = savedPath out (some threadId) ∨ p = deriveMetaPath (savedPath out (some threadId))) :
    Replaying out ids (d.put p bytes) := by
  intro input hinput
  obtain ⟨k, hne, hk⟩ := h input hinput
  refine ⟨k, hne, ?_⟩
  rw [cmdDecode_put bytes ?_ ?_, hk]
  · rcases hp with rfl | rfl
    · exact fun heq => hne threadId hmem (savedPath_inj hout heq).symm
    · exact deriveMetaPath_ne_savedPath hout _ _
  · rcases hp with rfl | rfl
    · exact (deriveMetaPath_ne_savedPath hout _ _).symm
    · exact fun heq => hne threadId hmem (deriveMetaPath_savedPath_inj hout heq).symm

end ObservableBSD.Trace.Session
