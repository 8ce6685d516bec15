import ObservableBSD.Base.FirstMin
import ObservableBSD.Elf.Ranges

/-!
# One section for each binary
-/

namespace ObservableBSD.Elf

open Base Trace

theorem sectionIs_iff {type : HwtRecordType} {path : CString} {sec : PtImageInfo} :
    sectionIs type path sec = true ↔ sec.type = type ∧ sec.path = path := by
  simp [sectionIs]

/-- The section `sec` at index `i`, an EXECUTABLE or MMAP one with the path, is accepted. -/
structure Accepted (sections : List PtImageInfo) (path : CString) (i : Nat) (sec : PtImageInfo) : Prop where
  get : sections[i]? = some sec
  path : sec.path = path
  type : sec.type = .executable ∨ sec.type = .mmap
  used : sectionShouldUse sections i = true

/-- The first EXECUTABLE section with the path, and where there is none, the lowest MMAP one, the first of them on
ties. -/
def IsChoice (sections : List PtImageInfo) (path : CString) (i : Nat) (sec : PtImageInfo) : Prop :=
  FirstMin (sectionIs .executable path) (fun _ => 0) sections i sec ∨
    ((∀ other ∈ sections, sectionIs .executable path other = false) ∧
      FirstMin (sectionIs .mmap path) (fun other => other.loadAddr.toNat) sections i sec)

section

variable {sections : List PtImageInfo} {path : CString} {i : Nat} {sec : PtImageInfo}

theorem sectionShouldUse_executable (hget : sections[i]? = some sec) (hne : sec.path ≠ [])
    (htype : sec.type = .executable) :
    sectionShouldUse sections i = true ↔
      FirstMin (sectionIs .executable sec.path) (fun _ => 0) sections i sec := by
  have hmem : sectionIs .executable sec.path sec = true := sectionIs_iff.2 ⟨htype, rfl⟩
  rw [sectionShouldUse, hget]
  simp only [if_neg hne, htype, Bool.not_eq_true', List.any_eq_false]
  constructor
  · intro hnone
    refine ⟨hget, hmem, fun _ _ _ => Nat.le_refl 0, fun j other hj hother hp => ?_⟩
    exact absurd hp (hnone other (List.mem_of_getElem? ((List.getElem?_take_of_lt hj).trans hother)))
  · intro hfirst other hother hp
    obtain ⟨j, hj, rfl⟩ := List.mem_take_iff_getElem.1 hother
    exact absurd (hfirst.first j _ (by omega) (List.getElem?_eq_getElem _) hp) (Nat.lt_irrefl 0)

theorem sectionShouldUse_mmap (hget : sections[i]? = some sec) (hne : sec.path ≠ []) (htype : sec.type = .mmap) :
    sectionShouldUse sections i = true ↔ (∀ other ∈ sections, sectionIs .executable sec.path other = false) ∧
      FirstMin (sectionIs .mmap sec.path) (fun other => other.loadAddr.toNat) sections i sec := by
  have hmem : sectionIs .mmap sec.path sec = true := sectionIs_iff.2 ⟨htype, rfl⟩
  rw [sectionShouldUse, hget]
  simp only [if_neg hne, htype, Bool.and_eq_true, Bool.not_eq_true', List.any_eq_false, Bool.not_eq_true]
  refine and_congr_right fun _ => ?_
  constructor
  · intro hnone
    have hlower : ∀ j other, sections[j]? = some other → j ≠ i → sectionIs .mmap sec.path other = true →
        sec.loadAddr.toNat ≤ other.loadAddr.toNat ∧ (j < i → sec.loadAddr.toNat < other.loadAddr.toNat) := by
      intro j other hother hj hp
      have hzip : (other, j) ∈ sections.zipIdx := List.mk_mem_zipIdx_iff_getElem?.2 hother
      have hnot := hnone (other, j) hzip
      simp only [lowerMmap, hj, hp, ne_eq, not_false_eq_true, decide_true, Bool.and_true, Bool.true_and,
        Bool.or_eq_false_iff, Bool.and_eq_false_iff, decide_eq_false_iff_not, UInt64.lt_iff_toNat_lt,
        ← UInt64.toNat_inj] at hnot
      omega
    refine ⟨hget, hmem, fun other hother hp => ?_, fun j other hj hother hp => ?_⟩
    · obtain ⟨j, hj⟩ := List.mem_iff_getElem?.1 hother
      by_cases hji : j = i
      · subst hji
        obtain rfl : sec = other := Option.some.inj (hget.symm.trans hj)
        exact Nat.le_refl _
      · exact (hlower j other hj hji hp).1
    · exact (hlower j other hother (Nat.ne_of_lt hj) hp).2 hj
  · rintro hfirst ⟨other, j⟩ hzip
    have hother : sections[j]? = some other := List.mk_mem_zipIdx_iff_getElem?.1 hzip
    by_cases hp : sectionIs .mmap sec.path other = true
    · have hle := hfirst.least other (List.mem_of_getElem? hother) hp
      have hlt := fun hj => hfirst.first j other hj hother hp
      simp only [lowerMmap, hp, Bool.and_true, Bool.and_eq_false_iff, decide_eq_false_iff_not,
        Bool.or_eq_false_iff, UInt64.lt_iff_toNat_lt, ← UInt64.toNat_inj]
      omega
    · simp [lowerMmap, hp]

/-- What is accepted for a path is its choice. -/
theorem accepted_iff (hne : path ≠ []) : Accepted sections path i sec ↔ IsChoice sections path i sec := by
  constructor
  · rintro ⟨hget, rfl, htype, hused⟩
    rcases htype with htype | htype
    · exact .inl ((sectionShouldUse_executable hget hne htype).1 hused)
    · exact .inr ((sectionShouldUse_mmap hget hne htype).1 hused)
  · rintro (hfirst | ⟨hnone, hfirst⟩)
    · obtain ⟨htype, rfl⟩ := sectionIs_iff.1 hfirst.mem
      exact ⟨hfirst.get, rfl, .inl htype, (sectionShouldUse_executable hfirst.get hne htype).2 hfirst⟩
    · obtain ⟨htype, rfl⟩ := sectionIs_iff.1 hfirst.mem
      exact ⟨hfirst.get, rfl, .inr htype, (sectionShouldUse_mmap hfirst.get hne htype).2 ⟨hnone, hfirst⟩⟩

end

end ObservableBSD.Elf
