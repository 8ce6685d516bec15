import ObservableBSD.Elf.Lemmas.Sections

/-!
# Results about the selection of sections
-/

namespace ObservableBSD.Elf

open Base Trace

/-- The same sections, with the MMAP ones in any order among them. -/
def MmapsPermuted (sections sections' : List PtImageInfo) : Prop :=
  sections'.Perm sections ∧ sections'.filter (·.type ≠ .mmap) = sections.filter (·.type ≠ .mmap)

theorem find?_executable_eq {sections sections' : List PtImageInfo} (h : MmapsPermuted sections sections')
    (path : CString) :
    sections'.find? (sectionIs .executable path) = sections.find? (sectionIs .executable path) := by
  have hfilter : ∀ l : List PtImageInfo, (l.filter (·.type ≠ .mmap)).find? (sectionIs .executable path) =
      l.find? (sectionIs .executable path) := by
    intro l
    rw [List.find?_filter]
    congr 1
    funext sec
    cases hp : sectionIs .executable path sec with
    | false => simp
    | true => simp [(sectionIs_iff.1 hp).1]
  rw [← hfilter, ← hfilter sections, h.2]

theorem IsChoice.key_eq {sections sections' : List PtImageInfo} {path : CString} {i j : Nat} {sec sec' : PtImageInfo}
    (h : MmapsPermuted sections sections') (hsec : IsChoice sections path i sec)
    (hsec' : IsChoice sections' path j sec') :
    sec'.path = sec.path ∧ sec'.type = sec.type ∧ sec'.loadAddr = sec.loadAddr := by
  rcases hsec with hfirst | ⟨hnone, hfirst⟩
  · rcases hsec' with hfirst' | ⟨hnone', _⟩
    · have heq := hfirst'.find?_eq
      rw [find?_executable_eq h, hfirst.find?_eq, Option.some.injEq] at heq
      subst heq
      exact ⟨rfl, rfl, rfl⟩
    · have hmem := h.1.symm.subset (List.mem_of_getElem? hfirst.get)
      exact absurd hfirst.mem (by rw [hnone' sec hmem]; decide)
  · rcases hsec' with hfirst' | ⟨_, hfirst'⟩
    · have hmem := h.1.subset (List.mem_of_getElem? hfirst'.get)
      exact absurd hfirst'.mem (by rw [hnone sec' hmem]; decide)
    · obtain ⟨htype, hpath⟩ := sectionIs_iff.1 hfirst.mem
      obtain ⟨htype', hpath'⟩ := sectionIs_iff.1 hfirst'.mem
      exact ⟨hpath'.trans hpath.symm, htype'.trans htype.symm, UInt64.toNat_inj.1 (hfirst.key_eq h.1 hfirst').symm⟩

/-- Exactly one section is accepted for a path, the choice, and the order of the MMAP sections does not matter for what
is chosen. -/
theorem sectionShouldUse_selectsOne (sections : List PtImageInfo) (path : CString) (hne : path ≠ [])
    (h : ∃ sec ∈ sections, sec.path = path ∧ (sec.type = .executable ∨ sec.type = .mmap)) :
    ∃ i sec, IsChoice sections path i sec ∧
      (∀ j sec', Accepted sections path j sec' ↔ j = i ∧ sec' = sec) ∧
      ∀ sections', MmapsPermuted sections sections' → ∀ j sec', Accepted sections' path j sec' →
        sec'.path = sec.path ∧ sec'.type = sec.type ∧ sec'.loadAddr = sec.loadAddr := by
  obtain ⟨i, sec, hchoice⟩ : ∃ i sec, IsChoice sections path i sec := by
    by_cases hexec : ∃ sec ∈ sections, sectionIs .executable path sec = true
    · obtain ⟨i, sec, hfirst⟩ := exists_firstMin (fun _ => 0) hexec
      exact ⟨i, sec, .inl hfirst⟩
    · have hnone : ∀ other ∈ sections, sectionIs .executable path other = false := fun other hother =>
        eq_false_of_ne_true fun hp => hexec ⟨other, hother, hp⟩
      obtain ⟨sec, hsec, hpath, htype⟩ := h
      have hmmap : sectionIs .mmap path sec = true := by
        rcases htype with htype | htype
        · exact absurd (sectionIs_iff.2 ⟨htype, hpath⟩) (by rw [hnone sec hsec]; decide)
        · exact sectionIs_iff.2 ⟨htype, hpath⟩
      obtain ⟨i, sec, hfirst⟩ := exists_firstMin (fun other => other.loadAddr.toNat) ⟨sec, hsec, hmmap⟩
      exact ⟨i, sec, .inr ⟨hnone, hfirst⟩⟩
  refine ⟨i, sec, hchoice, fun j sec' => ?_, fun sections' hperm j sec' hacc => ?_⟩
  · rw [accepted_iff hne]
    constructor
    · intro hchoice'
      rcases hchoice' with hfirst' | ⟨hnone', hfirst'⟩
      · rcases hchoice with hfirst | ⟨hnone, _⟩
        · exact hfirst'.unique hfirst
        · exact absurd hfirst'.mem (by rw [hnone sec' (List.mem_of_getElem? hfirst'.get)]; decide)
      · rcases hchoice with hfirst | ⟨_, hfirst⟩
        · exact absurd hfirst.mem (by rw [hnone' sec (List.mem_of_getElem? hfirst.get)]; decide)
        · exact hfirst'.unique hfirst
    · rintro ⟨rfl, rfl⟩
      exact hchoice
  · exact hchoice.key_eq hperm ((accepted_iff hne).1 hacc)

private def libAt (loadAddr : UInt64) : PtImageInfo := ⟨cstr "/lib/libc.so.7", loadAddr, 0, .mmap⟩

theorem libs_selectOne : ∃ i sec, IsChoice [libAt 0x2000, libAt 0x1000] (cstr "/lib/libc.so.7") i sec ∧
    (∀ j sec', Accepted [libAt 0x2000, libAt 0x1000] (cstr "/lib/libc.so.7") j sec' ↔ j = i ∧ sec' = sec) ∧
    ∀ sections', MmapsPermuted [libAt 0x2000, libAt 0x1000] sections' → ∀ j sec',
      Accepted sections' (cstr "/lib/libc.so.7") j sec' →
        sec'.path = sec.path ∧ sec'.type = sec.type ∧ sec'.loadAddr = sec.loadAddr :=
  sectionShouldUse_selectsOne _ _ (by decide) ⟨libAt 0x2000, List.mem_cons_self, rfl, .inr rfl⟩

end ObservableBSD.Elf
