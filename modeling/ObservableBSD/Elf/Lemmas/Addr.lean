import Mathlib.Data.List.Induction
import Mathlib.Data.UInt
import ObservableBSD.Elf.Resolve

/-!
# Base addresses and slides
-/

namespace ObservableBSD.Elf

open Base Trace

/-! ## Pages and slides -/

theorem truncPage_toNat (x : UInt64) : (truncPage x).toNat = x.toNat - x.toNat % 4096 := by
  have hle : x % pageSize ≤ x := by
    rw [UInt64.le_iff_toNat_le, UInt64.toNat_mod]; exact Nat.mod_le _ _
  rw [truncPage, UInt64.toNat_sub_of_le _ _ hle, UInt64.toNat_mod]
  rfl

theorem truncPage_mono {x y : UInt64} (h : x ≤ y) : truncPage x ≤ truncPage y := by
  rw [UInt64.le_iff_toNat_le] at h ⊢
  rw [truncPage_toNat, truncPage_toNat]
  omega

theorem toInt64_sub_eq_iff (load base bias : UInt64) :
    load.toInt64 - base.toInt64 = bias.toInt64 ↔ load = base + bias := by
  rw [← UInt64.toInt64_sub]
  constructor
  · intro h
    have hsub : load - base = bias := by
      have := congrArg Int64.toUInt64 h
      simpa using this
    rw [← hsub, UInt64.add_comm, UInt64.sub_add_cancel]
  · intro h
    rw [h, UInt64.add_comm, UInt64.add_sub_cancel]

theorem slideAddr_toInt64 (value bias : UInt64) : slideAddr value bias.toInt64 = value + bias := by
  simp [slideAddr]

/-! ## Program headers -/

/-- `phdr` is the lowest executable segment of the file with bytes in it. -/
structure LowestExecLoad (elf : ElfFile) (phdr : GElfPhdr) : Prop where
  mem : ∃ phdrs, elf.phdrs = some phdrs ∧ some phdr ∈ phdrs
  exec : phdr.execLoad = true
  lowest : ∀ phdrs, elf.phdrs = some phdrs → ∀ other, some other ∈ phdrs → other.execLoad = true →
    phdr.vaddr ≤ other.vaddr

theorem firstLoad_of_mem {phdrs : List (Option GElfPhdr)} {phdr : GElfPhdr} (h : some phdr ∈ phdrs)
    (hload : phdr.type = .load) : ∃ base, firstLoad phdrs = some base := by
  induction phdrs with
  | nil => cases h
  | cons p phdrs ih =>
      cases p with
      | none => exact ih (by simpa using h)
      | some p =>
          rw [firstLoad]
          split
          · exact ⟨_, rfl⟩
          · rename_i hp
            rcases List.mem_cons.mp h with heq | hmem
            · cases heq; exact absurd hload hp
            · exact ih hmem

/-- The loop of `elf_exec_map_vaddr` has found the lowest page of the executable segments, or none of
the headers is one. -/
def FoundLowest (phdrs : List (Option GElfPhdr)) : Option UInt64 → Prop
  | none => ∀ phdr, some phdr ∈ phdrs → phdr.execLoad = false
  | some b => (∃ phdr, some phdr ∈ phdrs ∧ phdr.execLoad = true ∧ b = truncPage phdr.vaddr) ∧
      ∀ phdr, some phdr ∈ phdrs → phdr.execLoad = true → b ≤ truncPage phdr.vaddr

theorem FoundLowest.skip {phdrs : List (Option GElfPhdr)} {best : Option UInt64} (h : FoundLowest phdrs best)
    {p : Option GElfPhdr} (hp : ∀ phdr, p = some phdr → phdr.execLoad = false) :
    FoundLowest (phdrs ++ [p]) best := by
  have hmem : ∀ phdr, some phdr ∈ phdrs ++ [p] → phdr.execLoad = true → some phdr ∈ phdrs := by
    intro phdr hin he
    rcases List.mem_append.mp hin with hin | hin
    · exact hin
    · rw [hp phdr (List.mem_singleton.mp hin).symm] at he; cases he
  cases best with
  | none =>
      intro phdr hin
      cases he : phdr.execLoad with
      | false => rfl
      | true => exact absurd (h phdr (hmem phdr hin he)) (by simp [he])
  | some b =>
      obtain ⟨⟨phdr, hin, he, hb⟩, hall⟩ := h
      exact ⟨⟨phdr, List.mem_append_left _ hin, he, hb⟩, fun q hq hqe => hall q (hmem q hq hqe) hqe⟩

theorem FoundLowest.step {phdrs : List (Option GElfPhdr)} {best : Option UInt64} (h : FoundLowest phdrs best)
    {p : GElfPhdr} (hp : p.execLoad = true) :
    FoundLowest (phdrs ++ [some p]) (execMapStep best (some p)) := by
  have hself : some p ∈ phdrs ++ [some p] := by simp
  have hlower : ∀ b, (∀ q, some q ∈ phdrs → q.execLoad = true → b ≤ truncPage q.vaddr) →
      b ≤ truncPage p.vaddr →
      ∀ q, some q ∈ phdrs ++ [some p] → q.execLoad = true → b ≤ truncPage q.vaddr := by
    intro b hall hb q hq hqe
    rcases List.mem_append.mp hq with hq | hq
    · exact hall q hq hqe
    · cases List.mem_singleton.mp hq; exact hb
  cases best with
  | none =>
      have hstep : execMapStep none (some p) = some (truncPage p.vaddr) := if_pos hp
      rw [hstep]
      refine ⟨⟨p, hself, hp, rfl⟩, hlower _ (fun q hq hqe => ?_) (UInt64.le_refl _)⟩
      rw [h q hq] at hqe; cases hqe
  | some b =>
      obtain ⟨⟨q, hq, hqe, hqb⟩, hall⟩ := h
      have hstep : execMapStep (some b) (some p) =
          if truncPage p.vaddr < b then some (truncPage p.vaddr) else some b := if_pos hp
      rw [hstep]
      split
      · rename_i hlt
        exact ⟨⟨p, hself, hp, rfl⟩, hlower _ (fun r hr hre =>
          UInt64.le_trans (UInt64.le_of_lt hlt) (hall r hr hre)) (UInt64.le_refl _)⟩
      · rename_i hlt
        exact ⟨⟨q, List.mem_append_left _ hq, hqe, hqb⟩, hlower _ hall (UInt64.not_lt.mp hlt)⟩

theorem foundLowest_foldl (phdrs : List (Option GElfPhdr)) :
    FoundLowest phdrs (phdrs.foldl execMapStep none) := by
  induction phdrs using List.reverseRecOn with
  | nil => intro phdr hmem; cases hmem
  | append_singleton phdrs p ih =>
      rw [List.foldl_append, List.foldl_cons, List.foldl_nil]
      cases p with
      | none => exact ih.skip (fun phdr hp => by cases hp)
      | some p =>
          cases hp : p.execLoad with
          | true => exact ih.step hp
          | false =>
              have hskip : execMapStep (phdrs.foldl execMapStep none) (some p) = _ :=
                if_neg (by simp [hp])
              rw [hskip]
              exact ih.skip (fun q hq => by cases hq; exact hp)

theorem elfExecMapVaddr_of_lowest {elf : ElfFile} {phdr : GElfPhdr} (h : LowestExecLoad elf phdr) :
    elfExecMapVaddr elf = some (truncPage phdr.vaddr) := by
  obtain ⟨phdrs, hphdrs, hmem⟩ := h.mem
  have hfound := foundLowest_foldl phdrs
  simp only [elfExecMapVaddr, hphdrs]
  cases hb : phdrs.foldl execMapStep none with
  | none =>
      rw [hb] at hfound
      exact absurd (hfound phdr hmem) (by simp [h.exec])
  | some b =>
      rw [hb] at hfound
      obtain ⟨⟨q, hq, hqe, rfl⟩, hall⟩ := hfound
      have hle := hall phdr hmem h.exec
      have hge := truncPage_mono (h.lowest phdrs hphdrs q hq hqe)
      rw [UInt64.le_antisymm hle hge]

theorem elfBaseVaddr_of_lowest {elf : ElfFile} {phdr : GElfPhdr} (h : LowestExecLoad elf phdr) :
    ∃ base, elfBaseVaddr elf = some base := by
  obtain ⟨phdrs, hphdrs, hmem⟩ := h.mem
  have hload : phdr.type = .load := by
    have := h.exec
    simp only [GElfPhdr.execLoad, Bool.and_eq_true, decide_eq_true_eq] at this
    exact this.1.1
  simp only [elfBaseVaddr, hphdrs]
  exact firstLoad_of_mem hmem hload

/-! ## The map of a process -/

/-- The first executable mapping of the file in the map lies at `start`. -/
def FirstExecMapping (vmmap : List KinfoVmentry) (path : CString) (start : UInt64) : Prop :=
  ∃ pre kve post, vmmap = pre ++ kve :: post ∧
    (∀ k ∈ pre, k.structsize ≠ 0 ∧ (k.execMapping && k.path = path) = false) ∧
    kve.structsize ≠ 0 ∧ kve.execMapping = true ∧ kve.path = path ∧ kve.start = start

theorem FirstExecMapping.path_ne_nil {vmmap : List KinfoVmentry} {path : CString} {start : UInt64}
    (h : FirstExecMapping vmmap path start) : path ≠ [] := by
  obtain ⟨_, kve, _, _, _, _, hexec, rfl, _⟩ := h
  simp only [KinfoVmentry.execMapping, Bool.and_eq_true, decide_eq_true_eq] at hexec
  exact hexec.2

theorem processLoadAddr_of_first {vmmap : List KinfoVmentry} {path : CString} {start : UInt64}
    (h : FirstExecMapping vmmap path start) : processLoadAddr (some vmmap) path = some start := by
  obtain ⟨pre, kve, post, rfl, hpre, hsize, hexec, rfl, rfl⟩ := h
  have hentries : vmEntries (pre ++ kve :: post) = pre ++ vmEntries (kve :: post) := by
    rw [vmEntries, List.takeWhile_append_of_pos (fun k hk => by simpa using (hpre k hk).1)]
    rfl
  have hhead : vmEntries (kve :: post) = kve :: vmEntries post := by
    rw [vmEntries, List.takeWhile_cons_of_pos (by simpa using hsize)]
    rfl
  have hnone : pre.find? (fun k => k.execMapping && k.path = kve.path) = none := by
    rw [List.find?_eq_none]
    intro k hk
    simp [(hpre k hk).2]
  simp only [processLoadAddr]
  rw [hentries, hhead, List.find?_append, hnone, Option.none_or, List.find?_cons_of_pos (by simp [hexec])]
  rfl

/-! ## Headers behind an address -/

theorem phdrs_of_base {elf : ElfFile} {base : UInt64} (h : elfBaseVaddr elf = some base) :
    ∃ phdrs, elf.phdrs = some phdrs := by
  unfold elfBaseVaddr at h
  cases hphdrs : elf.phdrs with
  | none => simp [hphdrs] at h
  | some phdrs => exact ⟨phdrs, rfl⟩

theorem elfBaseVaddr_of_load {elf : ElfFile} {type : HwtRecordType} {recordAddr loadAddr : UInt64}
    (h : elfEffectiveLoadAddr elf type recordAddr = some loadAddr) :
    ∃ base, elfBaseVaddr elf = some base := by
  unfold elfEffectiveLoadAddr at h
  cases hbase : elfBaseVaddr elf with
  | none => simp [hbase] at h
  | some base => exact ⟨base, rfl⟩

end ObservableBSD.Elf
