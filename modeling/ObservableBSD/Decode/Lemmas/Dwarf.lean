import Mathlib.Data.List.Induction
import ObservableBSD.Base.FirstMin
import ObservableBSD.Base.Word
import ObservableBSD.Decode.Dwarf

/-!
# The line table behind the rows

The rows of a unit come in sequences, each with a row that ends it. `dwarf_addr_to_line` takes all rows for
lines: it answers with the first row at the nearest address below.
-/

namespace ObservableBSD.Decode

open Base

/-! ## The line table -/

structure LineRow where
  addr : UInt64
  file : CString
  line : UInt64
deriving DecidableEq

/-- A sequence of rows with the `end_sequence` row behind them; the addresses do not decrease. -/
structure LineSequence where
  rows : List LineRow
  stop : LineRow
  ascends : (rows ++ [stop]).Pairwise fun a b => a.addr ≤ b.addr

/-- The addresses from the first row up to the end of the sequence. -/
def LineSequence.Covers (s : LineSequence) (addr : UInt64) : Prop :=
  (∃ r ∈ s.rows, r.addr ≤ addr) ∧ addr < s.stop.addr

/-- The last row at or below an address that does not end the sequence. -/
def LineSequence.rowAt (s : LineSequence) (addr : UInt64) : Option LineRow :=
  (s.rows.filter fun r => r.addr ≤ addr).getLast?

abbrev LineUnit := List LineSequence

def DisjointSequences (units : List LineUnit) : Prop :=
  units.flatten.Pairwise fun s t => ∀ addr, ¬ (s.Covers addr ∧ t.Covers addr)

/-- The rows of a unit as libdwarf delivers them. -/
def LineUnit.rows (u : LineUnit) : List LineRow := u.flatMap fun s => s.rows ++ [s.stop]

/-- A row that libdwarf can read; the code does not ask whether it ends a sequence. -/
def LineRow.dwarfLine (r : LineRow) : DwarfLine := ⟨some r.addr, some r.file, some r.line⟩

def dwarfUnits (units : List LineUnit) : List DwarfUnit := units.map fun u => some (u.rows.map LineRow.dwarfLine)

/-- The source lines that are found follow the line table at an address. -/
structure FollowsLineTable (units : List LineUnit) (slide : Int64) (addr : UInt64) (filesz : Nat) : Prop where
  covered : ∀ s ∈ units.flatten, ∀ r, s.Covers (addr - slide.toUInt64) → s.rowAt (addr - slide.toUInt64) = some r →
    addr - slide.toUInt64 - r.addr < 64 →
      dwarfAddrToLine (dwarfUnits units) slide addr filesz = some (r.file, (r.line.toNat : Int))
  uncovered : (∀ s ∈ units.flatten, ¬ s.Covers (addr - slide.toUInt64)) →
    dwarfAddrToLine (dwarfUnits units) slide addr filesz = none
  order : ∀ units' : List LineUnit, units'.Perm units →
    dwarfAddrToLine (dwarfUnits units') slide addr filesz = dwarfAddrToLine (dwarfUnits units) slide addr filesz

/-! ## The nearest rows -/

def tableRows (units : List LineUnit) : List LineRow := units.flatMap LineUnit.rows

/-- The rows that the search looks at: those at or below the address, but not at address 0. -/
def LineRow.inReach (fileAddr : UInt64) (r : LineRow) : Bool := r.addr ≤ fileAddr && r.addr ≠ 0

/-- The nearest address of a row in reach, less than 64 bytes away. -/
structure Nearest (units : List LineUnit) (fileAddr addr : UInt64) : Prop where
  row : ∃ r ∈ tableRows units, r.addr = addr ∧ r.inReach fileAddr = true
  below : ∀ r ∈ tableRows units, r.inReach fileAddr = true → r.addr ≤ addr
  near : fileAddr - addr < 64

def LineUnit.firstAt (u : LineUnit) (addr : UInt64) : Option LineRow := u.rows.find? fun r => r.addr = addr

def LineRow.answer (filesz : Nat) (r : LineRow) : CString × Int :=
  (strlcpy filesz (strlcpy maxPathLen r.file), lineInt r.line)

/-- The nearest rows carry the line that the table has for the address. -/
structure NearestTells (units : List LineUnit) (fileAddr : UInt64) (filesz : Nat) : Prop where
  covered : ∀ s ∈ units.flatten, ∀ r, s.Covers fileAddr → s.rowAt fileAddr = some r → fileAddr - r.addr < 64 →
    ∃ addr, Nearest units fileAddr addr ∧
      ∀ u ∈ units, ∀ r', u.firstAt addr = some r' → r'.answer filesz = (r.file, (r.line.toNat : Int))
  uncovered : (∀ s ∈ units.flatten, ¬ s.Covers fileAddr) → ∀ addr, ¬ Nearest units fileAddr addr
  order : ∀ addr, Nearest units fileAddr addr → ∀ u ∈ units, ∀ u' ∈ units, ∀ r r',
    u.firstAt addr = some r → u'.firstAt addr = some r' → r.answer filesz = r'.answer filesz

/-! ## The search -/

def LineRow.best (r : LineRow) : BestLine := ⟨r.addr, strlcpy maxPathLen r.file, lineInt r.line, true⟩

def LineRow.distance (fileAddr : UInt64) (r : LineRow) : Nat := fileAddr.toNat - r.addr.toNat

theorem LineRow.inReach_iff {fileAddr : UInt64} {r : LineRow} :
    r.inReach fileAddr = true ↔ r.addr ≤ fileAddr ∧ r.addr ≠ 0 := by simp [LineRow.inReach]

theorem LineRow.distance_lt_iff {fileAddr : UInt64} {r r' : LineRow} (hr : r.inReach fileAddr = true) :
    r.distance fileAddr < r'.distance fileAddr ↔ r'.addr < r.addr := by
  have hle := UInt64.le_iff_toNat_le.mp (LineRow.inReach_iff.mp hr).1
  rw [UInt64.lt_iff_toNat_lt, LineRow.distance, LineRow.distance]
  omega

/-- What the loop has found in some rows. -/
inductive BestOf (fileAddr : UInt64) (rows : List LineRow) (best : BestLine) : Prop where
  | found (i : Nat) (r : LineRow) (h : FirstMin (LineRow.inReach fileAddr) (LineRow.distance fileAddr) rows i r)
      (hbest : best = r.best)
  | none (h : ∀ r ∈ rows, r.inReach fileAddr = false) (hbest : best = {})

theorem LineRow.zero_lt {r : LineRow} {fileAddr : UInt64} (hr : r.inReach fileAddr = true) : 0 < r.addr := by
  rw [UInt64.lt_iff_toNat_lt]
  exact Nat.pos_of_ne_zero fun h => (LineRow.inReach_iff.mp hr).2 (UInt64.toNat_inj.mp h)

/-- The step takes a row that is in reach and lies above the best one. -/
theorem bestLineStep_eq (fileAddr : UInt64) (best : BestLine) (r : LineRow) :
    bestLineStep fileAddr best r.dwarfLine =
      if r.inReach fileAddr = true ∧ best.addr < r.addr then r.best else best := by
  have hcond : (r.addr ≤ fileAddr ∧ best.addr < r.addr) ↔ (r.inReach fileAddr = true ∧ best.addr < r.addr) := by
    rw [LineRow.inReach_iff]
    constructor
    · rintro ⟨hle, hlt⟩
      refine ⟨⟨hle, ?_⟩, hlt⟩
      intro hzero
      rw [hzero, UInt64.lt_iff_toNat_lt] at hlt
      exact Nat.not_lt_zero _ hlt
    · rintro ⟨⟨hle, _⟩, hlt⟩
      exact ⟨hle, hlt⟩
  simp only [bestLineStep, LineRow.dwarfLine, hcond]
  rfl

theorem BestOf.step {fileAddr : UInt64} {rows : List LineRow} {best : BestLine} (h : BestOf fileAddr rows best)
    (r : LineRow) : BestOf fileAddr (rows ++ [r]) (bestLineStep fileAddr best r.dwarfLine) := by
  rw [bestLineStep_eq]
  cases h with
  | found i r₀ h hbest =>
      obtain rfl := hbest
      split
      · rename_i hcond
        refine .found rows.length r (firstMin_concat hcond.1 fun c hc hp => ?_) rfl
        exact Nat.lt_of_lt_of_le ((LineRow.distance_lt_iff hcond.1).mpr hcond.2) (h.least c hc hp)
      · rename_i hcond
        refine .found i r₀ (h.concat fun hp => ?_) rfl
        by_contra hlt
        exact hcond ⟨hp, (LineRow.distance_lt_iff hp).mp (Nat.lt_of_not_le hlt)⟩
  | none h hbest =>
      obtain rfl := hbest
      split
      · rename_i hcond
        refine .found rows.length r (firstMin_concat hcond.1 fun c hc hp => ?_) rfl
        exact absurd ((h c hc).symm.trans hp) (by decide)
      · rename_i hcond
        refine .none (fun c hc => ?_) rfl
        rcases List.mem_append.mp hc with hc | hc
        · exact h c hc
        · obtain rfl := List.mem_singleton.mp hc
          exact eq_false_of_ne_true fun hp => hcond ⟨hp, LineRow.zero_lt hp⟩

theorem bestOf_foldl (fileAddr : UInt64) (rows : List LineRow) :
    BestOf fileAddr rows (rows.foldl (fun best r => bestLineStep fileAddr best r.dwarfLine) {}) := by
  induction rows using List.reverseRecOn with
  | nil => exact .none (by simp) rfl
  | append_singleton rows r ih =>
      rw [List.foldl_append]
      exact ih.step r

/-- The units are searched as one list of rows. -/
theorem foldl_dwarfUnits (fileAddr : UInt64) (units : List LineUnit) (best : BestLine) :
    (dwarfUnits units).foldl (bestLineUnit fileAddr) best =
      (tableRows units).foldl (fun best r => bestLineStep fileAddr best r.dwarfLine) best := by
  induction units generalizing best with
  | nil => rfl
  | cons u units ih =>
      have hunit : bestLineUnit fileAddr best (some (u.rows.map LineRow.dwarfLine)) =
          u.rows.foldl (fun best r => bestLineStep fileAddr best r.dwarfLine) best := List.foldl_map
      rw [tableRows, List.flatMap_cons, List.foldl_append, ← tableRows, ← ih, ← hunit]
      rfl

theorem Nearest.unique {units : List LineUnit} {fileAddr a b : UInt64} (ha : Nearest units fileAddr a)
    (hb : Nearest units fileAddr b) : a = b := by
  obtain ⟨r, hr, rfl, hreach⟩ := ha.row
  obtain ⟨r', hr', rfl, hreach'⟩ := hb.row
  exact UInt64.le_antisymm (hb.below r hr hreach) (ha.below r' hr' hreach')

theorem Nearest.perm {units units' : List LineUnit} {fileAddr addr : UInt64} (h : Nearest units fileAddr addr)
    (hperm : units'.Perm units) : Nearest units' fileAddr addr := by
  have hmem : ∀ r, r ∈ tableRows units' ↔ r ∈ tableRows units := fun r =>
    (hperm.flatMap_right LineUnit.rows).mem_iff
  obtain ⟨r, hr, haddr, hreach⟩ := h.row
  exact ⟨⟨r, (hmem r).mpr hr, haddr, hreach⟩, fun c hc hp => h.below c ((hmem c).mp hc) hp, h.near⟩

/-- The answer is the first row at the nearest address. -/
theorem dwarfAddrToLine_of_nearest (filesz : Nat) {units : List LineUnit} {slide : Int64} {addr nearest : UInt64}
    (h : Nearest units (addr - slide.toUInt64) nearest) :
    ∃ r, (tableRows units).find? (fun r => r.addr = nearest) = some r ∧
      dwarfAddrToLine (dwarfUnits units) slide addr filesz = some (r.answer filesz) := by
  obtain ⟨r₀, hr₀, haddr, hreach⟩ := h.row
  simp only [dwarfAddrToLine, foldl_dwarfUnits]
  cases bestOf_foldl (addr - slide.toUInt64) (tableRows units) with
  | none hnone hbest => exact absurd ((hnone r₀ hr₀).symm.trans hreach) (by decide)
  | found i r hfirst hbest =>
      have hle := h.below r (List.mem_of_getElem? hfirst.get) hfirst.mem
      have heq : r.addr = nearest := by
        refine UInt64.le_antisymm hle ?_
        by_contra hlt
        have hlt' : r.addr < r₀.addr := haddr ▸ UInt64.not_le.mp hlt
        exact Nat.not_lt.mpr (hfirst.least r₀ hr₀ hreach) ((LineRow.distance_lt_iff hreach).mpr hlt')
      refine ⟨r, hfirst.find?_of (by simpa using heq) fun b _ hb => ?_, ?_⟩
      · have hb' : b.addr = r.addr := (of_decide_eq_true hb).trans heq.symm
        exact ⟨by rw [LineRow.inReach, hb']; exact hfirst.mem, by rw [LineRow.distance, hb', LineRow.distance]⟩
      · rw [hbest]
        simp only [LineRow.best, heq, h.near, and_self, if_true]
        rfl

/-- Nothing is found without a row in reach that is near. -/
theorem dwarfAddrToLine_of_not_nearest {units : List LineUnit} {slide : Int64} {addr : UInt64} {filesz : Nat}
    (h : ∀ nearest, ¬ Nearest units (addr - slide.toUInt64) nearest) :
    dwarfAddrToLine (dwarfUnits units) slide addr filesz = none := by
  simp only [dwarfAddrToLine, foldl_dwarfUnits]
  cases bestOf_foldl (addr - slide.toUInt64) (tableRows units) with
  | none hnone hbest => rw [hbest]; rfl
  | found i r hfirst hbest =>
      have hfar : ¬ addr - slide.toUInt64 - r.addr < 64 := by
        intro hnear
        refine h r.addr ⟨⟨r, List.mem_of_getElem? hfirst.get, rfl, hfirst.mem⟩, fun c hc hp => ?_, hnear⟩
        by_contra hlt
        exact Nat.not_lt.mpr (hfirst.least c hc hp) ((LineRow.distance_lt_iff hp).mpr (UInt64.not_le.mp hlt))
      rw [hbest]
      simp only [LineRow.best, hfar, and_false, if_false]

/-- The answer is the first row of some unit. -/
theorem exists_firstAt {units : List LineUnit} {addr : UInt64} {r : LineRow}
    (h : (tableRows units).find? (fun r => r.addr = addr) = some r) : ∃ u ∈ units, u.firstAt addr = some r := by
  rw [tableRows, List.find?_flatMap] at h
  exact List.exists_of_findSome?_eq_some h

/-- In another order of the units, any of their first rows is the answer. -/
theorem exists_perm_answer (filesz : Nat) {units : List LineUnit} {slide : Int64} {addr nearest : UInt64} {u : LineUnit}
    {r : LineRow} (h : Nearest units (addr - slide.toUInt64) nearest) (hu : u ∈ units)
    (hr : u.firstAt nearest = some r) : ∃ units' : List LineUnit, units'.Perm units ∧
      dwarfAddrToLine (dwarfUnits units') slide addr filesz = some (r.answer filesz) := by
  obtain ⟨front, back, rfl⟩ := List.append_of_mem hu
  have hperm : (u :: (front ++ back)).Perm (front ++ u :: back) := List.perm_middle.symm
  obtain ⟨r', hr', hanswer⟩ := dwarfAddrToLine_of_nearest filesz (h.perm hperm)
  have hfirst : (tableRows (u :: (front ++ back))).find? (fun r => r.addr = nearest) = some r := by
    rw [tableRows, List.flatMap_cons, List.find?_append, ← LineUnit.firstAt, hr, Option.some_or]
  obtain rfl := Option.some.inj (hr'.symm.trans hfirst)
  exact ⟨_, hperm, hanswer⟩

end ObservableBSD.Decode
