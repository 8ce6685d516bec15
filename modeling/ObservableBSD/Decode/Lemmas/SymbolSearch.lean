import ObservableBSD.Base.BinarySearch
import ObservableBSD.Decode.Lemmas.Symbols
import ObservableBSD.Decode.Symbols

/-!
# The search of `sym_table_lookup` and the scan

Each turn of the loop is a step of a binary search for the last symbol at or below `ip`, and no `int` of it overflows.
-/

namespace ObservableBSD.Decode

open Base

instance (e : SymEntry) (ip : UInt64) : Decidable (e.Contains ip) := inferInstanceAs (Decidable (_ ∧ _))

def isBelow (ip : UInt64) (e : SymEntry) : Bool := e.addr ≤ ip

/-- The last symbol at or below `ip` that a scan from left to right meets, when its range reaches `ip`. -/
def linearLookup (table : List SymEntry) (ip : UInt64) : Option (SymEntry × Nat) :=
  (scanLast (isBelow ip) table).filter fun x => x.1.Contains ip

/-- What is expected of the lookup: it looks at entries of the table only, without an undefined outcome; it ends; and
it returns what the scan finds. -/
structure SymTable.RefinesScan (st : SymTable) (ip : UInt64) : Prop where
  inBounds : ∀ v, st.Searching ip v → v.lo ≤ v.hi →
    ∃ mid v', v.mid? = some mid ∧ 0 ≤ mid.toInt ∧ mid.toInt < st.entries.length ∧ st.searchTurn ip v = some v'
  bestInBounds : ∀ v, st.Searching ip v → -1 ≤ v.best.toInt ∧ v.best.toInt < st.entries.length
  ends : ∃ r, st.Returns ip r
  answer : ∀ r, st.Returns ip r → r = linearLookup st.entries ip

/-! ## Turns and steps -/

def SearchVars.search (v : SearchVars) : Search := ⟨v.lo.toInt, v.hi.toInt, v.best.toInt⟩

theorem int32?_of_bounds {v : Int} (hlow : -2 ^ 31 ≤ v) (hhigh : v < 2 ^ 31) :
    ∃ i, int32? v = some i ∧ i.toInt = v :=
  ⟨Int32.ofInt v, if_pos ⟨hlow, hhigh⟩, Int32.toInt_ofInt_of_le hlow hhigh⟩

variable {st : SymTable} {ip : UInt64} {v v' : SearchVars}

theorem SymTable.start_search (h : st.entries ≠ []) :
    SearchVars.search ⟨0, Int32.ofNat st.entries.length - 1, -1⟩ = Search.start st.entries := by
  have hlt := st.count_lt
  have hpos : 0 < st.entries.length := List.length_pos_iff.mpr h
  have hone : (1 : Int32).toInt = 1 := rfl
  have hhi : (Int32.ofNat st.entries.length - 1).toInt = st.entries.length - 1 := by
    have hle : (1 : Int32) ≤ Int32.ofNat st.entries.length := by
      rw [Int32.le_iff_toInt_le, Int32.toInt_ofNat_of_lt hlt, hone]
      omega
    rw [Int32.toInt_sub_of_le _ _ (by decide) hle, Int32.toInt_ofNat_of_lt hlt, hone]
  rw [SearchVars.search, hhi]
  rfl

theorem SearchVars.mid?_eq {p : SymEntry → Bool} {l : List SymEntry} (hinv : v.search.Inv p l)
    (hlen : l.length < 2 ^ 31) (hle : v.lo ≤ v.hi) : ∃ mid, v.mid? = some mid ∧ mid.toInt = v.search.mid := by
  have hle' : v.search.lo ≤ v.search.hi := Int32.le_iff_toInt_le.mp hle
  have hbounds := Search.mid_bounds hle'
  have hnonneg := hinv.lo_nonneg
  have hlt := hinv.hi_lt
  obtain ⟨width, hwidth, hw⟩ := int32?_of_bounds (v := v.hi.toInt - v.lo.toInt)
    (by simp only [SearchVars.search] at *; omega) (by simp only [SearchVars.search] at *; omega)
  have hhalf : v.lo.toInt + width.toInt.tdiv 2 = v.search.mid := by
    rw [hw, Int.tdiv_eq_ediv_of_nonneg (by simp only [SearchVars.search] at *; omega)]
    rfl
  obtain ⟨mid, hmid, hm⟩ := int32?_of_bounds (v := v.search.mid) (by omega) (by omega)
  refine ⟨mid, ?_, hm⟩
  rw [SearchVars.mid?, hwidth, Option.bind_eq_bind, Option.bind_some, hhalf, hmid]

theorem SymTable.searchTurn_step (hinv : v.search.Inv (isBelow ip) st.entries) (hle : v.lo ≤ v.hi) :
    ∃ mid v', v.mid? = some mid ∧ 0 ≤ mid.toInt ∧ mid.toInt < st.entries.length ∧ st.searchTurn ip v = some v' ∧
      v.search.Step (isBelow ip) st.entries v'.search := by
  have hle' : v.search.lo ≤ v.search.hi := Int32.le_iff_toInt_le.mp hle
  have hlen := st.count_lt
  obtain ⟨mid, hmid, hm⟩ := SearchVars.mid?_eq hinv hlen hle
  obtain ⟨hnonneg, hlt⟩ := hinv.mid_lt hle'
  obtain ⟨e, he⟩ : ∃ e, st.entries[mid.toInt.toNat]? = some e :=
    ⟨_, List.getElem?_eq_getElem (by omega : mid.toInt.toNat < st.entries.length)⟩
  have hentry : st.entry? mid = some e := by
    rw [SymTable.entry?, if_pos (Int32.le_iff_toInt_le.mpr (by rw [hm]; exact hnonneg)), he]
  rw [hm] at he
  by_cases haddr : e.addr ≤ ip
  · obtain ⟨lo, hlo, hl⟩ := int32?_of_bounds (v := v.search.mid + 1) (by omega) (by omega)
    refine ⟨mid, { v with lo, best := mid }, hmid, by omega, by omega, ?_, ?_⟩
    · simp only [SymTable.searchTurn, hmid, hentry, hm, hlo, haddr, Option.bind_eq_bind, Option.bind_some, if_true]
    · have hbelow : isBelow ip e = true := decide_eq_true haddr
      have hstep := Search.Step.right hle' he hbelow
      rwa [← hl, ← hm] at hstep
  · obtain ⟨hi, hhi, hh⟩ := int32?_of_bounds (v := v.search.mid - 1) (by omega) (by omega)
    refine ⟨mid, { v with hi }, hmid, by omega, by omega, ?_, ?_⟩
    · simp only [SymTable.searchTurn, hmid, hentry, hm, hhi, haddr, Option.bind_eq_bind, Option.bind_some, if_false]
    · have hbelow : isBelow ip e = false := decide_eq_false haddr
      have hstep := Search.Step.left hle' he hbelow
      rwa [← hh] at hstep

theorem SortedByAddr.belowFirst {table : List SymEntry} (h : SortedByAddr table) (ip : UInt64) :
    table.Pairwise fun a b => isBelow ip b = true → isBelow ip a = true :=
  h.imp fun hab hb => decide_eq_true (UInt64.le_trans hab (of_decide_eq_true hb))

theorem SymTable.Searching.inv (hsorted : SortedByAddr st.entries) (h : st.Searching ip v) :
    v.search.Inv (isBelow ip) st.entries := by
  induction h with
  | start hne =>
      rw [SymTable.start_search hne]
      exact Search.Inv.start _ _
  | turn _ hle hturn ih =>
      obtain ⟨_, v', _, _, _, hturn', hstep⟩ := SymTable.searchTurn_step ih hle
      obtain rfl := Option.some.inj (hturn'.symm.trans hturn)
      exact ih.step (hsorted.belowFirst ip) hstep

theorem SymTable.Searching.exists_end (hsorted : SortedByAddr st.entries) (h : st.Searching ip v) :
    ∃ v', st.Searching ip v' ∧ v'.hi < v'.lo := by
  induction hn : v.search.width using Nat.strongRecOn generalizing v with
  | ind n ih =>
      by_cases hle : v.lo ≤ v.hi
      · obtain ⟨_, v', _, _, _, hturn, hstep⟩ := SymTable.searchTurn_step (h.inv hsorted) hle
        exact ih _ (hn ▸ hstep.width_lt) (h.turn hle hturn) rfl
      · exact ⟨v, h, Int32.not_le.mp hle⟩

/-! ## The answer -/

theorem SymTable.found_of_neg {best : Int32} (h : best.toInt = -1) : st.found ip best = none := by
  rw [SymTable.found, if_pos]
  rw [Int32.lt_iff_toInt_lt, h]
  decide

theorem SymTable.found_of_entry {best : Int32} {i : Nat} {e : SymEntry} (hbest : best.toInt = i)
    (he : st.entries[i]? = some e) (hfits : e.Fits) (hle : e.addr ≤ ip) :
    st.found ip best = if e.Contains ip then some (e, i) else none := by
  have hnonneg : 0 ≤ best := by
    rw [Int32.le_iff_toInt_le, hbest]
    exact Int.natCast_nonneg i
  have hentry : st.entry? best = some e := by
    rw [SymTable.entry?, if_pos hnonneg, hbest, Int.toNat_natCast, he]
  rw [SymTable.found, if_neg (Int32.not_lt.mpr hnonneg), hentry, hbest, Int.toNat_natCast]
  simp only [SymEntry.contains_iff hfits hle, Option.bind_eq_bind, Option.bind_some]
  by_cases hsize : 0 < e.size
  · by_cases hend : e.addr + e.size ≤ ip <;> simp [hsize, hend]
  · by_cases hfar : 4096 < ip - e.addr <;> simp [hsize, hfar]

theorem SymTable.found_eq (hfits : ∀ e ∈ st.entries, e.Fits) (hinv : v.search.Inv (isBelow ip) st.entries)
    (hend : v.hi < v.lo) : st.found ip v.best = linearLookup st.entries ip := by
  rcases hinv.scanLast (Int32.lt_iff_toInt_lt.mp hend) with ⟨hbest, hscan⟩ | ⟨i, e, hbest, he, hscan⟩
  · rw [SymTable.found_of_neg hbest, linearLookup, hscan]
    rfl
  · have hbelow : isBelow ip e = true := by
      have hlo := hinv.best_eq
      exact hinv.front i e (by omega) he
    rw [SymTable.found_of_entry hbest he (hfits e (List.mem_of_getElem? he)) (of_decide_eq_true hbelow), linearLookup,
      hscan, Option.filter_some]
    by_cases hcontains : e.Contains ip <;> simp [hcontains]

theorem map_scanLast {table : List SymEntry} (hsorted : SortedByAddr table) (ip : UInt64) :
    (scanLast (isBelow ip) table).map Prod.fst = lastBelow table ip := by
  cases hlast : lastBelow table ip with
  | none =>
      have hnone : ∀ e ∈ table, isBelow ip e = false := by
        intro e he
        obtain ⟨above, htable, _, habove⟩ := hsorted.exists_split ip
        rw [List.getLast?_eq_none_iff.mp hlast, List.nil_append] at htable
        exact decide_eq_false (habove e (htable ▸ he))
      rw [scanLast_eq_none hnone]
      rfl
  | some e =>
      obtain ⟨pre, post, htable, hle, hpost⟩ := (lastBelow_eq_some_iff hsorted).mp hlast
      have hplace : table[pre.length]? = some e := by simp [htable]
      rw [scanLast_eq_some hplace (decide_eq_true hle)]
      · rfl
      · intro j x hj hx
        rw [htable, List.getElem?_append_right (Nat.le_of_lt hj)] at hx
        obtain ⟨k, hk⟩ : ∃ k, j - pre.length = k + 1 := ⟨j - pre.length - 1, by omega⟩
        rw [hk, List.getElem?_cons_succ] at hx
        exact decide_eq_false (hpost x (List.mem_of_getElem? hx))

theorem symTableLookup_eq_linearLookup {table : List SymEntry} (hsorted : SortedByAddr table)
    (hfits : ∀ e ∈ table, e.Fits) (ip : UInt64) : symTableLookup table ip = (linearLookup table ip).map Prod.fst := by
  have hlinear : (linearLookup table ip).map Prod.fst = (lastBelow table ip).filter fun e => e.Contains ip := by
    rw [← map_scanLast hsorted, Option.filter_map]
    rfl
  refine Option.ext fun e => ?_
  rw [hlinear, symTableLookup_eq_some_iff hsorted hfits, Option.filter_eq_some_iff, decide_eq_true_eq]

end ObservableBSD.Decode
