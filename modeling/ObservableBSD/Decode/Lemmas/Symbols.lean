import Mathlib.Data.List.Induction
import Mathlib.Data.List.TakeWhile
import ObservableBSD.Base.Word
import ObservableBSD.Decode.Image

/-!
# Symbol lookup

In a table sorted by address the binary search finds the last symbol at or below `ip`, and the lookup answers
with it when its range reaches `ip`. No other symbol is tried.
-/

namespace ObservableBSD.Decode

open Base

/-- The end of the range of a symbol; one of unknown size answers for 4096 bytes behind its address. -/
def SymEntry.stop (e : SymEntry) : Nat := e.addr.toNat + if 0 < e.size then e.size.toNat else 4097

def SymEntry.Contains (e : SymEntry) (ip : UInt64) : Prop := e.addr ≤ ip ∧ ip.toNat < e.stop

def SymEntry.Fits (e : SymEntry) : Prop := e.addr.toNat + e.size.toNat < UInt64.size

/-! ## The binary search -/

theorem symTableSearch_eq {below above : List SymEntry} {ip : UInt64} (hbelow : ∀ e ∈ below, e.addr ≤ ip)
    (habove : ∀ e ∈ above, ¬ e.addr ≤ ip) (lo hi best : Int) (hlo : 0 ≤ lo) (hlast : lo ≤ below.length)
    (hnext : below.length ≤ hi + 1) (hhi : hi + 1 ≤ (below ++ above).length) (hbest : best = lo - 1) :
    symTableSearch (below ++ above) ip lo hi best = below.length - 1 := by
  fun_induction symTableSearch (below ++ above) ip lo hi best with
  | case1 lo hi best hle mid e he haddr ih =>
      -- an address at or below `ip` is in the first part
      have hmid : mid < below.length := by
        by_contra hge
        have hmem : e ∈ above := by
          rw [List.getElem?_append_right (by omega)] at he
          exact List.mem_of_getElem? he
        exact habove e hmem haddr
      exact ih (by omega) (by omega) hnext hhi (by omega)
  | case2 lo hi best hle mid e he haddr ih =>
      have hmid : below.length ≤ mid := by
        by_contra hlt
        have hmem : e ∈ below := by
          rw [List.getElem?_append_left (by omega)] at he
          exact List.mem_of_getElem? he
        exact haddr (hbelow e hmem)
      exact ih hlo hlast (by omega) (by omega) hbest
  | case3 lo hi best hle mid hnone =>
      rw [List.getElem?_eq_none_iff] at hnone
      omega
  | case4 lo hi best hle => omega

/-- The symbols at or below `ip` come first. -/
def symsBelow (table : List SymEntry) (ip : UInt64) : List SymEntry := table.takeWhile fun e => e.addr ≤ ip

theorem SortedByAddr.exists_split {table : List SymEntry} (h : SortedByAddr table) (ip : UInt64) :
    ∃ above, table = symsBelow table ip ++ above ∧ (∀ e ∈ symsBelow table ip, e.addr ≤ ip) ∧
      ∀ e ∈ above, ¬ e.addr ≤ ip := by
  refine ⟨table.dropWhile fun e => e.addr ≤ ip, List.takeWhile_append_dropWhile.symm, ?_, ?_⟩
  · intro e he
    simpa using List.mem_takeWhile_imp he
  · induction table with
    | nil => nofun
    | cons a table ih =>
        obtain ⟨hhead, htail⟩ := List.pairwise_cons.1 h
        by_cases ha : a.addr ≤ ip
        · rw [List.dropWhile_cons_of_pos (by simpa using ha)]
          exact ih htail
        · rw [List.dropWhile_cons_of_neg (by simpa using ha)]
          intro e he hle
          rcases List.mem_cons.1 he with rfl | he
          · exact ha hle
          · exact ha (UInt64.le_trans (hhead e he) hle)

/-! ## The lookup -/

theorem SymEntry.contains_iff {e : SymEntry} (hfits : e.Fits) {ip : UInt64} (hle : e.addr ≤ ip) :
    e.Contains ip ↔ if 0 < e.size then ¬ e.addr + e.size ≤ ip else ¬ 4096 < ip - e.addr := by
  have hle' : e.addr.toNat ≤ ip.toNat := UInt64.le_iff_toNat_le.1 hle
  unfold SymEntry.Contains SymEntry.stop
  split
  · rw [UInt64.le_iff_toNat_le (a := e.addr + e.size), toNat_add_of_lt hfits]
    simp [hle]
  · have hfar : (4096 : UInt64) < ip - e.addr ↔ 4096 < ip.toNat - e.addr.toNat := by
      rw [UInt64.lt_iff_toNat_lt, UInt64.toNat_sub_of_le _ _ hle]
      rfl
    rw [hfar]
    simp only [hle, true_and]
    omega

/-- The symbol that the binary search finds. -/
def lastBelow (table : List SymEntry) (ip : UInt64) : Option SymEntry := (symsBelow table ip).getLast?

theorem symTableLookup_eq {table : List SymEntry} (hsorted : SortedByAddr table) (ip : UInt64) :
    symTableLookup table ip =
      match lastBelow table ip with
      | none => none
      | some e =>
          if 0 < e.size then (if e.addr + e.size ≤ ip then none else some e)
          else if 4096 < ip - e.addr then none
          else some e := by
  obtain ⟨above, htable, hbelow, habove⟩ := hsorted.exists_split ip
  unfold lastBelow
  generalize symsBelow table ip = below at *
  subst htable
  have hlen : (below ++ above).length = below.length + above.length := List.length_append
  have hsearch := symTableSearch_eq hbelow habove 0 ((below ++ above).length - 1) (-1) (by omega) (by omega)
    (by omega) (by omega) (by omega)
  unfold symTableLookup
  rw [hsearch]
  cases below using List.reverseRecOn with
  | nil => simp
  | append_singleton below e =>
      have hlen : ¬ ((below ++ [e]) ++ above).length = 0 := by simp
      have hindex : (((below ++ [e]).length : Int) - 1).toNat = below.length := by simp
      have hpos : ¬ ((below ++ [e]).length : Int) - 1 < 0 := by simp
      rw [if_neg hlen]
      simp only [hindex, if_neg hpos]
      simp

theorem lastBelow_eq_some_iff {table : List SymEntry} (hsorted : SortedByAddr table) {ip : UInt64} {e : SymEntry} :
    lastBelow table ip = some e ↔
      ∃ pre post, table = pre ++ e :: post ∧ e.addr ≤ ip ∧ ∀ x ∈ post, ¬ x.addr ≤ ip := by
  constructor
  · intro h
    obtain ⟨above, htable, hbelow, habove⟩ := hsorted.exists_split ip
    obtain ⟨pre, hpre⟩ := List.getLast?_eq_some_iff.1 h
    refine ⟨pre, above, ?_, hbelow e (by simp [hpre]), habove⟩
    rw [hpre, List.append_assoc] at htable
    exact htable
  · rintro ⟨pre, post, rfl, he, hpost⟩
    have hpre : ∀ x ∈ pre, decide (x.addr ≤ ip) = true := by
      intro x hx
      have hxe := (List.pairwise_append.1 hsorted).2.2 x hx e List.mem_cons_self
      exact decide_eq_true (UInt64.le_trans hxe he)
    have hnone : post.takeWhile (fun x => x.addr ≤ ip) = [] := by
      cases post with
      | nil => rfl
      | cons x post => exact List.takeWhile_cons_of_neg (by simpa using hpost x List.mem_cons_self)
    rw [lastBelow, symsBelow, List.takeWhile_append_of_pos hpre,
      List.takeWhile_cons_of_pos (by simpa using he), hnone]
    exact List.getLast?_concat

theorem symTableLookup_eq_some_iff {table : List SymEntry} (hsorted : SortedByAddr table)
    (hfits : ∀ e ∈ table, e.Fits) {ip : UInt64} {e : SymEntry} :
    symTableLookup table ip = some e ↔ lastBelow table ip = some e ∧ e.Contains ip := by
  rw [symTableLookup_eq hsorted]
  cases hlast : lastBelow table ip with
  | none => simp
  | some x =>
      obtain ⟨pre, post, rfl, hx, -⟩ := (lastBelow_eq_some_iff hsorted).1 hlast
      have hcontains := SymEntry.contains_iff (hfits x (by simp)) hx
      simp only [Option.some_inj]
      constructor
      · intro h
        split at h
        · split at h
          · cases h
          · cases h
            exact ⟨rfl, hcontains.2 (by rwa [if_pos ‹0 < e.size›])⟩
        · split at h
          · cases h
          · cases h
            exact ⟨rfl, hcontains.2 (by rwa [if_neg ‹¬ 0 < e.size›])⟩
      · rintro ⟨rfl, h⟩
        have hrange := hcontains.1 h
        split at hrange
        · rw [if_pos ‹0 < x.size›, if_neg hrange]
        · rw [if_neg ‹¬ 0 < x.size›, if_neg hrange]

/-! ## Completeness -/

/-- Where a symbol of known size contains `ip`, the lookup answers with a symbol that does. -/
def LookupComplete (table : List SymEntry) (ip : UInt64) : Prop :=
  (∃ s ∈ table, 0 < s.size ∧ s.Contains ip) → ∃ e ∈ table, symTableLookup table ip = some e ∧ e.Contains ip

/-- A symbol of known size contains `ip`, but the last symbol at or below `ip` ends in front of it. -/
def Shadowed (table : List SymEntry) (ip : UInt64) : Prop :=
  ∃ pre s mid e post, table = pre ++ s :: mid ++ e :: post ∧ 0 < s.size ∧ s.Contains ip ∧
    e.addr ≤ ip ∧ e.stop ≤ ip.toNat ∧ ∀ x ∈ post, ¬ x.addr ≤ ip

theorem lookupComplete_iff {table : List SymEntry} (hsorted : SortedByAddr table)
    (hfits : ∀ e ∈ table, e.Fits) (ip : UInt64) : LookupComplete table ip ↔ ¬ Shadowed table ip := by
  constructor
  · rintro h ⟨pre, s, mid, e, post, rfl, hsize, hs, he, hstop, hpost⟩
    obtain ⟨x, -, hlookup, hx⟩ := h ⟨s, by simp, hsize, hs⟩
    have hlast := (lastBelow_eq_some_iff hsorted).2 ⟨pre ++ s :: mid, post, rfl, he, hpost⟩
    cases hlast.symm.trans ((symTableLookup_eq_some_iff hsorted hfits).1 hlookup).1
    exact Nat.not_lt.2 hstop hx.2
  · rintro h ⟨s, hmem, hsize, hs⟩
    obtain ⟨above, htable, hbelow, habove⟩ := hsorted.exists_split ip
    have hsbelow : s ∈ symsBelow table ip := by
      rw [htable] at hmem
      rcases List.mem_append.1 hmem with hmem | hmem
      · exact hmem
      · exact absurd hs.1 (habove s hmem)
    obtain ⟨e, hlast⟩ : ∃ e, lastBelow table ip = some e :=
      List.getLast?_isSome.2 (List.ne_nil_of_mem hsbelow) |> Option.isSome_iff_exists.1
    obtain ⟨pre, hpre⟩ := List.getLast?_eq_some_iff.1 hlast
    have he : e.addr ≤ ip := hbelow e (by simp [hpre])
    have hein : e ∈ table := by
      rw [htable, hpre]
      simp
    by_cases hcontains : e.Contains ip
    · exact ⟨e, hein, (symTableLookup_eq_some_iff hsorted hfits).2 ⟨hlast, hcontains⟩, hcontains⟩
    · -- the symbol that contains `ip` stands in front of the one found
      have hne : s ≠ e := fun heq => hcontains (heq ▸ hs)
      have hspre : s ∈ pre := by
        rw [hpre] at hsbelow
        simpa [hne] using hsbelow
      obtain ⟨front, mid, rfl⟩ := List.append_of_mem hspre
      refine absurd ⟨front, s, mid, e, above, ?_, hsize, hs, he, ?_, habove⟩ h
      · rw [hpre, List.append_assoc] at htable
        exact htable
      · exact Nat.le_of_not_lt fun hlt => hcontains ⟨he, hlt⟩

/-- A symbol of known size goes on behind the end of a later one only where the next symbol begins. -/
def EndsInOrder (table : List SymEntry) : Prop :=
  ∀ pre s mid e post, table = pre ++ s :: mid ++ e :: post → 0 < s.size →
    s.stop ≤ e.stop ∨ ∃ next, post.head? = some next ∧ next.addr.toNat ≤ e.stop

theorem EndsInOrder.of_pairwise {table : List SymEntry} (h : table.Pairwise fun a b => a.stop ≤ b.stop) :
    EndsInOrder table := by
  rintro pre s mid e post rfl _
  exact .inl ((List.pairwise_append.1 h).2.2 s (by simp) e List.mem_cons_self)

theorem exists_shadowed_iff {table : List SymEntry} (hsorted : SortedByAddr table)
    (hfits : ∀ e ∈ table, e.Fits) : (∃ ip, Shadowed table ip) ↔ ¬ EndsInOrder table := by
  constructor
  · rintro ⟨ip, pre, s, mid, e, post, rfl, hsize, hs, he, hstop, hpost⟩ hends
    rcases hends pre s mid e post rfl hsize with hle | ⟨next, hnext, hle⟩
    · exact Nat.not_lt.2 (Nat.le_trans hle hstop) hs.2
    · have hin : next ∈ post := List.mem_of_mem_head? hnext
      exact hpost next hin (UInt64.le_iff_toNat_le.2 (Nat.le_trans hle hstop))
  · intro hends
    by_contra hnone
    refine hends fun pre s mid e post htable hsize => ?_
    by_contra hnot
    obtain ⟨hlt, hnext⟩ := not_or.1 hnot
    subst htable
    -- the first address that the later symbol does not answer for
    have hstop : e.stop < UInt64.size := by
      have hfit : s.addr.toNat + s.size.toNat < UInt64.size := hfits s (by simp)
      unfold SymEntry.stop at hlt ⊢
      rw [if_pos hsize] at hlt
      omega
    have hip : (UInt64.ofNat e.stop).toNat = e.stop := UInt64.toNat_ofNat_of_lt' hstop
    obtain ⟨-, hbehind, hcross⟩ := List.pairwise_append.1 hsorted
    have hse : s.addr ≤ e.addr := hcross s (by simp) e List.mem_cons_self
    have he : e.addr ≤ UInt64.ofNat e.stop := by
      rw [UInt64.le_iff_toNat_le, hip]
      exact Nat.le_add_right _ _
    have hpost : ∀ x ∈ post, ¬ x.addr ≤ UInt64.ofNat e.stop := by
      intro x hx hle
      obtain ⟨next, rest, rfl⟩ : ∃ next rest, post = next :: rest :=
        List.exists_cons_of_ne_nil (List.ne_nil_of_mem hx)
      have hfirst : next.addr ≤ x.addr := by
        rcases List.mem_cons.1 hx with rfl | hx
        · exact UInt64.le_refl _
        · exact (List.pairwise_cons.1 (List.pairwise_cons.1 hbehind).2).1 x hx
      have hnextle := UInt64.le_iff_toNat_le.1 (UInt64.le_trans hfirst hle)
      rw [hip] at hnextle
      exact hnext ⟨next, rfl, hnextle⟩
    exact hnone ⟨_, pre, s, mid, e, post, rfl, hsize, ⟨UInt64.le_trans hse he, by omega⟩, he, by omega, hpost⟩

theorem forall_lookupComplete_iff {table : List SymEntry} (hsorted : SortedByAddr table)
    (hfits : ∀ e ∈ table, e.Fits) : (∀ ip, LookupComplete table ip) ↔ EndsInOrder table := by
  rw [← not_iff_not, ← exists_shadowed_iff hsorted hfits]
  simp only [lookupComplete_iff hsorted hfits, not_forall, not_not]

/-! ## Tables of added symbols -/

/-- The arguments of `sym_table_add`. -/
structure SymAdd where
  addr : UInt64
  size : UInt64
  name : Option CString
  binary : CString
  slide : Int64

def symTableAddAll (adds : List SymAdd) : List SymEntry :=
  adds.foldl (fun st a => symTableAdd st a.addr a.size a.name a.binary a.slide) []

/-- The sort that keeps the order of symbols at one address. -/
def stableSort : SymSort where
  sort st := st.mergeSort fun a b => a.addr ≤ b.addr
  sorts st := by
    have htrans : ∀ a b c : SymEntry, decide (a.addr ≤ b.addr) = true → decide (b.addr ≤ c.addr) = true →
        decide (a.addr ≤ c.addr) = true := fun a b c hab hbc =>
      decide_eq_true (UInt64.le_trans (of_decide_eq_true hab) (of_decide_eq_true hbc))
    have htotal : ∀ a b : SymEntry, (decide (a.addr ≤ b.addr) || decide (b.addr ≤ a.addr)) = true :=
      fun a b => by simpa using UInt64.le_total a.addr b.addr
    refine ⟨List.mergeSort_perm _ _, ?_⟩
    simpa [SortedByAddr] using List.pairwise_mergeSort htrans htotal st

theorem symTableSort_sortOf (qsort : SymSort) (st : List SymEntry) : SortOf st (symTableSort qsort st) := by
  unfold symTableSort
  split
  · exact qsort.sorts st
  · refine ⟨List.Perm.refl _, ?_⟩
    cases st with
    | nil => exact List.Pairwise.nil
    | cons a st =>
        cases st with
        | nil => exact List.pairwise_singleton _ a
        | cons b st => simp at *

end ObservableBSD.Decode
