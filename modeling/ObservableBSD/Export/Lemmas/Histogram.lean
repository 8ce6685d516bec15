import ObservableBSD.Export.Meaning

/-!
# Histograms from buckets
-/

namespace ObservableBSD.Export

/-! ## Lists sorted by a number -/

/-- In a list that grows, the elements up to one of them are those that are at most as large. -/
theorem filter_le_of_pairwise {α : Type} (f : α → Int) {s : List α} (h : s.Pairwise fun a b => f a < f b)
    {i : Nat} {x : α} (hx : s[i]? = some x) : (s.filter fun y => f y ≤ f x) = s.take (i + 1) := by
  induction s generalizing i with
  | nil => cases hx
  | cons a s ih =>
      obtain ⟨hhead, htail⟩ := List.pairwise_cons.mp h
      cases i with
      | zero =>
          obtain rfl : a = x := Option.some.inj hx
          have hnone : (s.filter fun y => f y ≤ f a) = [] := by
            rw [List.filter_eq_nil_iff]
            intro y hy hle
            have hlt := hhead y hy
            rw [decide_eq_true_eq] at hle
            omega
          rw [List.filter_cons_of_pos (by simp), hnone]
          rfl
      | succ i =>
          have hmem : x ∈ s := List.mem_of_getElem? hx
          have hlt := hhead x hmem
          rw [List.filter_cons_of_pos (by rw [decide_eq_true_eq]; omega), ih htail hx]
          rfl

/-! ## Totals -/

theorem countOf_cons (b : HistogramBucket) (buckets : List HistogramBucket) :
    countOf (b :: buckets) = b.count.toInt + countOf buckets := rfl

theorem total_perm {counts counts' : List Int} (h : counts.Perm counts') : total counts = total counts' := by
  unfold total
  exact h.foldr_eq' (fun x _ y _ z => by omega) 0

theorem countOf_perm {buckets buckets' : List HistogramBucket} (h : buckets.Perm buckets') :
    countOf buckets = countOf buckets' := total_perm (h.map _)

theorem countOf_append (buckets buckets' : List HistogramBucket) :
    countOf (buckets ++ buckets') = countOf buckets + countOf buckets' := by
  induction buckets with
  | nil => exact (Int.zero_add _).symm
  | cons b buckets ih =>
      rw [List.cons_append, countOf_cons, countOf_cons, ih]
      omega

theorem countOf_nonneg {buckets : List HistogramBucket} (h : ∀ b ∈ buckets, 0 ≤ b.count.toInt) :
    0 ≤ countOf buckets := by
  induction buckets with
  | nil => exact Int.le_refl 0
  | cons b buckets ih =>
      have hb := h b List.mem_cons_self
      have hrest := ih fun other hother => h other (List.mem_cons_of_mem _ hother)
      rw [countOf_cons]
      omega

theorem int64Add?_toInt {a b : Int64} (hlow : -9223372036854775808 ≤ a.toInt + b.toInt)
    (hhigh : a.toInt + b.toInt < 9223372036854775808) :
    int64Add? a b = some (a + b) ∧ (a + b).toInt = a.toInt + b.toInt := by
  refine ⟨if_pos ⟨hlow, hhigh⟩, ?_⟩
  rw [Int64.toInt_add]
  exact Int.bmod_eq_of_le_mul_two (by omega) (by omega)

/-- Adding up traps nowhere when every total on the way is a value of `Int64`. -/
theorem foldlM_int64Add? {buckets : List HistogramBucket} {acc : Int64}
    (h : ∀ k, -9223372036854775808 ≤ acc.toInt + countOf (buckets.take k) ∧
      acc.toInt + countOf (buckets.take k) < 9223372036854775808) :
    ∃ total, buckets.foldlM (fun acc b => int64Add? acc b.count) acc = some total ∧
      total.toInt = acc.toInt + countOf buckets := by
  induction buckets generalizing acc with
  | nil => exact ⟨acc, rfl, (Int.add_zero _).symm⟩
  | cons b buckets ih =>
      have hfirst := h 1
      rw [List.take_succ_cons, List.take_zero, countOf_cons] at hfirst
      have hzero : countOf [] = 0 := rfl
      obtain ⟨hadd, hsum⟩ := int64Add?_toInt (a := acc) (b := b.count) (by omega) (by omega)
      obtain ⟨total, htotal, heq⟩ := @ih (acc + b.count) fun k => by
        have hk := h (k + 1)
        rw [List.take_succ_cons, countOf_cons] at hk
        omega
      refine ⟨total, ?_, ?_⟩
      · rw [List.foldlM_cons, hadd]
        exact htotal
      · rw [heq, hsum, countOf_cons]
        omega

theorem TotalsFit.totalCount? {buckets : List HistogramBucket} (h : TotalsFit buckets) :
    ∃ total, totalCount? (sortBuckets buckets) = some total ∧ total.toInt = countOf buckets := by
  have hzero : Int64.toInt 0 = 0 := rfl
  have hfit : ∀ k, -9223372036854775808 ≤ (0 : Int64).toInt + countOf ((sortBuckets buckets).take k) ∧
      (0 : Int64).toInt + countOf ((sortBuckets buckets).take k) < 9223372036854775808 := by
    intro k
    rw [hzero, Int.zero_add]
    exact h k
  obtain ⟨total, htotal, heq⟩ := foldlM_int64Add? hfit
  refine ⟨total, htotal, ?_⟩
  rw [heq, hzero, Int.zero_add]
  exact countOf_perm (List.perm_insertionSort _ buckets)

/-- Counts that are not negative fit when their total does. -/
theorem TotalsFit.of_counts {buckets : List HistogramBucket} (hcounts : ∀ b ∈ buckets, 0 ≤ b.count.toInt)
    (htotal : countOf buckets < 9223372036854775808) : TotalsFit buckets := by
  intro k
  have hperm : (sortBuckets buckets).Perm buckets := List.perm_insertionSort _ buckets
  have hsorted : ∀ b ∈ sortBuckets buckets, 0 ≤ b.count.toInt := fun b hb =>
    hcounts b (hperm.mem_iff.mp hb)
  have htake : 0 ≤ countOf ((sortBuckets buckets).take k) :=
    countOf_nonneg fun b hb => hsorted b (List.mem_of_mem_take hb)
  have hdrop : 0 ≤ countOf ((sortBuckets buckets).drop k) :=
    countOf_nonneg fun b hb => hsorted b (List.mem_of_mem_drop hb)
  have hsplit : countOf ((sortBuckets buckets).take k) + countOf ((sortBuckets buckets).drop k) =
      countOf buckets := by
    rw [← countOf_append, List.take_append_drop, countOf_perm hperm]
  omega

/-! ## Points -/

theorem sortBuckets_perm (buckets : List HistogramBucket) : (sortBuckets buckets).Perm buckets :=
  List.perm_insertionSort _ buckets

/-- Buckets with bounds of their own are sorted strictly. -/
theorem sortBuckets_pairwise {buckets : List HistogramBucket}
    (h : (buckets.map HistogramBucket.upperBound).Nodup) :
    (sortBuckets buckets).Pairwise fun a b => a.upperBound.toInt < b.upperBound.toInt := by
  have htotal : Std.Total fun a b : HistogramBucket => a.upperBound ≤ b.upperBound :=
    ⟨fun a b => by rw [Int64.le_iff_toInt_le, Int64.le_iff_toInt_le]; omega⟩
  have htrans : IsTrans HistogramBucket fun a b => a.upperBound ≤ b.upperBound :=
    ⟨fun a b c => by rw [Int64.le_iff_toInt_le, Int64.le_iff_toInt_le, Int64.le_iff_toInt_le]; omega⟩
  have hle : (sortBuckets buckets).Pairwise fun a b => a.upperBound ≤ b.upperBound :=
    List.pairwise_insertionSort _ buckets
  have hne : (sortBuckets buckets).Pairwise fun a b => a.upperBound ≠ b.upperBound :=
    List.pairwise_map.mp (((sortBuckets_perm buckets).map _).nodup_iff.mpr h)
  refine (hle.and hne).imp ?_
  rintro a b ⟨hab, hneq⟩
  rw [Int64.le_iff_toInt_le] at hab
  have : a.upperBound.toInt ≠ b.upperBound.toInt := fun heq => hneq (Int64.toInt_inj.mp heq)
  omega

theorem histogramOf_sorted {buckets : List HistogramBucket}
    (hdistinct : (buckets.map HistogramBucket.upperBound).Nodup) {p : HistogramPoint}
    (hbounds : p.explicitBounds = (sortBuckets buckets).dropLast.map fun b => b.upperBound.toInt)
    (hcounts : p.bucketCounts = (sortBuckets buckets).map fun b => b.count.toInt)
    (hcount : p.count = countOf buckets) : HistogramOf buckets p := by
  have hperm := sortBuckets_perm buckets
  have hsorted := sortBuckets_pairwise hdistinct
  refine ⟨?_, ?_, ?_, ?_, hcount, ?_, ?_⟩
  · rw [hcounts, List.length_map, hperm.length_eq]
  · rw [hcounts, hbounds]
    cases hs : sortBuckets buckets with
    | nil =>
        rw [hs] at hperm
        exact .inr ⟨hperm.symm.eq_nil, rfl, rfl⟩
    | cons b s =>
        left
        simp
  · rw [hbounds, List.pairwise_map]
    exact hsorted.sublist (List.dropLast_sublist _)
  · rw [hcounts, hcount]
    exact countOf_perm hperm
  · intro bound hbound
    rw [hbounds] at hbound
    obtain ⟨b, hb, rfl⟩ := List.mem_map.mp hbound
    exact ⟨b, hperm.mem_iff.mp (List.mem_of_mem_take (List.dropLast_eq_take ▸ hb)), rfl⟩
  · intro i bound hbound
    rw [hbounds, List.getElem?_map, Option.map_eq_some_iff] at hbound
    obtain ⟨b, hb, rfl⟩ := hbound
    have hget : (sortBuckets buckets)[i]? = some b := by
      rw [List.dropLast_eq_take, List.getElem?_take] at hb
      split at hb
      · exact hb
      · cases hb
    rw [hcounts, ← List.map_take, ← filter_le_of_pairwise _ hsorted hget]
    exact countOf_perm (hperm.filter _)

end ObservableBSD.Export
