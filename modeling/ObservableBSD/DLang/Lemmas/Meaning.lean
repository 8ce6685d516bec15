import ObservableBSD.DLang.Meaning
import ObservableBSD.DLang.Lemmas.Parser

/-! When operands of `&&` behind an expression are a conjunction with the whole of it. -/

namespace ObservableBSD.DLang

variable {σ : Type} {m : Meaning σ} {s s' : σ} {a b e x y y' : Expr} {fs : List Expr} {f : Frame}
  {l l' : List Int} {v w : Int} {p : Bool}

/-! ## Tight frames -/

def popMeaning : Meaning (List Int) where
  operand _ s := (s.headD 0, s.tail)
  assign _ _ _ s := (s.headD 0, s.tail)

/-- The expression takes the values of the list and no more. -/
def Reads (e : Expr) (l : List Int) (v : Int) : Prop := ∀ t, eval popMeaning e (l ++ t) = (v, t)

theorem Reads.and_true (ha : Reads a l v) (hb : Reads b l' w) (hv : v ≠ 0) : Reads (.and a b) (l ++ l') (truth w) := by
  intro t
  simp only [eval_and, List.append_assoc, ha (l' ++ t), hb t, hv, if_false]

theorem Reads.and_false (ha : Reads a l 0) (b : Expr) : Reads (.and a b) l 0 := by
  intro t
  simp only [eval_and, ha t, if_true]

theorem Reads.xor (ha : Reads a l v) (hb : Reads b l' w) :
    Reads (.xor a b) (l ++ l') (if truth v = truth w then 0 else 1) := by
  intro t
  simp only [eval_xor, List.append_assoc, ha (l' ++ t), hb t]

theorem Reads.or_true (ha : Reads a l v) (hv : v ≠ 0) (b : Expr) : Reads (.or a b) l 1 := by
  intro t
  simp only [eval_or, ha t, hv, if_false]

theorem Reads.or_false (ha : Reads a l 0) (hb : Reads b l' w) : Reads (.or a b) (l ++ l') (truth w) := by
  intro t
  simp only [eval_or, List.append_assoc, ha (l' ++ t), hb t, if_true]

theorem Reads.cond_true (hc : Reads a l v) (ht : Reads b l' w) (hv : v ≠ 0) (e : Expr) :
    Reads (.cond a b e) (l ++ l') w := by
  intro t
  simp only [eval_cond, List.append_assoc, hc (l' ++ t), ht t, hv, if_false]

theorem Reads.assign (he : Reads e l v) (op : List Char) (lhs : List Item) (w : Int) :
    Reads (.assign op lhs e) (l ++ [w]) w := by
  intro t
  simp only [eval_assign, List.append_assoc, he ([w] ++ t)]
  rfl

theorem Reads.comma (ha : Reads a l v) (hb : Reads b l' w) : Reads (.comma a b) (l ++ l') w := by
  intro t
  simp only [eval_comma, List.append_assoc, ha (l' ++ t), hb t]

theorem truth_ne_zero : truth v ≠ 0 ↔ v ≠ 0 := by
  unfold truth
  split <;> simp_all

def bit (p : Bool) : Int := if p then 1 else 0

theorem bit_ne_zero : bit p ≠ 0 ↔ p = true := by cases p <;> simp [bit]

theorem eq_zero_of_ne_iff (h : v ≠ 0 ↔ false = true) : v = 0 := by
  by_contra hv
  cases h.mp hv

/-- Every expression can be true and can be false. -/
theorem exists_reads : (e : Expr) → (p : Bool) → ∃ l v, Reads e l v ∧ (v ≠ 0 ↔ p = true)
  | .operand _, p => ⟨[bit p], bit p, fun _ => rfl, bit_ne_zero⟩
  | .paren e, p => by
      obtain ⟨l, v, he, hv⟩ := exists_reads e p
      exact ⟨l, v, fun t => by simp only [eval_paren, he t], hv⟩
  | .and a b, p => by
      obtain ⟨l, v, ha, hv⟩ := exists_reads a true
      obtain ⟨l', w, hb, hw⟩ := exists_reads b p
      exact ⟨l ++ l', truth w, ha.and_true hb (hv.mpr rfl), truth_ne_zero.trans hw⟩
  | .xor a b, p => by
      obtain ⟨l, v, ha, hv⟩ := exists_reads a p
      obtain ⟨l', w, hb, hw⟩ := exists_reads b false
      refine ⟨l ++ l', _, ha.xor hb, ?_⟩
      rw [eq_zero_of_ne_iff hw, ← hv]
      unfold truth
      split <;> simp_all
  | .or a b, p => by
      obtain ⟨l, v, ha, hv⟩ := exists_reads a false
      obtain ⟨l', w, hb, hw⟩ := exists_reads b p
      rw [eq_zero_of_ne_iff hv] at ha
      exact ⟨l ++ l', truth w, ha.or_false hb, truth_ne_zero.trans hw⟩
  | .cond c t e, p => by
      obtain ⟨l, v, hc, hv⟩ := exists_reads c true
      obtain ⟨l', w, ht, hw⟩ := exists_reads t p
      exact ⟨l ++ l', w, hc.cond_true ht (hv.mpr rfl) e, hw⟩
  | .assign op lhs e, p => by
      obtain ⟨l, v, he, -⟩ := exists_reads e true
      exact ⟨l ++ [bit p], bit p, he.assign op lhs (bit p), bit_ne_zero⟩
  | .comma a b, p => by
      obtain ⟨l, v, ha, -⟩ := exists_reads a true
      obtain ⟨l', w, hb, hw⟩ := exists_reads b p
      exact ⟨l ++ l', w, ha.comma hb, hw⟩

/-! ## Frames that are not tight -/

/-- Some values make both expressions true, or both false, and are all that they take. -/
def Agree (y y' : Expr) (p : Bool) : Prop := ∃ l v, Reads y l v ∧ Reads y' l v ∧ (v ≠ 0 ↔ p = true)

theorem Agree.xor (h : Agree y y' false) (a : Expr) (p : Bool) : Agree (.xor a y) (.xor a y') p := by
  obtain ⟨l, v, ha, hv⟩ := exists_reads a p
  obtain ⟨l', w, hy, hy', hw⟩ := h
  refine ⟨l ++ l', _, ha.xor hy, ha.xor hy', ?_⟩
  rw [eq_zero_of_ne_iff hw, ← hv]
  unfold truth
  split <;> simp_all

theorem Agree.or (h : Agree y y' false) (a : Expr) (p : Bool) : Agree (.or a y) (.or a y') p := by
  obtain ⟨l, v, ha, hv⟩ := exists_reads a p
  obtain ⟨l', w, hy, hy', hw⟩ := h
  cases p with
  | true => exact ⟨l, 1, ha.or_true (hv.mpr rfl) y, ha.or_true (hv.mpr rfl) y', by simp⟩
  | false =>
      rw [eq_zero_of_ne_iff hv] at ha
      exact ⟨l ++ l', truth w, ha.or_false hy, ha.or_false hy', truth_ne_zero.trans hw⟩

theorem Agree.close (h : Agree y y' false) (q : Pending) (p : Bool) : Agree (q.close y) (q.close y') p := by
  cases q with
  | assign op lhs =>
      obtain ⟨l, v, hy, hy', -⟩ := h
      exact ⟨l ++ [bit p], bit p, hy.assign op lhs (bit p), hy'.assign op lhs (bit p), bit_ne_zero⟩
  | cond c t =>
      obtain ⟨l, v, hc, hv⟩ := exists_reads c true
      obtain ⟨l', w, ht, hw⟩ := exists_reads t p
      exact ⟨l ++ l', w, hc.cond_true ht (hv.mpr rfl) y, hc.cond_true ht (hv.mpr rfl) y', hw⟩

theorem Agree.comma (h : Agree y y' p) (c : Option Expr) : Agree (joinLeft .comma c y) (joinLeft .comma c y') p := by
  cases c with
  | none => exact h
  | some c =>
      obtain ⟨l, v, hc, -⟩ := exists_reads c true
      obtain ⟨l', w, hy, hy', hw⟩ := h
      exact ⟨l ++ l', w, hc.comma hy, hc.comma hy', hw⟩

end ObservableBSD.DLang
