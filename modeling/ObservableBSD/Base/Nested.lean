import Mathlib.Data.List.Basic
import Mathlib.Data.List.Infix

/-!
# Well-nested words and shadow stacks

A word over an alphabet of opening, closing and other letters is well nested when every opening
letter has one later closing letter and the pairs nest. A shadow stack reads such a word and pushes
only on some of the opening letters, but pops on every closing letter. This file says exactly when
such a stack is balanced, that is, when every closing letter restores the stack that its own opening
letter left.
-/

namespace ObservableBSD.Base

/-- The part a letter plays in the nesting. -/
inductive Bracket where
  | opening
  | closing
  | other
deriving DecidableEq, Repr

section Nested

variable {α : Type*} (kind : α → Bracket)

/-- Every opening letter has one later closing letter, and the pairs nest. -/
inductive Nested : List α → Prop where
  | nil : Nested []
  | other {a : α} {w : List α} : kind a = .other → Nested w → Nested (a :: w)
  | wrap {a b : α} {u v : List α} : kind a = .opening → Nested u → kind b = .closing → Nested v →
      Nested (a :: (u ++ b :: v))

def AfterOpening (w : List α) : Prop := ∃ c ∈ w.getLast?, kind c = .opening

variable {kind}

theorem afterOpening_concat {w : List α} {c : α} :
    AfterOpening kind (w ++ [c]) ↔ kind c = .opening := by
  simp [AfterOpening]

theorem not_afterOpening_nil : ¬ AfterOpening kind [] := by
  simp [AfterOpening]

theorem AfterOpening.exists_concat {w : List α} (h : AfterOpening kind w) :
    ∃ pre c, w = pre ++ [c] ∧ kind c = .opening := by
  obtain ⟨c, hc, hk⟩ := h
  obtain ⟨pre, rfl⟩ := List.getLast?_eq_some_iff.mp hc
  exact ⟨pre, c, rfl, hk⟩

theorem Nested.not_afterOpening {w : List α} (h : Nested kind w) : ∀ {pre : List α},
    ¬ AfterOpening kind pre → ¬ AfterOpening kind (pre ++ w) := by
  induction h with
  | nil => intro pre hpre; simpa using hpre
  | @other a w ha _ ih =>
      intro pre _
      rw [List.append_cons]
      exact ih (by simp [afterOpening_concat, ha])
  | @wrap a b u v _ _ hb _ _ ihv =>
      intro pre _
      have he : pre ++ a :: (u ++ b :: v) = (pre ++ a :: u ++ [b]) ++ v := by simp
      rw [he]
      exact ihv (by rw [afterOpening_concat, hb]; decide)

theorem Nested.not_afterOpening_of_ne_nil {w : List α} (h : Nested kind w) (hne : w ≠ [])
    (pre : List α) : ¬ AfterOpening kind (pre ++ w) := by
  have hw := h.not_afterOpening not_afterOpening_nil
  rintro ⟨c, hc, hk⟩
  refine hw ⟨c, ?_, hk⟩
  rw [List.getLast?_append_of_ne_nil _ hne] at hc
  simpa using hc

/-- Every opening letter of a well-nested word has its closing letter, with a well-nested word in
between. -/
theorem Nested.exists_matching {w : List α} (h : Nested kind w) : ∀ {pre rest : List α} {c : α},
    w = pre ++ c :: rest → kind c = .opening →
    ∃ u r post, rest = u ++ r :: post ∧ Nested kind u ∧ kind r = .closing := by
  induction h with
  | nil => intro pre rest c he; simp at he
  | @other a w ha _ ih =>
      intro pre rest c he hc
      cases pre with
      | nil =>
          obtain ⟨rfl, rfl⟩ : a = c ∧ w = rest := by simpa using he
          rw [ha] at hc; cases hc
      | cons p pre =>
          obtain ⟨rfl, rfl⟩ : a = p ∧ w = pre ++ c :: rest := by simpa using he
          exact ih rfl hc
  | @wrap a b u v ha hu hb hv ihu ihv =>
      intro pre rest c he hc
      cases pre with
      | nil =>
          obtain ⟨rfl, rfl⟩ : a = c ∧ u ++ b :: v = rest := by simpa using he
          exact ⟨u, b, v, rfl, hu, hb⟩
      | cons p pre =>
          obtain ⟨rfl, he'⟩ : a = p ∧ u ++ b :: v = pre ++ c :: rest := by simpa using he
          -- the opening letter lies in the inner word, is the closing letter, or lies behind it
          rcases List.append_eq_append_iff.mp he' with ⟨m, hpre, hm⟩ | ⟨m, hu', hm⟩
          · cases m with
            | nil =>
                obtain ⟨rfl, rfl⟩ : b = c ∧ v = rest := by simpa using hm
                rw [hb] at hc; cases hc
            | cons q m =>
                obtain ⟨rfl, rfl⟩ : b = q ∧ v = m ++ c :: rest := by simpa using hm
                exact ihv rfl hc
          · cases m with
            | nil =>
                obtain ⟨rfl, rfl⟩ : c = b ∧ rest = v := by simpa using hm
                rw [hb] at hc; cases hc
            | cons q m =>
                obtain ⟨rfl, rfl⟩ : c = q ∧ rest = m ++ b :: v := by simpa using hm
                obtain ⟨u', r, post, rfl, hn, hr⟩ := ihu hu' hc
                exact ⟨u', r, post ++ b :: v, by simp, hn, hr⟩

end Nested

/-! ## Shadow stacks -/

section Shadow

variable {α β : Type*} (kind : α → Bracket) (enters : α → Bool)

/-- A stack that, reading `w`, pushes on the first letter after an opening one when that letter
enters, and pops on every closing letter. `entered` is the stack between the push and the pop. -/
structure IsShadow (stackAfter : List α → List β) (entered : List α → α → List β) (w : List α) :
    Prop where
  start : stackAfter [] = []
  push : ∀ {pre x}, pre ++ [x] <+: w → AfterOpening kind pre → enters x = true →
    ∃ b, entered pre x = b :: stackAfter pre
  skip : ∀ {pre x}, pre ++ [x] <+: w → ¬ (AfterOpening kind pre ∧ enters x = true) →
    entered pre x = stackAfter pre
  pop : ∀ {pre x}, pre ++ [x] <+: w → kind x = .closing →
    stackAfter (pre ++ [x]) = (entered pre x).tail
  keep : ∀ {pre x}, pre ++ [x] <+: w → kind x ≠ .closing → stackAfter (pre ++ [x]) = entered pre x

/-- Every closing letter of `w` restores the stack that its own opening letter left. -/
def Balanced (stackAfter : List α → List β) (w : List α) : Prop :=
  ∀ pre c body r, pre ++ c :: (body ++ [r]) <+: w → kind c = .opening → Nested kind body →
    kind r = .closing → stackAfter (pre ++ c :: (body ++ [r])) = stackAfter (pre ++ [c])

/-- One letter of the ideal stack: each opening letter gets a frame, which records whether the letter
behind it entered, and each closing letter takes one frame. -/
def frameStep (st : Bool × List Bool) (x : α) : Bool × List Bool :=
  let frames := if st.1 then enters x :: st.2 else st.2
  (kind x = .opening, if kind x = .closing then frames.tail else frames)

/-- The frames of the opening letters of `w` that are still open, innermost first. The frame of an
opening letter appears with the letter behind it. -/
def openFrames (w : List α) : List Bool := (w.foldl (frameStep kind enters) (false, [])).2

/-- No opening letter whose callee does not enter stands inside one whose callee did. -/
def EntersWherePopped (w : List α) : Prop :=
  ∀ pre c x, pre ++ [c, x] <+: w → kind c = .opening → enters x = true ∨
    true ∉ openFrames kind enters (pre ++ [c])

private def EntersOrEmpty (stackAfter : List α → List β) (w : List α) : Prop :=
  ∀ pre c x, pre ++ [c, x] <+: w → kind c = .opening → enters x = true ∨ stackAfter (pre ++ [c]) = []

variable {kind enters} {stackAfter : List α → List β} {entered : List α → α → List β} {w : List α}

theorem foldl_frameStep_fst (w : List α) :
    (w.foldl (frameStep kind enters) (false, [])).1 = true ↔ AfterOpening kind w := by
  induction w using List.reverseRecOn with
  | nil => simp [not_afterOpening_nil]
  | append_singleton w x _ => simp [afterOpening_concat, frameStep]

theorem openFrames_concat_enter {w : List α} {x : α} (h : AfterOpening kind w) :
    openFrames kind enters (w ++ [x]) =
      if kind x = .closing then openFrames kind enters w else enters x :: openFrames kind enters w := by
  have hf : (w.foldl (frameStep kind enters) (false, [])).1 = true := (foldl_frameStep_fst w).mpr h
  simp [openFrames, frameStep, hf]

theorem openFrames_concat_skip {w : List α} {x : α} (h : ¬ AfterOpening kind w) :
    openFrames kind enters (w ++ [x]) =
      if kind x = .closing then (openFrames kind enters w).tail else openFrames kind enters w := by
  have hf : (w.foldl (frameStep kind enters) (false, [])).1 = false := by
    rw [← Bool.not_eq_true]; exact fun he => h ((foldl_frameStep_fst w).mp he)
  simp [openFrames, frameStep, hf]

theorem IsShadow.of_prefix {w' : List α} (hs : IsShadow kind enters stackAfter entered w)
    (hw : w' <+: w) : IsShadow kind enters stackAfter entered w' where
  start := hs.start
  push h := hs.push (h.trans hw)
  skip h := hs.skip (h.trans hw)
  pop h := hs.pop (h.trans hw)
  keep h := hs.keep (h.trans hw)

theorem IsShadow.keep_skip (hs : IsShadow kind enters stackAfter entered w) {pre : List α} {x : α}
    (hp : pre ++ [x] <+: w) (ha : ¬ AfterOpening kind pre) (hx : kind x ≠ .closing) :
    stackAfter (pre ++ [x]) = stackAfter pre := by
  rw [hs.keep hp hx, hs.skip hp (fun h => ha h.1)]

/-- A well-nested word read without an open call keeps the stack, once the calls in it are balanced.
The calls in it are shorter than `n`; the induction of `balanced_of_entersOrEmpty` is on that bound. -/
private theorem IsShadow.nested_keeps (hs : IsShadow kind enters stackAfter entered w) {n : Nat}
    (hbal : ∀ pre c body r, pre ++ c :: (body ++ [r]) <+: w → kind c = .opening →
      Nested kind body → kind r = .closing → body.length < n →
      stackAfter (pre ++ c :: (body ++ [r])) = stackAfter (pre ++ [c]))
    {v : List α} (hv : Nested kind v) : ∀ {pre : List α}, pre ++ v <+: w →
    ¬ AfterOpening kind pre → v.length ≤ n → stackAfter (pre ++ v) = stackAfter pre := by
  induction hv with
  | nil => intro pre _ _ _; simp
  | @other a v ha _ ih =>
      intro pre hp hna hn
      rw [List.append_cons] at hp ⊢
      have hpre : pre ++ [a] <+: w := (List.prefix_append _ _).trans hp
      rw [ih hp (by simp [afterOpening_concat, ha]) (by simp at hn; omega),
        hs.keep_skip hpre hna (by simp [ha])]
  | @wrap a b u v ha hu hb _ _ ihv =>
      intro pre hp hna hn
      have he : pre ++ a :: (u ++ b :: v) = (pre ++ a :: (u ++ [b])) ++ v := by simp
      rw [he] at hp ⊢
      have hcall : pre ++ a :: (u ++ [b]) <+: w := (List.prefix_append _ _).trans hp
      have hpre : pre ++ [a] <+: w := by
        refine List.IsPrefix.trans ⟨u ++ [b], ?_⟩ hcall; simp
      have hlast : ¬ AfterOpening kind (pre ++ a :: (u ++ [b])) := by
        have : pre ++ a :: (u ++ [b]) = (pre ++ a :: u) ++ [b] := by simp
        rw [this, afterOpening_concat, hb]; decide
      simp only [List.length_cons, List.length_append] at hn
      rw [ihv hp hlast (by omega), hbal pre a u b hcall ha hu hb (by omega),
        hs.keep_skip hpre hna (by simp [ha])]

private theorem IsShadow.nested_entered (hs : IsShadow kind enters stackAfter entered w) {n : Nat}
    (hbal : ∀ pre c body r, pre ++ c :: (body ++ [r]) <+: w → kind c = .opening →
      Nested kind body → kind r = .closing → body.length < n →
      stackAfter (pre ++ c :: (body ++ [r])) = stackAfter (pre ++ [c]))
    {x : α} {v pre : List α} (hv : Nested kind (x :: v)) (hp : pre ++ x :: v <+: w)
    (hn : (x :: v).length ≤ n) : stackAfter (pre ++ x :: v) = entered pre x := by
  have hpre : pre ++ [x] <+: w := by
    refine List.IsPrefix.trans ⟨v, ?_⟩ hp; simp
  cases hv with
  | other hx hv =>
      rw [List.append_cons] at hp ⊢
      rw [hs.nested_keeps hbal hv hp (by simp [afterOpening_concat, hx]) (by simp at hn; omega),
        hs.keep hpre (by simp [hx])]
  | @wrap _ b u v hx hu hb hv =>
      have he : pre ++ x :: (u ++ b :: v) = (pre ++ x :: (u ++ [b])) ++ v := by simp
      rw [he] at hp ⊢
      have hcall : pre ++ x :: (u ++ [b]) <+: w := (List.prefix_append _ _).trans hp
      have hlast : ¬ AfterOpening kind (pre ++ x :: (u ++ [b])) := by
        have : pre ++ x :: (u ++ [b]) = (pre ++ x :: u) ++ [b] := by simp
        rw [this, afterOpening_concat, hb]; decide
      simp only [List.length_cons, List.length_append] at hn
      rw [hs.nested_keeps hbal hv hp hlast (by omega), hbal pre x u b hcall hx hu hb (by omega),
        hs.keep hpre (by simp [hx])]

private theorem IsShadow.callee_returns (hs : IsShadow kind enters stackAfter entered w)
    {c r x : α} {body t pre : List α}
    (hbal : ∀ pre' c' body' r', pre' ++ c' :: (body' ++ [r']) <+: w → kind c' = .opening →
      Nested kind body' → kind r' = .closing → body'.length < body.length →
      stackAfter (pre' ++ c' :: (body' ++ [r'])) = stackAfter (pre' ++ [c']))
    (hp : pre ++ c :: (body ++ [r]) <+: w) (hb : Nested kind body) (hr : kind r = .closing)
    (hx : body ++ [r] = x :: t) :
    stackAfter (pre ++ c :: (body ++ [r])) = (entered (pre ++ [c]) x).tail := by
  cases body with
  | nil =>
      obtain ⟨rfl, rfl⟩ : r = x ∧ t = [] := by simpa [eq_comm] using hx
      have he : pre ++ c :: ([] ++ [r]) = (pre ++ [c]) ++ [r] := by simp
      rw [he] at hp ⊢
      exact hs.pop hp hr
  | cons y body =>
      obtain ⟨rfl, rfl⟩ : y = x ∧ t = body ++ [r] := by simpa [eq_comm] using hx
      have he : pre ++ c :: (y :: body ++ [r]) = ((pre ++ [c]) ++ y :: body) ++ [r] := by simp
      rw [he] at hp ⊢
      have hbody : (pre ++ [c]) ++ y :: body <+: w := (List.prefix_append _ _).trans hp
      have hna := hb.not_afterOpening_of_ne_nil (by simp) (pre ++ [c])
      rw [hs.pop hp hr, hs.skip hp (fun h => hna h.1), hs.nested_entered hbal hb hbody le_rfl]

private theorem callee_head (body : List α) (r : α) : ∃ x t, body ++ [r] = x :: t := by
  cases body with
  | nil => exact ⟨r, [], rfl⟩
  | cons y body => exact ⟨y, body ++ [r], rfl⟩

private theorem callee_prefix {pre body t : List α} {c r x : α} (hx : body ++ [r] = x :: t)
    (hp : pre ++ c :: (body ++ [r]) <+: w) : pre ++ [c, x] <+: w := by
  rw [hx] at hp
  refine List.IsPrefix.trans ⟨t, ?_⟩ hp; simp

private theorem IsShadow.balanced_of_entersOrEmpty (hs : IsShadow kind enters stackAfter entered w)
    (h : EntersOrEmpty kind enters stackAfter w) : Balanced kind stackAfter w := by
  intro pre c body r hp hc hb hr
  -- by strong induction on the length of the callee: shorter calls are already balanced
  induction hn : body.length using Nat.strong_induction_on generalizing pre c body r with
  | _ n ih =>
      subst hn
      obtain ⟨x, t, hx⟩ := callee_head body r
      have hcx := callee_prefix hx hp
      have hcx' : (pre ++ [c]) ++ [x] <+: w := by simpa using hcx
      rw [hs.callee_returns (fun pre' c' body' r' hp' hc' hb' hr' hlt =>
        ih _ hlt pre' c' body' r' hp' hc' hb' hr' rfl) hp hb hr hx]
      by_cases he : enters x = true
      · obtain ⟨b, hpush⟩ := hs.push hcx' (afterOpening_concat.mpr hc) he
        rw [hpush, List.tail_cons]
      · have hnil := (h pre c x hcx hc).resolve_left he
        rw [hs.skip hcx' (fun h => he h.2), hnil, List.tail_nil]

private theorem IsShadow.entersOrEmpty_of_balanced (hs : IsShadow kind enters stackAfter entered w)
    (hw : Nested kind w) (h : Balanced kind stackAfter w) : EntersOrEmpty kind enters stackAfter w := by
  intro pre c x hcx hc
  by_cases he : enters x = true
  · exact Or.inl he
  · right
    obtain ⟨rest, hrest⟩ := hcx
    have hword : w = pre ++ c :: (x :: rest) := by rw [← hrest]; simp
    obtain ⟨u, r, post, hu, hnu, hr⟩ := hw.exists_matching hword hc
    have hp : pre ++ c :: (u ++ [r]) <+: w := by
      refine ⟨post, ?_⟩; rw [← hrest]; simp [hu]
    obtain ⟨y, t, hy⟩ := callee_head u r
    have hxy : x = y := by
      have : u ++ r :: post = (u ++ [r]) ++ post := by simp
      rw [this, hy] at hu; simpa using (List.cons.inj hu).1
    subst hxy
    have hcx' : (pre ++ [c]) ++ [x] <+: w := by simpa using callee_prefix hy hp
    have hbal := h pre c u r hp hc hnu hr
    rw [hs.callee_returns (fun pre' c' body' r' hp' hc' hb' hr' _ => h pre' c' body' r' hp' hc' hb' hr')
      hp hnu hr hy, hs.skip hcx' (fun h => he h.2)] at hbal
    cases hst : stackAfter (pre ++ [c]) with
    | nil => rfl
    | cons b s =>
        rw [hst, List.tail_cons] at hbal
        exact absurd (congrArg List.length hbal) (by simp)

/-- Where each callee enters or meets an empty stack, the frames that entered lie on top of those that
did not, and the stack holds one entry for each of them. -/
private theorem IsShadow.frames_shape {w : List α} (hs : IsShadow kind enters stackAfter entered w)
    (h : EntersOrEmpty kind enters stackAfter w) :
    ∃ n, openFrames kind enters w =
      List.replicate (stackAfter w).length true ++ List.replicate n false := by
  induction w using List.reverseRecOn with
  | nil => exact ⟨0, by simp [openFrames, hs.start]⟩
  | append_singleton w x ih =>
      have hw : w <+: w ++ [x] := List.prefix_append _ _
      obtain ⟨n, hn⟩ := ih (hs.of_prefix hw) (fun pre c y hp hc => h pre c y (hp.trans hw) hc)
      have hp : w ++ [x] <+: w ++ [x] := List.prefix_rfl
      by_cases ha : AfterOpening kind w
      · rw [openFrames_concat_enter ha]
        by_cases he : enters x = true
        · obtain ⟨b, hb⟩ := hs.push hp ha he
          by_cases hx : kind x = .closing
          · exact ⟨n, by rw [if_pos hx, hn, hs.pop hp hx, hb, List.tail_cons]⟩
          · refine ⟨n, ?_⟩
            rw [if_neg hx, hn, hs.keep hp hx, hb, he, List.length_cons, List.replicate_succ,
              List.cons_append]
        · obtain ⟨pre, c, rfl, hc⟩ := ha.exists_concat
          have hnil := (h pre c x (by simp) hc).resolve_left he
          have hent := hs.skip hp (fun h => he h.2)
          rw [hnil] at hent
          by_cases hx : kind x = .closing
          · exact ⟨n, by rw [if_pos hx, hn, hs.pop hp hx, hent, hnil, List.tail_nil]⟩
          · refine ⟨n + 1, ?_⟩
            rw [if_neg hx, hn, hs.keep hp hx, hent, hnil, eq_false_of_ne_true he]
            simp [List.replicate_succ]
      · rw [openFrames_concat_skip ha]
        have hent := hs.skip hp (fun h => ha h.1)
        by_cases hx : kind x = .closing
        · rw [if_pos hx, hn, hs.pop hp hx, hent]
          cases hst : stackAfter w with
          | nil => exact ⟨n - 1, by simp⟩
          | cons b s => exact ⟨n, by simp [List.replicate_succ]⟩
        · exact ⟨n, by rw [if_neg hx, hn, hs.keep hp hx, hent]⟩

private theorem IsShadow.eq_nil_iff (hs : IsShadow kind enters stackAfter entered w)
    (h : EntersOrEmpty kind enters stackAfter w) :
    stackAfter w = [] ↔ true ∉ openFrames kind enters w := by
  obtain ⟨n, hn⟩ := hs.frames_shape h
  rw [hn]
  cases hst : stackAfter w with
  | nil => simp
  | cons b s => simp [List.replicate_succ]

private theorem IsShadow.entersOrEmpty_iff (hs : IsShadow kind enters stackAfter entered w) :
    EntersOrEmpty kind enters stackAfter w ↔ EntersWherePopped kind enters w := by
  constructor
  · intro h pre c x hp hc
    have hpre : pre ++ [c] <+: w := by
      refine List.IsPrefix.trans ⟨[x], ?_⟩ hp; simp
    refine (h pre c x hp hc).imp_right fun hnil => ?_
    exact ((hs.of_prefix hpre).eq_nil_iff fun p d y hp' hd => h p d y (hp'.trans hpre) hd).mp hnil
  · intro h pre
    -- by strong induction on the position: the stack before it is described by the earlier ones
    induction hn : pre.length using Nat.strong_induction_on generalizing pre with
    | _ n ih =>
        intro c x hp hc
        have hpre : pre ++ [c] <+: w := by
          refine List.IsPrefix.trans ⟨[x], ?_⟩ hp; simp
        refine (h pre c x hp hc).imp_right fun hnot => ?_
        refine ((hs.of_prefix hpre).eq_nil_iff fun p d y hp' hd => ?_).mpr hnot
        have hlen := hp'.length_le
        simp only [List.length_append, List.length_cons, List.length_nil] at hlen
        exact ih p.length (by omega) p rfl d y (hp'.trans hpre) hd

theorem EntersWherePopped.of_prefix {w' : List α} (h : EntersWherePopped kind enters w)
    (hw : w' <+: w) : EntersWherePopped kind enters w' :=
  fun pre c x hp hc => h pre c x (hp.trans hw) hc

/-- A shadow stack is balanced when no callee that does not enter stands inside one that did. -/
theorem IsShadow.balanced (hs : IsShadow kind enters stackAfter entered w)
    (h : EntersWherePopped kind enters w) : Balanced kind stackAfter w :=
  hs.balanced_of_entersOrEmpty (hs.entersOrEmpty_iff.mpr h)

theorem IsShadow.enters_of_balanced (hs : IsShadow kind enters stackAfter entered w)
    (hw : Nested kind w) (h : Balanced kind stackAfter w) : EntersWherePopped kind enters w :=
  hs.entersOrEmpty_iff.mp (hs.entersOrEmpty_of_balanced hw h)

end Shadow

end ObservableBSD.Base
