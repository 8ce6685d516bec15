import Mathlib.Data.List.Basic

/-!
# Characters of several scalars

A text is a list of Unicode scalars. Several of them may stand together as one `Character`, and what looks for a
`Character` passes over a scalar that is only a part of one. Where two scalars are joined, of which one or both are
outside ASCII, is told by Unicode's tables, which are a parameter here.
-/

namespace ObservableBSD.Base

/-- Tells for two parts of a text whether a `Character` of the whole ends between them. -/
abbrev CharacterBoundary := List Char → List Char → Bool

/-- The scalar that `==` takes a scalar for. Three scalars are canonically equivalent to one in ASCII. -/
def canonical (c : Char) : Char :=
  if c = '\u037E' then ';' else if c = '\u1FEF' then '\x60' else if c = '\u212A' then 'K' else c

def isAscii (c : Char) : Bool := c.toNat < 128

def isControl (c : Char) : Bool := c.toNat < 32 || c.toNat = 127

/-- Unicode's tables. `combining` scalars join what stands in front of them and `prepending` ones what stands behind,
controls apart. `beyond` tells whether a `Character` ends between a text and a scalar, neither of them ASCII. -/
structure Joining where
  combining : Char → Bool
  prepending : Char → Bool
  beyond : List Char → Char → Bool

namespace Joining

variable (j : Joining)

/-- Whether a scalar is one `Character` with an ASCII scalar in front of it. -/
def joinsFront (d : Char) : Bool := !isAscii (canonical d) && j.combining d

/-- Whether a scalar is one `Character` with an ASCII scalar behind it. -/
def joinsBehind (c : Char) : Bool := !isAscii (canonical c) && j.prepending c

/-- Where the `Character`s of a text end. Of the ASCII scalars only CR LF are joined. -/
def boundary : CharacterBoundary := fun front behind => match front.getLast?, behind.head? with
  | none, _ | _, none => true
  | some c, some d =>
      if c = '\r' ∧ d = '\n' then false
      else if isControl c || isControl d then true
      else if isAscii (canonical d) then !j.joinsBehind c
      else if isAscii (canonical c) then !j.joinsFront d
      else j.beyond front d

end Joining

/-- The scalars of a part of a text, each with whether it is a `Character` by itself. -/
def scalarsIn (boundary : CharacterBoundary) (front : List Char) : List Char → List Char → List (Char × Bool)
  | [], _ => []
  | c :: s, behind =>
      (c, boundary front (c :: (s ++ behind)) && boundary (front ++ [c]) (s ++ behind)) ::
        scalarsIn boundary (front ++ [c]) s behind

def scalars (boundary : CharacterBoundary) (s : List Char) : List (Char × Bool) := scalarsIn boundary [] s []

/-- Whether one of the scalars is a `Character` with the property. -/
def standsIn (p : Char → Bool) (l : List (Char × Bool)) : Bool := l.any fun e => e.2 && p e.1

/-! ## Cutting -/

section Cutting

variable {α : Type*}

/-- What is on both sides of the first element with the property. -/
def splitFirst (p : α → Bool) : List α → Option (List α × List α)
  | [] => none
  | d :: s => if p d then some ([], s) else (splitFirst p s).map fun q => (d :: q.1, q.2)

/-- What is on both sides of the last element with the property. -/
def splitLast (p : α → Bool) (s : List α) : Option (List α × List α) :=
  (splitFirst p s.reverse).map fun q => (q.2.reverse, q.1.reverse)

variable {p : α → Bool} {s k v : List α}

theorem splitFirst_eq_some_iff :
    splitFirst p s = some (k, v) ↔ ∃ x, s = k ++ x :: v ∧ p x = true ∧ ∀ y ∈ k, p y = false := by
  induction s generalizing k with
  | nil => simp [splitFirst]
  | cons d s ih =>
      rw [splitFirst]
      by_cases hd : p d = true
      · rw [if_pos hd]
        constructor
        · intro h
          cases h
          exact ⟨d, rfl, hd, fun y hy => by cases hy⟩
        · rintro ⟨x, heq, -, hk⟩
          cases k with
          | nil =>
              cases heq
              rfl
          | cons e k =>
              cases heq
              have hnot := hk d List.mem_cons_self
              rw [hd] at hnot
              cases hnot
      · rw [if_neg hd]
        constructor
        · intro h
          obtain ⟨⟨k', v'⟩, hrest, heq⟩ := Option.map_eq_some_iff.1 h
          cases heq
          obtain ⟨x, rfl, hx, hk⟩ := ih.1 hrest
          exact ⟨x, rfl, hx, List.forall_mem_cons.2 ⟨eq_false_of_ne_true hd, hk⟩⟩
        · rintro ⟨x, heq, hx, hk⟩
          cases k with
          | nil =>
              cases heq
              exact absurd hx hd
          | cons e k =>
              obtain ⟨rfl, rfl⟩ := List.cons.inj heq
              rw [ih.2 ⟨x, rfl, hx, fun y hy => hk y (List.mem_cons_of_mem _ hy)⟩]
              rfl

theorem splitFirst_eq_none_iff : splitFirst p s = none ↔ ∀ y ∈ s, p y = false := by
  induction s with
  | nil => simp [splitFirst]
  | cons d s ih =>
      rw [splitFirst, List.forall_mem_cons]
      by_cases hd : p d = true
      · rw [if_pos hd]
        exact iff_of_false (by simp) fun h => by rw [hd] at h; cases h.1
      · rw [if_neg hd, Option.map_eq_none_iff, ih, and_iff_right (eq_false_of_ne_true hd)]

theorem splitLast_eq_some_iff :
    splitLast p s = some (k, v) ↔ ∃ x, s = k ++ x :: v ∧ p x = true ∧ ∀ y ∈ v, p y = false := by
  unfold splitLast
  rw [Option.map_eq_some_iff]
  constructor
  · rintro ⟨⟨v', k'⟩, hsplit, heq⟩
    cases heq
    obtain ⟨x, hs, hx, hv⟩ := splitFirst_eq_some_iff.1 hsplit
    refine ⟨x, ?_, hx, fun y hy => hv y (List.mem_reverse.1 hy)⟩
    simpa using congrArg List.reverse hs
  · rintro ⟨x, rfl, hx, hv⟩
    refine ⟨(v.reverse, k.reverse), splitFirst_eq_some_iff.2 ⟨x, by simp, hx, fun y hy => hv y ?_⟩, by simp⟩
    exact List.mem_reverse.1 hy

end Cutting

/-- The text on both sides of the first `Character` with the property. -/
def cutFirst? (boundary : CharacterBoundary) (p : Char → Bool) (s : List Char) : Option (List Char × List Char) :=
  (splitFirst (fun e => e.2 && p e.1) (scalars boundary s)).map fun q => (q.1.map Prod.fst, q.2.map Prod.fst)

/-- The text on both sides of the last `Character` with the property. -/
def cutLast? (boundary : CharacterBoundary) (p : Char → Bool) (s : List Char) : Option (List Char × List Char) :=
  (splitLast (fun e => e.2 && p e.1) (scalars boundary s)).map fun q => (q.1.map Prod.fst, q.2.map Prod.fst)

variable {boundary : CharacterBoundary} {p : Char → Bool} {front s t behind : List Char} {c d : Char}

/-! ## Scalars -/

@[simp] theorem map_fst_scalarsIn (boundary : CharacterBoundary) (front s behind : List Char) :
    (scalarsIn boundary front s behind).map Prod.fst = s := by
  induction s generalizing front with
  | nil => rfl
  | cons c s ih => rw [scalarsIn, List.map_cons, ih]

@[simp] theorem length_scalarsIn (boundary : CharacterBoundary) (front s behind : List Char) :
    (scalarsIn boundary front s behind).length = s.length := by
  have h := congrArg List.length (map_fst_scalarsIn boundary front s behind)
  rwa [List.length_map] at h

theorem scalarsIn_append (boundary : CharacterBoundary) (front s t behind : List Char) :
    scalarsIn boundary front (s ++ t) behind =
      scalarsIn boundary front s (t ++ behind) ++ scalarsIn boundary (front ++ s) t behind := by
  induction s generalizing front with
  | nil => simp [scalarsIn]
  | cons c s ih => simp [scalarsIn, ih]

theorem scalarsIn_eq_append_cons {k v : List (Char × Bool)} {e : Char × Bool} :
    scalarsIn boundary front s behind = k ++ e :: v ↔
      ∃ u c t, s = u ++ c :: t ∧ k = scalarsIn boundary front u (c :: (t ++ behind)) ∧
        e = (c, boundary (front ++ u) (c :: (t ++ behind)) && boundary (front ++ u ++ [c]) (t ++ behind)) ∧
        v = scalarsIn boundary (front ++ u ++ [c]) t behind := by
  constructor
  · intro h
    have hs := congrArg (List.map Prod.fst) h
    rw [map_fst_scalarsIn, List.map_append, List.map_cons] at hs
    refine ⟨k.map Prod.fst, e.1, v.map Prod.fst, hs, ?_⟩
    rw [hs, scalarsIn_append, scalarsIn] at h
    have hlength :
        (scalarsIn boundary front (k.map Prod.fst) (e.1 :: (v.map Prod.fst ++ behind))).length = k.length := by
      rw [length_scalarsIn, List.length_map]
    obtain ⟨hk, hrest⟩ := List.append_inj h hlength
    obtain ⟨he, hv⟩ := List.cons.inj hrest
    exact ⟨hk.symm, he.symm, hv.symm⟩
  · rintro ⟨u, c, t, rfl, rfl, rfl, rfl⟩
    rw [scalarsIn_append, scalarsIn, List.cons_append]

theorem cutFirst?_eq_some_iff : cutFirst? boundary p s = some (front, behind) ↔
    ∃ c, s = front ++ c :: behind ∧ p c = true ∧ boundary front (c :: behind) = true ∧
      boundary (front ++ [c]) behind = true ∧ standsIn p (scalarsIn boundary [] front (c :: behind)) = false := by
  unfold cutFirst? scalars
  rw [Option.map_eq_some_iff]
  constructor
  · rintro ⟨⟨k, v⟩, hsplit, heq⟩
    obtain ⟨e, hs, he, hk⟩ := splitFirst_eq_some_iff.1 hsplit
    obtain ⟨u, c, t, rfl, rfl, rfl, rfl⟩ := scalarsIn_eq_append_cons.1 hs
    simp only [map_fst_scalarsIn, Prod.mk.injEq] at heq
    obtain ⟨rfl, rfl⟩ := heq
    simp only [Bool.and_eq_true, List.nil_append, List.append_nil] at he hk
    exact ⟨c, rfl, he.2, he.1.1, he.1.2, List.any_eq_false.2 fun e he' => by simpa using hk e he'⟩
  · rintro ⟨c, rfl, hc, hfront, hbehind, hnone⟩
    refine ⟨(scalarsIn boundary [] front (c :: behind), scalarsIn boundary (front ++ [c]) behind []), ?_, by simp⟩
    refine splitFirst_eq_some_iff.2 ⟨(c, true), ?_, by simpa using hc, fun e he => ?_⟩
    · refine scalarsIn_eq_append_cons.2 ⟨front, c, behind, rfl, by simp, ?_, by simp⟩
      simp [hfront, hbehind]
    · exact eq_false_of_ne_true (List.any_eq_false.1 hnone e he)

theorem cutFirst?_eq_none_iff : cutFirst? boundary p s = none ↔ standsIn p (scalars boundary s) = false := by
  rw [cutFirst?, Option.map_eq_none_iff, splitFirst_eq_none_iff, standsIn, List.any_eq_false]
  exact forall₂_congr fun _ _ => by simp

theorem cutLast?_eq_some_iff : cutLast? boundary p s = some (front, behind) ↔
    ∃ c, s = front ++ c :: behind ∧ p c = true ∧ boundary front (c :: behind) = true ∧
      boundary (front ++ [c]) behind = true ∧ standsIn p (scalarsIn boundary (front ++ [c]) behind []) = false := by
  unfold cutLast? scalars
  rw [Option.map_eq_some_iff]
  constructor
  · rintro ⟨⟨k, v⟩, hsplit, heq⟩
    obtain ⟨e, hs, he, hv⟩ := splitLast_eq_some_iff.1 hsplit
    obtain ⟨u, c, t, rfl, rfl, rfl, rfl⟩ := scalarsIn_eq_append_cons.1 hs
    simp only [map_fst_scalarsIn, Prod.mk.injEq] at heq
    obtain ⟨rfl, rfl⟩ := heq
    simp only [Bool.and_eq_true, List.nil_append, List.append_nil] at he hv
    exact ⟨c, rfl, he.2, he.1.1, he.1.2, List.any_eq_false.2 fun e he' => by simpa using hv e he'⟩
  · rintro ⟨c, rfl, hc, hfront, hbehind, hnone⟩
    refine ⟨(scalarsIn boundary [] front (c :: behind), scalarsIn boundary (front ++ [c]) behind []), ?_, by simp⟩
    refine splitLast_eq_some_iff.2 ⟨(c, true), ?_, by simpa using hc, fun e he => ?_⟩
    · refine scalarsIn_eq_append_cons.2 ⟨front, c, behind, rfl, by simp, ?_, by simp⟩
      simp [hfront, hbehind]
    · exact eq_false_of_ne_true (List.any_eq_false.1 hnone e he)

/-! ## Boundaries -/

namespace Joining

variable {j : Joining}

/-- The scalars that are joined only by a table: ASCII without the controls, and what is equivalent to it. -/
def plain (c : Char) : Bool := isAscii (canonical c) && !isControl c

@[simp] theorem boundary_nil_left (s : List Char) : j.boundary [] s = true := rfl

@[simp] theorem boundary_nil_right (s : List Char) : j.boundary s [] = true := by
  unfold boundary
  cases s.getLast? <;> rfl

/-- Only the next scalar matters. -/
theorem boundary_congr (h : s.head? = t.head?) (front : List Char) : j.boundary front s = j.boundary front t := by
  unfold boundary
  rw [h]

theorem boundary_cons (front : List Char) (d : Char) (s : List Char) :
    j.boundary front (d :: s) = j.boundary front [d] := boundary_congr rfl front

theorem canonical_of_isAscii (h : isAscii c = true) : canonical c = c := by
  have hlt : c.toNat < 128 := of_decide_eq_true h
  have hne (d : Char) (hd : 128 ≤ d.toNat) : c ≠ d := by
    rintro rfl
    omega
  rw [canonical, if_neg (hne _ (by decide)), if_neg (hne _ (by decide)), if_neg (hne _ (by decide))]

theorem isAscii_of_isControl (h : isControl c = true) : isAscii c = true := by
  simp only [isControl, Bool.or_eq_true, decide_eq_true_eq] at h
  exact decide_eq_true (by omega)

theorem joinsFront_of_isAscii (h : isAscii d = true) : j.joinsFront d = false := by
  simp [joinsFront, canonical_of_isAscii h, h]

theorem joinsBehind_of_isAscii (h : isAscii c = true) : j.joinsBehind c = false := by
  simp [joinsBehind, canonical_of_isAscii h, h]

theorem joinsBehind_of_plain (h : plain c = true) : j.joinsBehind c = false := by
  simp [joinsBehind, (Bool.and_eq_true_iff.1 h).1]

/-- In front of a plain scalar only the scalar before it matters. -/
theorem boundary_plain (h : plain d = true) (front s : List Char) :
    j.boundary front (d :: s) = front.getLast?.all fun c => !j.joinsBehind c := by
  obtain ⟨hascii, hcontrol⟩ := Bool.and_eq_true_iff.1 h
  have hcontrol : isControl d = false := by simpa using hcontrol
  have hnewline : d ≠ '\n' := by
    rintro rfl
    cases hcontrol
  unfold boundary
  cases hc : front.getLast? with
  | none => rfl
  | some c =>
      simp only [List.head?_cons, hnewline, and_false, if_false, hcontrol, Bool.or_false, hascii, if_true,
        Option.all_some]
      split
      · rename_i hc
        simp [joinsBehind_of_isAscii (isAscii_of_isControl hc)]
      · rfl

/-- Behind a plain scalar only the scalar after it matters. -/
theorem boundary_concat_plain (h : plain c = true) (front s : List Char) :
    j.boundary (front ++ [c]) s = s.head?.all fun d => !j.joinsFront d := by
  obtain ⟨hascii, hcontrol⟩ := Bool.and_eq_true_iff.1 h
  have hcontrol : isControl c = false := by simpa using hcontrol
  have hreturn : c ≠ '\r' := by
    rintro rfl
    cases hcontrol
  unfold boundary
  rw [List.getLast?_concat]
  cases s with
  | nil => rfl
  | cons d s =>
      simp only [List.head?_cons, hreturn, false_and, if_false, hcontrol, Bool.false_or, hascii, if_true,
        Option.all_some]
      split
      · rename_i hd
        simp [joinsFront_of_isAscii (isAscii_of_isControl hd)]
      split
      · rename_i hd
        simp [joinsFront, hd, joinsBehind_of_plain h]
      · rfl

/-- A newline is a `Character` by itself unless a carriage return stands in front of it. -/
theorem boundary_newline (front s : List Char) :
    j.boundary front ('\n' :: s) = decide (front.getLast? ≠ some '\r') := by
  unfold boundary
  cases front.getLast? with
  | none => rfl
  | some c =>
      by_cases hc : c = '\r'
      · simp [hc]
      · simp [hc, isControl]

theorem boundary_concat_newline (front s : List Char) : j.boundary (front ++ ['\n']) s = true := by
  unfold boundary
  rw [List.getLast?_concat]
  cases s with
  | nil => rfl
  | cons d s => simp [isControl]

/-- A part of a text at whose end a `Character` ends has the same scalars without what stands behind it. -/
theorem scalarsIn_of_boundary (h : j.boundary (front ++ s) behind = true) :
    scalarsIn j.boundary front s behind = scalarsIn j.boundary front s [] := by
  induction s generalizing front with
  | nil => rfl
  | cons c s ih =>
      have hrest : scalarsIn j.boundary (front ++ [c]) s behind = scalarsIn j.boundary (front ++ [c]) s [] :=
        ih (by rwa [List.append_assoc, List.singleton_append])
      rw [scalarsIn, scalarsIn, hrest, boundary_cons, boundary_cons front c (s ++ [])]
      cases s with
      | nil => rw [List.nil_append, List.nil_append, h, boundary_nil_right]
      | cons d s => rw [List.cons_append, List.cons_append, boundary_cons _ d (s ++ behind),
          boundary_cons _ d (s ++ [])]

end Joining

/-- A `Character` is sought in vain where no scalar has the property. -/
theorem standsIn_eq_false (h : ∀ c ∈ s, p c = false) : standsIn p (scalarsIn boundary front s behind) = false := by
  refine List.any_eq_false.2 fun e he => ?_
  have hmem : e.1 ∈ s := by
    have hfst := List.mem_map_of_mem (f := Prod.fst) he
    rwa [map_fst_scalarsIn] at hfst
  simp [h e.1 hmem]

end ObservableBSD.Base
