import Mathlib.Data.List.Infix
import ObservableBSD.Instruments.Render

/-! Marker comments and the slashes of a predicate. -/

namespace ObservableBSD.Instruments

open Base Export

variable {boundary : CharacterBoundary} {j : Joining} {m r a b s t front front' : Text} {c d : Char} {skip : Nat}

/-- The only slashes of a comment are its first and its last character. -/
structure IsComment (m : Text) : Prop where
  form : ∃ body, m = '/' :: '*' :: (body ++ ['*', '/']) ∧ '/' ∉ body

/-- Where a comment ends inside of a text, the character in front of the slash is a star. -/
theorem IsComment.star_before (hm : IsComment m) (h : m = a ++ '/' :: t) (hne : a ≠ []) : a.getLast? = some '*' := by
  obtain ⟨body, rfl, hbody⟩ := hm
  obtain ⟨d, a, rfl⟩ := List.exists_cons_of_ne_nil hne
  obtain ⟨rfl, htail⟩ := List.cons.inj h
  have hcore : '/' ∉ '*' :: (body ++ ['*']) := by simpa using hbody
  have htail : '*' :: (body ++ ['*']) ++ ['/'] = a ++ '/' :: t := by simpa using htail
  have ha : a = '*' :: (body ++ ['*']) := by
    rcases List.append_eq_append_iff.mp htail with ⟨x, hx, hrest⟩ | ⟨x, hx, hrest⟩
    · cases x with
      | nil => simpa using hx
      | cons y x =>
          have hlen := congrArg List.length hrest
          simp at hlen
    · cases x with
      | nil => simpa using hx.symm
      | cons y x =>
          obtain ⟨rfl, -⟩ := List.cons.inj hrest
          exact absurd (hx ▸ List.mem_append_right a List.mem_cons_self) hcore
  rw [ha, ← List.cons_append, ← List.cons_append, List.getLast?_append]
  rfl

theorem IsComment.head (hm : IsComment m) : ∃ m', m = '/' :: '*' :: m' := by
  obtain ⟨body, rfl, -⟩ := hm
  exact ⟨body ++ ['*', '/'], rfl⟩

theorem IsComment.getLast? (hm : IsComment m) : m.getLast? = some '/' := by
  obtain ⟨body, rfl, -⟩ := hm
  have hsplit : '/' :: '*' :: (body ++ ['*', '/']) = ('/' :: '*' :: (body ++ ['*'])) ++ ['/'] := by simp
  rw [hsplit, List.getLast?_append]
  rfl

/-- No comment begins in front of a slash and ends in or behind it, unless a star stands before the slash. -/
theorem IsComment.prefix_of_append (hm : IsComment m) (h : m <+: a ++ '/' :: b) (hne : a ≠ [])
    (hstar : a.getLast? ≠ some '*') : m <+: a := by
  by_cases hle : m.length ≤ a.length
  · exact List.prefix_of_prefix_length_le h (List.prefix_append a _) hle
  · obtain ⟨t, ht⟩ := List.prefix_of_prefix_length_le (List.prefix_append a _) h (by omega)
    cases t with
    | nil =>
        have hlen := congrArg List.length ht
        simp only [List.append_nil] at hlen
        omega
    | cons d t =>
        rw [← ht, List.prefix_append_right_inj, List.cons_prefix_cons] at h
        obtain ⟨rfl, -⟩ := h
        exact absurd (hm.star_before ht.symm hne) hstar

/-! ## Occurrences -/

/-- No scalar at the end of the text joins the comment behind it. -/
def freeFront (j : Joining) (front : Text) : Bool := front.getLast?.all fun c => !j.joinsBehind c

/-- No scalar at the start of the text joins the comment in front of it. -/
def freeBehind (j : Joining) (s : Text) : Bool := s.head?.all fun d => !j.joinsFront d

/-- A comment stands at the start of `s`, behind `front`. -/
def occurs (j : Joining) (m front s : Text) : Bool :=
  m.isPrefixOf s && freeFront j front && freeBehind j (s.drop m.length)

theorem IsComment.occurs_eq (hm : IsComment m) (front s : Text) :
    (m.isPrefixOf s && j.boundary front s && j.boundary (front ++ m) (s.drop m.length)) = occurs j m front s := by
  obtain ⟨body, rfl, -⟩ := hm
  unfold occurs
  cases hpre : ('/' :: '*' :: (body ++ ['*', '/'])).isPrefixOf s with
  | false => rfl
  | true =>
      obtain ⟨t, rfl⟩ := List.isPrefixOf_iff_prefix.mp hpre
      have hlast : front ++ '/' :: '*' :: (body ++ ['*', '/']) = front ++ '/' :: '*' :: (body ++ ['*']) ++ ['/'] := by
        simp
      rw [hlast, Joining.boundary_concat_plain rfl, List.cons_append, Joining.boundary_plain rfl]
      rfl

theorem replacing_cons (hm : IsComment m) : replacing j.boundary m r 0 front (c :: s) =
    if occurs j m front (c :: s) then r ++ replacing j.boundary m r (m.length - 1) (front ++ [c]) s
    else c :: replacing j.boundary m r 0 (front ++ [c]) s := by
  rw [replacing, hm.occurs_eq]

/-- Of what was passed only the last scalar matters, and only whether it joins what stands behind it. -/
theorem replacing_congr (hm : IsComment m) (h : freeFront j front = freeFront j front') :
    replacing j.boundary m r skip front s = replacing j.boundary m r skip front' s := by
  induction s generalizing skip front front' with
  | nil => cases skip <;> rfl
  | cons c s ih =>
      have hnext : freeFront j (front ++ [c]) = freeFront j (front' ++ [c]) := by simp [freeFront]
      cases skip with
      | succ skip => exact ih hnext
      | zero => rw [replacing_cons hm, replacing_cons hm, occurs, occurs, h, ih hnext, ih hnext]

theorem freeFront_slash (front : Text) : freeFront j (front ++ ['/']) = true := by
  have hslash : j.joinsBehind '/' = false := Joining.joinsBehind_of_isAscii (by decide)
  simp [freeFront, hslash]

theorem getLast?_ne_of_cons (h : (c :: a).getLast? ≠ some d) : a.getLast? ≠ some d := by
  cases a with
  | nil => simp
  | cons e a => simpa [List.getLast?_cons_cons] using h

/-- A comment occurs in front of a slash that is part of no comment as it does without what stands behind. -/
theorem IsComment.occurs_slash (hm : IsComment m) (hne : a ≠ []) (hstar : a.getLast? ≠ some '*') :
    occurs j m front (a ++ '/' :: b) = occurs j m front a := by
  unfold occurs
  cases hpre : m.isPrefixOf a with
  | false =>
      have hall : m.isPrefixOf (a ++ '/' :: b) = false := eq_false_of_ne_true fun h => by
        have hm' := hm.prefix_of_append (List.isPrefixOf_iff_prefix.mp h) hne hstar
        rw [List.isPrefixOf_iff_prefix.mpr hm'] at hpre
        cases hpre
      rw [hall]
      rfl
  | true =>
      have hfront := List.isPrefixOf_iff_prefix.mp hpre
      have hall : m.isPrefixOf (a ++ '/' :: b) = true :=
        List.isPrefixOf_iff_prefix.mpr (hfront.trans (List.prefix_append a _))
      have hbehind : freeBehind j (a.drop m.length ++ '/' :: b) = freeBehind j (a.drop m.length) := by
        have hslash : j.joinsFront '/' = false := Joining.joinsFront_of_isAscii (by decide)
        cases a.drop m.length with
        | nil => simp [freeBehind, hslash]
        | cons d t => rfl
      rw [hall, List.drop_append_of_le_length hfront.length_le, hbehind]

/-- A slash that is part of no comment separates what is replaced in front of it and behind it. -/
theorem replacing_slash (hm : IsComment m) (hb : b.head? ≠ some '*') (hskip : skip ≤ a.length)
    (ha : a.getLast? ≠ some '*') : replacing j.boundary m r skip front (a ++ '/' :: b) =
      replacing j.boundary m r skip front a ++ '/' :: replacing j.boundary m r 0 [] b := by
  induction a generalizing skip front with
  | nil =>
      obtain ⟨m', rfl⟩ := hm.head
      obtain rfl : skip = 0 := Nat.le_zero.mp hskip
      have hnot : ('/' :: '*' :: m').isPrefixOf ('/' :: b) = false := by
        cases b with
        | nil => rfl
        | cons e b =>
            have he : ('*' == e) = false := by
              rw [beq_eq_false_iff_ne]
              exact fun heq => hb (heq ▸ rfl)
            simp [List.isPrefixOf, he]
      have hbehind : replacing j.boundary ('/' :: '*' :: m') r 0 (front ++ ['/']) b =
          replacing j.boundary ('/' :: '*' :: m') r 0 [] b := replacing_congr hm (freeFront_slash front)
      rw [List.nil_append, replacing_cons hm, occurs, hnot, hbehind]
      rfl
  | cons c a ih =>
      have htail : a.getLast? ≠ some '*' := getLast?_ne_of_cons ha
      cases skip with
      | succ skip => exact ih (Nat.le_of_succ_le_succ hskip) htail
      | zero =>
          have hsame : occurs j m front (c :: (a ++ '/' :: b)) = occurs j m front (c :: a) :=
            hm.occurs_slash (List.cons_ne_nil c a) ha
          rw [List.cons_append, replacing_cons hm, replacing_cons hm, hsame]
          split
          · rename_i hhere
            have hpre : m <+: c :: a := List.isPrefixOf_iff_prefix.mp (Bool.and_eq_true_iff.1
              (Bool.and_eq_true_iff.1 hhere).1).1
            have hlen : m.length - 1 ≤ a.length := by
              have hle := hpre.length_le
              rw [List.length_cons] at hle
              omega
            rw [ih hlen htail, List.append_assoc]
          · rw [ih (Nat.zero_le _) htail, List.cons_append]

theorem replacingOccurrences_slash (hm : IsComment m) (ha : a.getLast? ≠ some '*') (hb : b.head? ≠ some '*') :
    replacingOccurrences j.boundary m r (a ++ '/' :: b) =
      replacingOccurrences j.boundary m r a ++ '/' :: replacingOccurrences j.boundary m r b :=
  replacing_slash hm hb (Nat.zero_le _) ha

theorem replacing_of_not_infix (h : ¬ m <:+: s) : replacing boundary m r 0 front s = s := by
  induction s generalizing front with
  | nil => rfl
  | cons c s ih =>
      have hpre : m.isPrefixOf (c :: s) = false := eq_false_of_ne_true fun hpre =>
        h (List.isPrefixOf_iff_prefix.mp hpre).isInfix
      rw [replacing, hpre, ih fun hs => h (List.infix_cons hs)]
      rfl

theorem replacingOccurrences_of_not_infix (h : ¬ m <:+: s) : replacingOccurrences boundary m r s = s :=
  replacing_of_not_infix h

/-- The slashes of a block: neither belongs to a comment. -/
structure Delimited (before inner behind : Text) : Prop where
  before_slash : before.getLast? ≠ some '/'
  before_star : before.getLast? ≠ some '*'
  inner_head : inner.head? ≠ some '*'
  inner_last : inner.getLast? ≠ some '*'
  behind_slash : behind.head? ≠ some '/'
  behind_star : behind.head? ≠ some '*'

variable {before inner behind : Text}

theorem Delimited.replacingOccurrences (h : Delimited before inner behind) (hm : IsComment m) (r : Text) :
    replacingOccurrences j.boundary m r (before ++ '/' :: (inner ++ '/' :: behind)) =
      replacingOccurrences j.boundary m r before ++ '/' :: (replacingOccurrences j.boundary m r inner ++
        '/' :: replacingOccurrences j.boundary m r behind) := by
  have hhead : (inner ++ '/' :: behind).head? ≠ some '*' := by
    cases inner with
    | nil => simp
    | cons c inner => exact h.inner_head
  rw [replacingOccurrences_slash hm h.before_star hhead, replacingOccurrences_slash hm h.inner_last h.behind_star]

end ObservableBSD.Instruments
