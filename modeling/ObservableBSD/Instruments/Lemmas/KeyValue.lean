import ObservableBSD.Instruments.KeyValue
import ObservableBSD.Instruments.Lemmas.Text

/-!
# Keys and values

What the splitting at equals signs makes of a text, and the last text that says something of a key.
-/

namespace ObservableBSD.Instruments

open Base Export

variable {boundary : CharacterBoundary} {raw key value : Text}

/-! ## Splitting -/

section Split

variable {α : Type*} [DecidableEq α] {c : α} {piece : List α}

/-- With one split allowed, the first piece that is not empty ends at the first separator behind it. -/
theorem splitLoop_one (hpiece : piece ≠ []) (s : List α) : splitLoop c (some 1) 0 piece s =
    match splitFirst (· = c) s with
    | some (k, v) => (piece ++ k) :: if v = [] then [] else [v]
    | none => [piece ++ s] := by
  induction s generalizing piece with
  | nil => rw [splitLoop, if_neg hpiece, splitFirst, List.append_nil]
  | cons d s ih =>
      rw [splitLoop, splitFirst]
      by_cases hd : d = c
      · subst hd
        rw [if_neg (not_not_intro rfl), if_neg hpiece, if_pos rfl, if_pos (decide_eq_true rfl)]
        simp
      · rw [if_pos hd, if_neg (by simpa using hd), ih (List.append_ne_nil_of_right_ne_nil _ (List.cons_ne_nil d []))]
        cases splitFirst (· = c) s with
        | none => simp
        | some p => simp

theorem split_one (s : List α) : split c (some 1) s =
    match splitFirst (· = c) (s.dropWhile (· = c)) with
    | some (k, v) => k :: if v = [] then [] else [v]
    | none => if s.dropWhile (· = c) = [] then [] else [s.dropWhile (· = c)] := by
  rw [split, if_neg (by simp)]
  induction s with
  | nil => rfl
  | cons d s ih =>
      rw [splitLoop, List.dropWhile_cons]
      by_cases hd : d = c
      · rw [if_neg (not_not_intro hd), if_pos rfl, ih, if_pos (decide_eq_true hd)]
      · have hd' : ¬ decide (d = c) = true := by simpa using hd
        rw [if_pos hd, if_neg hd', splitFirst, if_neg hd', List.nil_append, splitLoop_one (List.cons_ne_nil d [])]
        cases splitFirst (· = c) s with
        | none => simp
        | some p => simp

end Split

/-! ## What a text says of a key -/

/-- The texts on both sides of the first equals sign behind those at the start. -/
def pairOf? (boundary : CharacterBoundary) (raw : Text) : Option (Text × Text) :=
  (splitFirst (· = ('=', true)) ((scalars boundary raw).dropWhile (· = ('=', true)))).map fun q =>
    (q.1.map Prod.fst, q.2.map Prod.fst)

/-- What the loop takes from a text for a key. -/
def parsed? (boundary : CharacterBoundary) (key raw : Text) : Option Text :=
  ((about? boundary key raw).filter fun e => e.2 ≠ []).map (·.2)

theorem about?_eq_some_iff {e : Bool × Text} : about? boundary key raw = some e ↔
    pairOf? boundary raw = some (key, e.2) ∧ e.1 = decide ((scalars boundary raw).head? ≠ some ('=', true)) ∧
      (e.1 = true ∨ e.2 ≠ []) := by
  obtain ⟨plain, value⟩ := e
  unfold about? pairOf?
  cases hsplit : splitFirst (· = ('=', true)) ((scalars boundary raw).dropWhile (· = ('=', true))) with
  | none => simp
  | some p =>
      obtain ⟨k, v⟩ := p
      simp only [Option.map_some, Option.ite_none_right_eq_some, Option.some.injEq, Prod.mk.injEq]
      constructor
      · rintro ⟨⟨rfl, hv⟩, rfl, rfl⟩
        exact ⟨⟨rfl, rfl⟩, rfl, by simpa using hv⟩
      · rintro ⟨⟨rfl, rfl⟩, rfl, hv⟩
        exact ⟨⟨rfl, by simpa using hv⟩, rfl, rfl⟩

theorem parsed?_eq_some_iff : parsed? boundary key raw = some value ↔
    pairOf? boundary raw = some (key, value) ∧ value ≠ [] := by
  unfold parsed?
  rw [Option.map_eq_some_iff]
  constructor
  · rintro ⟨e, he, rfl⟩
    obtain ⟨habout, hv⟩ := Option.filter_eq_some_iff.1 he
    exact ⟨(about?_eq_some_iff.1 habout).1, of_decide_eq_true hv⟩
  · rintro ⟨hsplit, hv⟩
    refine ⟨(decide ((scalars boundary raw).head? ≠ some ('=', true)), value),
      Option.filter_eq_some_iff.2 ⟨?_, decide_eq_true hv⟩, rfl⟩
    exact about?_eq_some_iff.2 ⟨hsplit, rfl, .inr hv⟩

theorem firstEquals?_eq (boundary : CharacterBoundary) (raw : Text) : firstEquals? boundary raw =
    (splitFirst (· = ('=', true)) (scalars boundary raw)).map fun q => (q.1.map Prod.fst, q.2.map Prod.fst) := by
  have hequals : (fun e : Char × Bool => e.2 && decide (e.1 = '=')) = fun e => decide (e = ('=', true)) := by
    funext e
    rw [Bool.eq_iff_iff]
    simp [Prod.ext_iff, and_comm]
  rw [firstEquals?, cutFirst?, hequals]

theorem direct?_eq_some_iff :
    direct? boundary key raw = some value ↔ firstEquals? boundary raw = some (key, value) ∧ key ≠ [] := by
  have habout : direct? boundary key raw = some value ↔
      pairOf? boundary raw = some (key, value) ∧ (scalars boundary raw).head? ≠ some ('=', true) := by
    unfold direct?
    rw [Option.map_eq_some_iff]
    constructor
    · rintro ⟨e, he, rfl⟩
      obtain ⟨habout, hplain⟩ := Option.filter_eq_some_iff.1 he
      obtain ⟨hpair, hhead, -⟩ := about?_eq_some_iff.1 habout
      exact ⟨hpair, of_decide_eq_true (hhead.symm.trans hplain)⟩
    · rintro ⟨hpair, hhead⟩
      exact ⟨(true, value), Option.filter_eq_some_iff.2
        ⟨about?_eq_some_iff.2 ⟨hpair, (decide_eq_true hhead).symm, .inl rfl⟩, rfl⟩, rfl⟩
  rw [habout, firstEquals?_eq, pairOf?]
  cases hs : scalars boundary raw with
  | nil => simp [splitFirst]
  | cons e l =>
      by_cases he : e = ('=', true)
      · rw [List.head?_cons, he, splitFirst, if_pos (decide_eq_true rfl)]
        simp only [Option.map_some, List.map_nil, Option.some.injEq, Prod.mk.injEq]
        exact iff_of_false (fun h => h.2 rfl) fun h => h.2 h.1.1.symm
      · have he' : ¬ decide (e = ('=', true)) = true := by simpa using he
        have hhead : (e :: l).head? ≠ some ('=', true) := by simpa using he
        rw [List.dropWhile_cons, if_neg he', and_iff_left hhead, splitFirst, if_neg he']
        refine (and_iff_left_of_imp fun h => ?_).symm
        obtain ⟨q, hq, heq⟩ := Option.map_eq_some_iff.1 h
        obtain ⟨q', -, rfl⟩ := Option.map_eq_some_iff.1 hq
        cases heq
        exact List.cons_ne_nil _ _

theorem setPair_eq (boundary : CharacterBoundary) (pairs : Text → Option Text) (raw key : Text) :
    setPair boundary pairs raw key = (parsed? boundary key raw).or (pairs key) := by
  have hparsed (value : Text) : parsed? boundary key raw = some value ↔
      pairOf? boundary raw = some (key, value) ∧ value ≠ [] := parsed?_eq_some_iff
  unfold setPair
  unfold pairOf? at hparsed
  rw [split_one]
  cases hsplit : splitFirst (· = ('=', true)) ((scalars boundary raw).dropWhile (· = ('=', true))) with
  | none =>
      have hnone : parsed? boundary key raw = none := Option.eq_none_iff_forall_ne_some.2 fun v hv => by
        rw [hparsed, hsplit] at hv
        cases hv.1
      rw [hnone]
      dsimp only
      split_ifs <;> rfl
  | some p =>
      obtain ⟨k, v⟩ := p
      simp only [hsplit, Option.map_some, Option.some.injEq, Prod.mk.injEq] at hparsed
      by_cases hv : v = []
      · have hnone : parsed? boundary key raw = none := Option.eq_none_iff_forall_ne_some.2 fun v' hv' => by
          obtain ⟨⟨-, rfl⟩, hne⟩ := (hparsed v').1 hv'
          exact hne (by rw [hv]; rfl)
        rw [hnone]
        dsimp only
        rw [if_pos hv]
        rfl
      · dsimp only
        rw [if_neg hv]
        by_cases hk : k.map Prod.fst = key
        · subst hk
          rw [(hparsed (v.map Prod.fst)).2 ⟨⟨rfl, rfl⟩, by simpa using hv⟩]
          exact Function.update_self ..
        · have hnone : parsed? boundary key raw = none := Option.eq_none_iff_forall_ne_some.2 fun v' hv' =>
            hk ((hparsed v').1 hv').1.1
          rw [hnone]
          exact Function.update_of_ne (Ne.symm hk) ..

/-! ## The last text that says something -/

theorem foldl_setPair (raws : List Text) (pairs : Text → Option Text) (key : Text) :
    raws.foldl (setPair boundary) pairs key = (raws.reverse.findSome? (parsed? boundary key)).or (pairs key) := by
  induction raws using List.reverseRecOn with
  | nil => rfl
  | append_singleton raws raw ih =>
      rw [List.foldl_append, List.foldl_cons, List.foldl_nil, setPair_eq, ih, List.reverse_concat, List.findSome?_cons]
      cases parsed? boundary key raw <;> rfl

theorem lastValues_iff (raws : List Text) (d : Text → Option Text) :
    LastValues boundary raws d ↔ ∀ key, d key = raws.reverse.findSome? (direct? boundary key) := by
  have hlaw (key value : Text) : raws.reverse.findSome? (direct? boundary key) = some value ↔ key ≠ [] ∧
      ∃ before raw after, raws = before ++ raw :: after ∧ firstEquals? boundary raw = some (key, value) ∧
        ∀ other ∈ after, ∀ v, firstEquals? boundary other ≠ some (key, v) := by
    rw [List.findSome?_eq_some_iff]
    constructor
    · rintro ⟨after, raw, before, hraws, hdirect, hnone⟩
      obtain ⟨hfirst, hne⟩ := direct?_eq_some_iff.1 hdirect
      refine ⟨hne, before.reverse, raw, after.reverse, ?_, hfirst, fun other hother v hv => ?_⟩
      · simpa using congrArg List.reverse hraws
      · have hsome := direct?_eq_some_iff.2 ⟨hv, hne⟩
        rw [hnone _ (List.mem_reverse.1 hother)] at hsome
        cases hsome
    · rintro ⟨hne, before, raw, after, rfl, hfirst, hlater⟩
      refine ⟨after.reverse, raw, before.reverse, by simp, direct?_eq_some_iff.2 ⟨hfirst, hne⟩, fun other hother => ?_⟩
      exact Option.eq_none_iff_forall_ne_some.2 fun v hv =>
        hlater other (List.mem_reverse.1 hother) v (direct?_eq_some_iff.1 hv).1
  unfold LastValues
  refine forall_congr' fun key => ?_
  simp only [← hlaw]
  exact ⟨fun h => Option.ext h, fun h value => by rw [h]⟩

section Filter

variable {α β γ : Type*} {f : α → Option β} {l : List α}

theorem findSome?_filter_of_none (p : β → Bool) (g : β → γ) (h : l.findSome? f = none) :
    l.findSome? (fun a => ((f a).filter p).map g) = none := by
  rw [List.findSome?_eq_none_iff] at h ⊢
  intro a ha
  rw [h a ha]
  rfl

theorem findSome?_filter_of_some {p : β → Bool} (g : β → γ) {b : β} (h : l.findSome? f = some b) (hp : p b = true) :
    l.findSome? (fun a => ((f a).filter p).map g) = some (g b) := by
  obtain ⟨before, a, after, rfl, hfa, hnone⟩ := List.findSome?_eq_some_iff.1 h
  refine List.findSome?_eq_some_iff.2 ⟨before, a, after, rfl, ?_, fun a' ha' => ?_⟩
  · rw [hfa, Option.filter_some_pos hp]
    rfl
  · rw [hnone a' ha']
    rfl

end Filter

/-- The loop gives each key the value behind its first equals sign exactly when the last text about it agrees. -/
theorem lastValues_foldl_iff (raws : List Text) :
    LastValues boundary raws (raws.foldl (setPair boundary) fun _ => none) ↔ LastAgree boundary raws := by
  rw [lastValues_iff]
  simp only [foldl_setPair, Option.or_none]
  unfold LastAgree
  refine forall_congr' fun key => ?_
  cases hlast : raws.reverse.findSome? (about? boundary key) with
  | none =>
      have hparsed : raws.reverse.findSome? (parsed? boundary key) = none := findSome?_filter_of_none _ _ hlast
      have hdirect : raws.reverse.findSome? (direct? boundary key) = none := findSome?_filter_of_none _ _ hlast
      rw [hparsed, hdirect]
      exact iff_of_true rfl fun _ _ h => by cases h
  | some e =>
      obtain ⟨plain, value⟩ := e
      by_cases hv : value = []
      · subst hv
        -- an empty value is only about the key at the start
        have hplain : plain = true := by
          obtain ⟨raw, _, hraw⟩ := List.exists_of_findSome?_eq_some hlast
          exact (about?_eq_some_iff.1 hraw).2.2.resolve_right fun hne => hne rfl
        have hdirect : raws.reverse.findSome? (direct? boundary key) = some [] :=
          findSome?_filter_of_some Prod.snd hlast hplain
        rw [hdirect]
        refine iff_of_false (fun h => ?_) fun h => (h plain [] rfl).1 rfl
        obtain ⟨raw, _, hraw⟩ := List.exists_of_findSome?_eq_some h
        exact (parsed?_eq_some_iff.1 hraw).2 rfl
      · have hparsed : raws.reverse.findSome? (parsed? boundary key) = some value :=
          findSome?_filter_of_some Prod.snd hlast (decide_eq_true hv)
        rw [hparsed]
        constructor
        · intro h plain' value' heq
          cases heq
          exact ⟨hv, h.symm⟩
        · intro h
          exact (h plain value rfl).2.symm

theorem lastValues_environmentPairs_iff (raw : Option Text) :
    LastValues boundary (pairsOf boundary raw) (environmentPairs boundary raw) ↔
      LastAgree boundary (pairsOf boundary raw) := by
  cases raw with
  | none => exact lastValues_foldl_iff []
  | some raw =>
      have hbeq : (instBEqProd : BEq (Char × Bool)) = instBEqOfDecidableEq := lawful_beq_subsingleton _ _
      rw [environmentPairs, split_none, pairsOf, Option.getD_some, hbeq]
      exact lastValues_foldl_iff _

end ObservableBSD.Instruments
