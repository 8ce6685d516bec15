import Mathlib.Data.Finset.Card
import ObservableBSD.Decode.Activation
import ObservableBSD.Decode.Lemmas.StackBuf

/-!
# What the collapsed stacks count

`collapsed_record` counts the call path of every activation at its RETURN. As long as the table has room,
the count of a stack string is the number of completed activations whose path gives that string.
-/

namespace ObservableBSD.Decode

open Base

/-! ## The table -/

def CollapsedEntry.bump (e : CollapsedEntry) : CollapsedEntry := { e with count := e.count + 1 }

/-- A stack string counted once more, in its entry or a new one. -/
def bumpString (stack : CString) (entries : List CollapsedEntry) : List CollapsedEntry :=
  upsert CollapsedEntry.stack stack { stack, count := 0 } CollapsedEntry.bump entries

/-- What `collapsed_count_stack` does to the table with the string that was built. -/
def countString (entries : List CollapsedEntry) (stack : CString) : List CollapsedEntry :=
  if (lookupKey CollapsedEntry.stack stack entries).isSome ∨ entries.length < maxCollapsedStacks then
    bumpString stack entries
  else entries

def stackCount (entries : List CollapsedEntry) (stack : CString) : Nat :=
  ((lookupKey CollapsedEntry.stack stack entries).map CollapsedEntry.count).getD 0

/-- The table holds one entry for each of the strings, with the number of times it occurs. -/
structure Tallies (strings : List CString) (entries : List CollapsedEntry) : Prop where
  count : ∀ s, stackCount entries s = strings.count s
  known : ∀ s, (lookupKey CollapsedEntry.stack s entries).isSome ↔ s ∈ strings
  length : entries.length = strings.toFinset.card

theorem Tallies.nil : Tallies [] [] where
  count _ := rfl
  known _ := by simp [lookupKey]
  length := rfl

theorem lookup_bumpString (s : CString) (entries : List CollapsedEntry) (t : CString) :
    lookupKey CollapsedEntry.stack t (bumpString s entries) =
      if t = s then some ((lookupKey CollapsedEntry.stack s entries).getD ⟨s, 0⟩).bump
      else lookupKey CollapsedEntry.stack t entries := by
  have hnew : CollapsedEntry.stack ⟨s, 0⟩ = s := rfl
  have hbump : ∀ e, CollapsedEntry.stack (CollapsedEntry.bump e) = CollapsedEntry.stack e := fun _ => rfl
  exact lookupKey_upsert hnew hbump entries t

theorem stackCount_bumpString (s : CString) (entries : List CollapsedEntry) (t : CString) :
    stackCount (bumpString s entries) t = stackCount entries t + if s = t then 1 else 0 := by
  rw [stackCount, stackCount, lookup_bumpString]
  by_cases h : t = s
  · subst h
    cases lookupKey CollapsedEntry.stack t entries <;> simp [CollapsedEntry.bump]
  · rw [if_neg h, if_neg (Ne.symm h), Nat.add_zero]

theorem toFinset_concat (strings : List CString) (s : CString) :
    (strings ++ [s]).toFinset = insert s strings.toFinset := by
  ext t
  simp

theorem Tallies.concat {strings : List CString} {entries : List CollapsedEntry} (h : Tallies strings entries)
    (s : CString) (hroom : (strings ++ [s]).toFinset.card ≤ maxCollapsedStacks) :
    Tallies (strings ++ [s]) (countString entries s) := by
  have hcond : (lookupKey CollapsedEntry.stack s entries).isSome ∨ entries.length < maxCollapsedStacks := by
    by_cases hs : s ∈ strings
    · exact .inl ((h.known s).2 hs)
    · right
      rw [toFinset_concat, Finset.card_insert_of_notMem (by simpa using hs)] at hroom
      rw [h.length]
      omega
  rw [countString, if_pos hcond]
  refine ⟨fun t => ?_, fun t => ?_, ?_⟩
  · rw [stackCount_bumpString, h.count, List.count_append, List.count_singleton]
    simp
  · rw [lookup_bumpString]
    by_cases ht : t = s
    · simp [ht]
    · rw [if_neg ht, h.known]
      simp [ht]
  · rw [bumpString, length_upsert, h.length, toFinset_concat]
    by_cases hs : s ∈ strings
    · rw [if_pos ((h.known s).2 hs), Finset.insert_eq_of_mem (by simpa using hs)]
      rfl
    · rw [if_neg (mt (h.known s).1 hs), Finset.card_insert_of_notMem (by simpa using hs)]

theorem tallies_foldl {strings : List CString} (hroom : strings.toFinset.card ≤ maxCollapsedStacks) :
    Tallies strings (strings.foldl countString []) := by
  induction strings using List.reverseRecOn with
  | nil => exact .nil
  | append_singleton strings s ih =>
      have hle : strings.toFinset.card ≤ (strings ++ [s]).toFinset.card :=
        Finset.card_le_card (by rw [toFinset_concat]; exact Finset.subset_insert s _)
      rw [List.foldl_concat]
      exact (ih (Nat.le_trans hle hroom)).concat s hroom

/-! ## Reading a stream -/

/-- The string that `collapsed_build_stack` builds for a path. -/
def Completion.text (d : Completion) : CString :=
  (joinNames (d.path.reverse.map StrPtr.text)).take (stackBufSize - 1)

theorem collapsedCountStack_eq {col : Collapsed} (h : col.names ≠ []) (leaf : Bool) :
    collapsedCountStack col =
      { col with entries := countString col.entries ({ path := col.names, leaf } : Completion).text } := by
  have hdepth : col.depth ≠ 0 := by simpa [Collapsed.depth] using h
  have htext : ({ path := col.names, leaf } : Completion).text =
      (joinNames col.stack).take (stackBufSize - 1) := rfl
  rw [collapsedCountStack, collapsedBuildStack_eq hdepth, htext]
  unfold countString
  by_cases hroom : (lookupKey CollapsedEntry.stack ((joinNames col.stack).take (stackBufSize - 1))
      col.entries).isSome ∨ col.entries.length < maxCollapsedStacks
  · simp only [if_pos hroom]
    rfl
  · simp only [if_neg hroom]

/-- The first instruction behind a CALL is read as if its function were on the stack already. -/
theorem collapsedRecord_enter {col : Collapsed} {x : DecodedInsn} {s : SymEntry}
    (hx : x.sym = some s ∧ x.ip = s.addr) (hc : col.prevClass.isCall = true) (hd : col.depth < maxStackDepth) :
    collapsedRecord col x =
      collapsedRecord { col with names := s.name :: col.names, prevClass := .unknown } x := by
  have henter : collapsedEnter col x = { col with names := s.name :: col.names } := by
    simp [collapsedEnter, hx.1, hx.2, hc, hd]
  have hskip : collapsedEnter { col with names := s.name :: col.names, prevClass := .unknown } x =
      { col with names := s.name :: col.names, prevClass := .unknown } := by
    rw [collapsedEnter_skip]
    simp [PtInsnClass.isCall]
  rw [collapsedRecord, collapsedRecord, henter, hskip]
  cases x.iclass.isReturn with
  | false => rfl
  | true =>
      have hne : ({ col with names := s.name :: col.names } : Collapsed).names ≠ [] := List.cons_ne_nil _ _
      have hne' : ({ col with names := s.name :: col.names, prevClass := .unknown } : Collapsed).names ≠ [] :=
        List.cons_ne_nil _ _
      simp only [if_true]
      rw [collapsedCountStack_eq hne true, collapsedCountStack_eq hne' true]

/-- Elsewhere an instruction that is no RETURN changes nothing but what is remembered of it. -/
theorem collapsedRecord_skip {col : Collapsed} {x : DecodedInsn} (hc : col.prevClass.isCall = false)
    (hx : x.iclass.isReturn = false) :
    collapsedRecord col x = { col with prevSym := x.sym, prevClass := x.iclass } := by
  have hskip : collapsedEnter col x = col := collapsedEnter_skip (by simp [hc])
  rw [collapsedRecord, hskip]
  simp [hx]

theorem collapsedRecord_return {col : Collapsed} {x : DecodedInsn} (hc : col.prevClass.isCall = false)
    (hx : x.iclass.isReturn = true) (hne : col.names ≠ []) (leaf : Bool) :
    collapsedRecord col x =
      { entries := countString col.entries ({ path := col.names, leaf } : Completion).text
        names := col.names.tail, prevSym := x.sym, prevClass := x.iclass } := by
  have hskip : collapsedEnter col x = col := collapsedEnter_skip (by simp [hc])
  rw [collapsedRecord, hskip]
  simp only [hx, if_true]
  rw [collapsedCountStack_eq hne leaf]

/-- Outcome of reading the activations `f` from the state `col`: every completed activation is counted, and when
all of them are completed the stack is what it was. -/
structure ReadsCalls (cut : Bool) (f : List Activation) (col after : Collapsed) : Prop where
  entries : after.entries = ((completionsList col.names f).map Completion.text).foldl countString col.entries
  names : cut = false → after.names = col.names
  prevClass : cut = false → after.prevClass.isCall = false

theorem foldl_collapsedRecord_enter {col : Collapsed} {l : List DecodedInsn} {a : ActData}
    (hhead : l.head? = some a.entry) (hc : col.prevClass.isCall = true) (hd : col.depth < maxStackDepth) :
    l.foldl collapsedRecord col =
      l.foldl collapsedRecord { col with names := a.fn.name :: col.names, prevClass := .unknown } := by
  cases l with
  | nil => cases hhead
  | cons x l =>
      cases hhead
      rw [List.foldl_cons, List.foldl_cons, collapsedRecord_enter a.enters hc hd]

/-- A CALL is followed by a function that is on the stack when its first instruction is read. -/
theorem foldl_collapsedRecord_call {col : Collapsed} {c : DecodedInsn} {l : List DecodedInsn} {a : ActData}
    (hopen : insnKind c = .opening) (hhead : l.head? = some a.entry) (hc : col.prevClass.isCall = false)
    (hd : col.depth < maxStackDepth) :
    (c :: l).foldl collapsedRecord col =
      l.foldl collapsedRecord
        { col with names := a.fn.name :: col.names, prevSym := c.sym, prevClass := .unknown } := by
  have hcall : c.iclass.isCall = true := insnKind_opening.1 hopen
  rw [List.foldl_cons, collapsedRecord_skip hc (isReturn_of_isCall hcall)]
  exact foldl_collapsedRecord_enter hhead hcall hd

theorem collapsed_readsCalls {cut : Bool} {w : List DecodedInsn} {f : List Activation} (h : Runs cut w f)
    (col : Collapsed) (hc : col.prevClass.isCall = false)
    (hd : col.depth + Activation.depthList f ≤ maxStackDepth) :
    ReadsCalls cut f col (w.foldl collapsedRecord col) := by
  induction h generalizing col with
  | nil => exact ⟨rfl, fun _ => rfl, fun _ => hc⟩
  | @other cut x w f hx _ ih =>
      obtain ⟨hcall, hret⟩ := insnKind_other.1 hx
      rw [List.foldl_cons, collapsedRecord_skip hc hret]
      have hread := ih { col with prevSym := x.sym, prevClass := x.iclass } hcall hd
      exact ⟨hread.entries, hread.names, hread.prevClass⟩
  | @call cut c r u v a calls f hopen hu hhead hexit hv ihu ihv =>
      rw [Activation.depthList, Activation.depth] at hd
      have hsplit : c :: (u ++ r :: v) = (c :: (u ++ [r])) ++ v := by simp
      rw [hsplit, List.foldl_append, foldl_collapsedRecord_call hopen hhead hc (by omega), List.foldl_concat]
      -- the callee's own calls, from the stack with the callee on it
      have hbody := ihu { col with names := a.fn.name :: col.names, prevSym := c.sym, prevClass := .unknown }
        rfl (by simp only [Collapsed.depth, List.length_cons] at hd ⊢; omega)
      generalize u.foldl collapsedRecord _ = inner at hbody ⊢
      have hnames : inner.names = a.fn.name :: col.names := hbody.names rfl
      have hret : r.iclass.isReturn = true := a.returns r (by simp [hexit])
      rw [collapsedRecord_return (hbody.prevClass rfl) hret (by simp [hnames]) calls.isEmpty, hnames, List.tail_cons]
      have hrest := ihv ⟨countString inner.entries
        ({ path := a.fn.name :: col.names, leaf := calls.isEmpty } : Completion).text, col.names, r.sym, r.iclass⟩
        (isCall_of_isReturn hret) (by simp only [Collapsed.depth] at hd ⊢; omega)
      refine ⟨?_, hrest.names, hrest.prevClass⟩
      rw [hrest.entries, hbody.entries]
      simp [completionsList, completions, hexit]
  | @cutAtCall c hopen =>
      have hcall : c.iclass.isCall = true := insnKind_opening.1 hopen
      rw [List.foldl_cons, List.foldl_nil, collapsedRecord_skip hc (isReturn_of_isCall hcall)]
      exact ⟨rfl, fun h => (by cases h), fun h => (by cases h)⟩
  | @cutInCall c u a calls hopen hu hhead hexit ihu =>
      rw [Activation.depthList, Activation.depth] at hd
      rw [foldl_collapsedRecord_call hopen hhead hc (by omega)]
      have hbody := ihu { col with names := a.fn.name :: col.names, prevSym := c.sym, prevClass := .unknown }
        rfl (by simp only [Collapsed.depth, List.length_cons] at hd ⊢; omega)
      refine ⟨?_, fun h => (by cases h), fun h => (by cases h)⟩
      rw [hbody.entries]
      simp [completionsList, completions, hexit]

/-- A stream counts the completed activations. -/
theorem collapsedRun_entries {cut : Bool} {w : List DecodedInsn} {f : List Activation} (h : Runs cut w f)
    (hd : Activation.depthList f ≤ maxStackDepth) :
    (collapsedRun w).entries = ((completionsList [] f).map Completion.text).foldl countString [] :=
  (collapsed_readsCalls h _ rfl (by simpa [Collapsed.depth, collapsedInit] using hd)).entries

end ObservableBSD.Decode
