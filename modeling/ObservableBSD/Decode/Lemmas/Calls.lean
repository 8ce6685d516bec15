import ObservableBSD.Decode.Profile
import ObservableBSD.Decode.Lemmas.Callers
import ObservableBSD.Decode.Lemmas.Shadow

/-!
# Calls in the profile and in the call tree

Both count a call at the entry of a symbol behind a CALL. The call tree asks for the class of the
previous instruction, the profile for the class of the previous instruction that has a symbol.
-/

namespace ObservableBSD.Decode

open Base Trace

def samePtr (name binary n b : StrPtr) : Bool := n = name && b = binary

def DecodedInsn.entersKey (x : DecodedInsn) (key : StrPtr → StrPtr → Bool) : Bool :=
  match x.sym with
  | none => false
  | some s => x.ip = s.addr && key s.name s.binary

def DecodedInsn.symbolized (x : DecodedInsn) : Bool := x.sym.isSome

theorem toNat_eq_toNat {a b : Bool} : a.toNat = b.toNat ↔ a = b := by
  cases a <;> cases b <;> decide

theorem entersKey_of_not_atEntry {x : DecodedInsn} (h : x.atEntry = false) (key : StrPtr → StrPtr → Bool) :
    x.entersKey key = false := by
  unfold DecodedInsn.entersKey
  unfold DecodedInsn.atEntry at h
  cases hs : x.sym with
  | none => rfl
  | some s => rw [hs] at h; simp only at h ⊢; rw [h, Bool.false_and]

theorem entersKey_of_atEntry {x : DecodedInsn} {s : SymEntry} (hs : x.sym = some s) (hip : x.ip = s.addr)
    (key : StrPtr → StrPtr → Bool) : x.entersKey key = key s.name s.binary := by
  simp [DecodedInsn.entersKey, hs, hip]

/-! ## One instruction -/

theorem calltreeEnter_sumCount {ct : Calltree} (h : ct.Valid) (x : DecodedInsn)
    (key : StrPtr → StrPtr → Bool) :
    (calltreeEnter ct x).root.sumCount key =
      ct.root.sumCount key + (ct.prevClass.isCall && x.entersKey key).toNat := by
  unfold calltreeEnter
  split
  · rename_i hx
    obtain ⟨s, hs, hip⟩ := atEntry_iff.mp hx.1
    rw [hs, calltreePush_sumCount h, hx.2, entersKey_of_atEntry hs hip, Bool.true_and]
  · rename_i hx
    cases hc : ct.prevClass.isCall with
    | false => simp
    | true =>
        have he : x.atEntry = false := eq_false_of_ne_true fun he => hx ⟨he, hc⟩
        simp [entersKey_of_not_atEntry he]

/-- The call tree counts the entries behind a CALL. -/
theorem calltreeRecord_sumCount {ct : Calltree} (h : ct.Valid) (x : DecodedInsn)
    (key : StrPtr → StrPtr → Bool) :
    (calltreeRecord ct x).root.sumCount key =
      ct.root.sumCount key + (ct.prevClass.isCall && x.entersKey key).toNat := by
  have he := calltreeEnter_sumCount h x key
  unfold calltreeRecord
  split
  · exact (calltreePop_sumCount (calltreeEnter_valid h x) x.tsc key).trans he
  · exact he

theorem profileLeave_key (iclass : PtInsnClass) (tsc : UInt64) (e : ProfileEntry) :
    (profileLeave iclass tsc e).key = e.key := by
  unfold profileLeave
  split
  · split <;> rfl
  · split <;> rfl
  all_goals rfl

theorem profileLeave_calls (iclass : PtInsnClass) (tsc : UInt64) (e : ProfileEntry) :
    (profileLeave iclass tsc e).calls = e.calls := by
  unfold profileLeave
  split
  · split <;> rfl
  · split <;> rfl
  all_goals rfl

theorem profileEnter_key (c : PtInsnClass) (s : SymEntry) (ip tsc : UInt64) (e : ProfileEntry) :
    (profileEnter c s ip tsc e).key = e.key := by
  unfold profileEnter
  split <;> rfl

theorem profileEnter_calls (c : PtInsnClass) (s : SymEntry) (ip tsc : UInt64) (e : ProfileEntry) :
    (profileEnter c s ip tsc e).calls = e.calls + (c.isCall && decide (ip = s.addr)).toNat := by
  unfold profileEnter
  split
  · rename_i h; simp [h.1, h.2]
  · rename_i h
    cases hc : c.isCall with
    | false => simp
    | true =>
        have hip : ip ≠ s.addr := fun hip => h ⟨hip, hc⟩
        simp [hip]

theorem profileNewEntry_key (dwarf : DwarfLookup) (sections : Option (List PtImageInfo)) (s : SymEntry) :
    (profileNewEntry dwarf sections s).key = (s.name, s.binary) := by
  unfold profileNewEntry
  split <;> rfl

theorem profileNewEntry_calls (dwarf : DwarfLookup) (sections : Option (List PtImageInfo)) (s : SymEntry) :
    (profileNewEntry dwarf sections s).calls = 0 := by
  unfold profileNewEntry
  split <;> rfl

section Run

variable {dwarf : DwarfLookup} {sections : Option (List PtImageInfo)}

theorem profileRecord_calls (p : Profile) (x : DecodedInsn) (name binary : StrPtr) :
    (profileRecord dwarf sections p x).calls name binary =
      p.calls name binary + (p.prevClass.isCall && x.entersKey (samePtr name binary)).toNat := by
  unfold profileRecord DecodedInsn.entersKey
  cases x.sym with
  | none => simp
  | some s =>
      have hkey : ∀ e, (profileLeave x.iclass x.tsc (profileEnter p.prevClass s x.ip x.tsc e)).key = e.key :=
        fun e => (profileLeave_key ..).trans (profileEnter_key ..)
      simp only [Profile.calls]
      rw [lookupKey_upsert (profileNewEntry_key dwarf sections s) hkey]
      by_cases h : (name, binary) = (s.name, s.binary)
      · rw [if_pos h]
        obtain ⟨rfl, rfl⟩ := Prod.mk.inj h
        cases lookupKey ProfileEntry.key (s.name, s.binary) p.entries with
        | none => simp [profileLeave_calls, profileEnter_calls, profileNewEntry_calls, samePtr]
        | some e => simp [profileLeave_calls, profileEnter_calls, samePtr]
      · have hs : samePtr name binary s.name s.binary = false := by
          rw [Prod.mk.injEq] at h
          simp only [samePtr, Bool.and_eq_false_iff, decide_eq_false_iff_not, ← not_and_or]
          exact fun he => h ⟨he.1.symm, he.2.symm⟩
        rw [if_neg h, hs, Bool.and_false, Bool.and_false, Bool.toNat_false, Nat.add_zero]

/-! ## A stream of instructions -/

theorem profileRun_concat (w : List DecodedInsn) (x : DecodedInsn) :
    profileRun dwarf sections (w ++ [x]) = profileRecord dwarf sections (profileRun dwarf sections w) x := by
  simp [profileRun]

theorem profileRun_prevClass (w : List DecodedInsn) :
    (profileRun dwarf sections w).prevClass.isCall = true ↔
      AfterOpening insnKind (w.filter DecodedInsn.symbolized) := by
  induction w using List.reverseRecOn with
  | nil => simp [profileRun, profileInit, PtInsnClass.isCall, not_afterOpening_nil]
  | append_singleton w x ih =>
      rw [profileRun_concat, List.filter_append, profileRecord]
      cases hs : x.sym with
      | none => simpa [DecodedInsn.symbolized, hs] using ih
      | some s => simp [DecodedInsn.symbolized, hs, afterOpening_concat, insnKind_opening]

/-- The two previous classes tell the same at every entry of a symbol. -/
def SameCalls (w : List DecodedInsn) : Prop :=
  ∀ pre x, pre ++ [x] <+: w → x.atEntry = true →
    (AfterOpening insnKind pre ↔ AfterOpening insnKind (pre.filter DecodedInsn.symbolized))

/-- No symbol of the stream shares its name and binary strings with the given ones but through the same
pointers. -/
def UniqueText (w : List DecodedInsn) (name binary : StrPtr) : Prop :=
  ∀ x ∈ w, ∀ s, x.sym = some s → s.name.text = name.text → s.binary.text = binary.text →
    s.name = name ∧ s.binary = binary

theorem UniqueText.of_prefix {w w' : List DecodedInsn} {name binary : StrPtr} (h : UniqueText w name binary)
    (hw : w' <+: w) : UniqueText w' name binary :=
  fun x hx => h x (hw.subset hx)

/-- Where the strings tell the functions apart, so do the pointers. -/
theorem calltreeRun_sumCount_sameText {w : List DecodedInsn} {name binary : StrPtr}
    (h : UniqueText w name binary) :
    (calltreeRun w).root.sumCount (sameText name.text binary.text) =
      (calltreeRun w).root.sumCount (samePtr name binary) := by
  induction w using List.reverseRecOn with
  | nil => simp [calltreeRun, calltreeInit, ctNodeInit, CtNode.sumCount, RoseTree.sumBy, RoseTree.sumByList,
      ctCalls]
  | append_singleton w x ih =>
      rw [calltreeRun_concat, calltreeRecord_sumCount (calltreeRun_valid w),
        calltreeRecord_sumCount (calltreeRun_valid w), ih (h.of_prefix (List.prefix_append _ _))]
      have hkey : x.entersKey (sameText name.text binary.text) = x.entersKey (samePtr name binary) := by
        unfold DecodedInsn.entersKey
        cases hs : x.sym with
        | none => rfl
        | some s =>
            have hx := h x (by simp) s hs
            have hsame : sameText name.text binary.text s.name s.binary =
                samePtr name binary s.name s.binary := by
              rw [Bool.eq_iff_iff]
              simp only [sameText, samePtr, Bool.and_eq_true, decide_eq_true_eq]
              constructor
              · rintro ⟨hn, hb⟩; exact hx hn hb
              · rintro ⟨rfl, rfl⟩; exact ⟨rfl, rfl⟩
            simp only [hsame]
      rw [hkey]

/-- For every function, the calls in the profile are those of all its nodes in the call tree. -/
def CallsAgree (dwarf : DwarfLookup) (sections : Option (List PtImageInfo)) (w : List DecodedInsn) : Prop :=
  ∀ name binary, (profileRun dwarf sections w).calls name binary =
      (calltreeRun w).root.sumCount (samePtr name binary) ∧
    (UniqueText w name binary → (profileRun dwarf sections w).calls name binary =
      totalCallsOf (callersView (calltreeRun w)) name.text binary.text)

theorem callsAgree_iff_sumCount {w : List DecodedInsn} : CallsAgree dwarf sections w ↔
    ∀ name binary, (profileRun dwarf sections w).calls name binary =
      (calltreeRun w).root.sumCount (samePtr name binary) := by
  constructor
  · intro h name binary
    exact (h name binary).1
  · intro h name binary
    refine ⟨h name binary, fun hu => ?_⟩
    rw [h, totalCallsOf_callersView, calltreeRun_sumCount_sameText hu]

theorem callsAgree_nil : CallsAgree dwarf sections [] := by
  rw [callsAgree_iff_sumCount]
  intro name binary
  simp [profileRun, profileInit, Profile.calls, lookupKey, calltreeRun, calltreeInit, ctNodeInit,
    CtNode.sumCount, RoseTree.sumBy, RoseTree.sumByList, ctCalls]

/-- One instruction keeps the counts together exactly when the two previous classes tell the same, or
it is no entry. -/
theorem callsAgree_concat {w : List DecodedInsn} {x : DecodedInsn} (h : CallsAgree dwarf sections w) :
    CallsAgree dwarf sections (w ++ [x]) ↔ (x.atEntry = true →
      (AfterOpening insnKind w ↔ AfterOpening insnKind (w.filter DecodedInsn.symbolized))) := by
  rw [callsAgree_iff_sumCount] at h ⊢
  have hprofile : (profileRun dwarf sections w).prevClass.isCall = true ↔ _ := profileRun_prevClass w
  rw [← calltreeRun_prevClass, ← hprofile]
  have hstep : ∀ name binary, (profileRun dwarf sections (w ++ [x])).calls name binary =
      (calltreeRun (w ++ [x])).root.sumCount (samePtr name binary) ↔
      ((profileRun dwarf sections w).prevClass.isCall && x.entersKey (samePtr name binary)) =
        ((calltreeRun w).prevClass.isCall && x.entersKey (samePtr name binary)) := by
    intro name binary
    rw [profileRun_concat, profileRecord_calls, calltreeRun_concat,
      calltreeRecord_sumCount (calltreeRun_valid w), h, Nat.add_left_cancel_iff]
    exact toNat_eq_toNat
  constructor
  · intro hc hx
    obtain ⟨s, hs, hip⟩ := atEntry_iff.mp hx
    have hself := (hstep s.name s.binary).mp (hc s.name s.binary)
    rw [entersKey_of_atEntry hs hip] at hself
    have hboth : (profileRun dwarf sections w).prevClass.isCall = (calltreeRun w).prevClass.isCall := by
      simpa [samePtr] using hself
    rw [hboth]
  · intro hc name binary
    rw [hstep]
    cases hx : x.atEntry with
    | false => simp [entersKey_of_not_atEntry hx]
    | true => rw [Bool.eq_iff_iff.mpr (hc hx)]

end Run

end ObservableBSD.Decode
