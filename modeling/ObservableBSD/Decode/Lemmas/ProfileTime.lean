import ObservableBSD.Base.Word
import ObservableBSD.Decode.Lemmas.CallClock
import ObservableBSD.Decode.Lemmas.Calls

/-!
# The time in the profile

`profile_record` keeps one entry time for each function, next to the time it has added up. Both are followed here
beside the clock, which keeps the entry of every open call.
-/

namespace ObservableBSD.Decode

open Base CallClock

/-! ## The two fields -/

/-- `entry_tsc` and `cumulative_tsc`. -/
structure Ticks where
  slot : UInt64 := 0
  total : UInt64 := 0

def ProfileEntry.ticks (e : ProfileEntry) : Ticks := ⟨e.entryTsc, e.cumulativeTsc⟩

def Profile.ticks (p : Profile) (k : FuncKey) : Ticks :=
  ((lookupKey ProfileEntry.key k p.entries).map ProfileEntry.ticks).getD {}

theorem Profile.ticks_total (p : Profile) (k : FuncKey) : (p.ticks k).total = p.cumulativeTsc k := by
  unfold Profile.ticks Profile.cumulativeTsc
  cases lookupKey ProfileEntry.key k p.entries <;> rfl

/-- The entry behind a CALL in a symbol. -/
def Ticks.enter (calling : Bool) (x : DecodedInsn) (t : Ticks) : Ticks :=
  if calling = true ∧ x.atEntry = true then ⟨x.tsc, t.total⟩ else t

def Ticks.leave (x : DecodedInsn) (t : Ticks) : Ticks :=
  if x.iclass.isReturn = true ∧ 0 < t.slot ∧ t.slot < x.tsc then ⟨0, t.total + (x.tsc - t.slot)⟩ else t

/-- `f` at the function of the instruction. -/
def atOwn (x : DecodedInsn) (f : Ticks → Ticks) (ticks : FuncKey → Ticks) : FuncKey → Ticks :=
  match x.sym with
  | none => ticks
  | some s => Function.update ticks s.funcKey (f (ticks s.funcKey))

theorem atOwn_some {x : DecodedInsn} {s : SymEntry} (hs : x.sym = some s) (f : Ticks → Ticks)
    (ticks : FuncKey → Ticks) : atOwn x f ticks = Function.update ticks s.funcKey (f (ticks s.funcKey)) := by
  unfold atOwn
  rw [hs]

theorem atOwn_atOwn (x : DecodedInsn) (f g : Ticks → Ticks) (ticks : FuncKey → Ticks) :
    atOwn x g (atOwn x f ticks) = atOwn x (fun t => g (f t)) ticks := by
  unfold atOwn
  cases x.sym with
  | none => rfl
  | some s => simp

theorem profileEnter_ticks (c : PtInsnClass) {x : DecodedInsn} {s : SymEntry} (hs : x.sym = some s)
    (hpos : 0 < x.tsc) (e : ProfileEntry) : (profileEnter c s x.ip x.tsc e).ticks = e.ticks.enter c.isCall x := by
  have hentry : x.atEntry = true ↔ x.ip = s.addr := by simp [DecodedInsn.atEntry, hs]
  unfold profileEnter Ticks.enter
  by_cases h : x.ip = s.addr ∧ c.isCall = true
  · rw [if_pos h, if_pos hpos, if_pos ⟨h.2, hentry.2 h.1⟩]
    rfl
  · rw [if_neg h, if_neg fun h' => h ⟨hentry.1 h'.2, h'.1⟩]

theorem profileLeave_ticks {x : DecodedInsn} (hpos : 0 < x.tsc) (e : ProfileEntry) :
    (profileLeave x.iclass x.tsc e).ticks = e.ticks.leave x := by
  have hreturn : (if 0 < x.tsc ∧ 0 < e.entryTsc ∧ e.entryTsc < x.tsc then
      { e with returns := e.returns + 1, cumulativeTsc := e.cumulativeTsc + (x.tsc - e.entryTsc), entryTsc := 0 }
      else { e with returns := e.returns + 1 } : ProfileEntry).ticks =
      if 0 < e.ticks.slot ∧ e.ticks.slot < x.tsc then ⟨0, e.ticks.total + (x.tsc - e.ticks.slot)⟩ else e.ticks := by
    by_cases h : 0 < e.entryTsc ∧ e.entryTsc < x.tsc
    · rw [if_pos ⟨hpos, h⟩, if_pos (show 0 < e.ticks.slot ∧ e.ticks.slot < x.tsc from h)]
      rfl
    · rw [if_neg fun h' => h h'.2, if_neg (show ¬ (0 < e.ticks.slot ∧ e.ticks.slot < x.tsc) from h)]
      rfl
  unfold profileLeave Ticks.leave
  cases x.iclass with
  | ret => simpa [PtInsnClass.isReturn] using hreturn
  | farReturn => simpa [PtInsnClass.isReturn] using hreturn
  | _ => rfl

section

variable {dwarf : DwarfLookup} {sections : Option (List Trace.PtImageInfo)}

theorem profileNewEntry_ticks (s : SymEntry) : (profileNewEntry dwarf sections s).ticks = {} := by
  unfold profileNewEntry
  split <;> rfl

/-- One instruction enters and leaves at its own function. -/
theorem profileRecord_ticks (dwarf : DwarfLookup) (sections : Option (List Trace.PtImageInfo)) (p : Profile)
    {x : DecodedInsn} (hpos : 0 < x.tsc) :
    (profileRecord dwarf sections p x).ticks =
      atOwn x (Ticks.leave x) (atOwn x (Ticks.enter p.prevClass.isCall x) p.ticks) := by
  rw [atOwn_atOwn]
  unfold profileRecord
  cases hs : x.sym with
  | none => rw [atOwn, hs]
  | some s =>
      have hkey : ∀ e, (profileLeave x.iclass x.tsc (profileEnter p.prevClass s x.ip x.tsc e)).key = e.key :=
        fun e => (profileLeave_key ..).trans (profileEnter_key ..)
      rw [atOwn_some hs]
      funext k
      unfold Profile.ticks
      rw [lookupKey_upsert (profileNewEntry_key dwarf sections s) hkey, Function.update_apply]
      by_cases hk : k = s.funcKey
      · have hold : ((lookupKey ProfileEntry.key s.funcKey p.entries).map ProfileEntry.ticks).getD {} =
            ((lookupKey ProfileEntry.key s.funcKey p.entries).getD (profileNewEntry dwarf sections s)).ticks := by
          cases lookupKey ProfileEntry.key s.funcKey p.entries with
          | none => exact (profileNewEntry_ticks s).symm
          | some e => rfl
        rw [if_pos (show k = (s.name, s.binary) from hk), if_pos hk, Option.map_some, Option.getD_some,
          profileLeave_ticks hpos, profileEnter_ticks _ hs hpos, hold]
        rfl
      · rw [if_neg (show ¬ k = (s.name, s.binary) from hk), if_neg hk]

end

/-! ## Beside the clock -/

/-- The entry time that is kept for a function is that of an open call exactly when the CALL lies in a symbol and the
function was not called again. `now` is the TSC of the last instruction. -/
structure Follows (now : UInt64) (ticks : FuncKey → Ticks) (c : CallClock) : Prop where
  waits : ∀ k, c.waiting k = true ↔ (ticks k).slot ≠ 0
  past : ∀ k, (ticks k).slot ≤ now
  positive : ∀ a ∈ c.calls, 0 < a.entry ∧ a.entry ≤ now
  kept : ∀ a ∈ c.calls, (ticks a.fn).slot = a.entry ↔ a.fromSym = true ∧ a.again = false
  ordered : c.calls.Pairwise fun a b => b.entry < a.entry
  spent : ∀ k, (ticks k).total.toNat = c.spent k
  room : ∀ k, (ticks k).total ≤ if (ticks k).slot = 0 then now else (ticks k).slot

theorem Follows.nil : Follows 0 (fun _ => {}) {} where
  waits _ := by simp
  past _ := UInt64.le_refl 0
  positive _ h := by cases h
  kept _ h := by cases h
  ordered := .nil
  spent _ := rfl
  room _ := UInt64.le_refl 0

theorem Follows.later {now now' : UInt64} {ticks : FuncKey → Ticks} {c : CallClock} (h : Follows now ticks c)
    (hle : now ≤ now') : Follows now' ticks c where
  waits := h.waits
  past k := UInt64.le_trans (h.past k) hle
  positive a ha := ⟨(h.positive a ha).1, UInt64.le_trans (h.positive a ha).2 hle⟩
  kept := h.kept
  ordered := h.ordered
  spent := h.spent
  room k := by
    have hroom := h.room k
    split
    · rename_i hslot
      rw [if_pos hslot] at hroom
      exact UInt64.le_trans hroom hle
    · rename_i hslot
      rwa [if_neg hslot] at hroom

theorem Follows.calling {now : UInt64} {ticks : FuncKey → Ticks} {c : CallClock} (h : Follows now ticks c)
    (calling : Option Bool) : Follows now ticks { c with calling } :=
  ⟨h.waits, h.past, h.positive, h.kept, h.ordered, h.spent, h.room⟩

/-- A function that a CALL outside all symbols called. -/
theorem Follows.enterUnknown {now : UInt64} {ticks : FuncKey → Ticks} {c : CallClock} (h : Follows now ticks c)
    {x : DecodedInsn} {s : SymEntry} (hnow : now < x.tsc) (hs : x.sym = some s) (hc : c.calling = some false) :
    Follows x.tsc ticks (c.enter x) := by
  have henter : c.enter x = { c with calls := ⟨s.funcKey, x.tsc, false, false⟩ :: c.calls, calling := none } := by
    rw [enter, hc, hs]
  have hlater := h.later (UInt64.le_of_lt hnow)
  rw [henter]
  refine ⟨hlater.waits, hlater.past, ?_, ?_, ?_, hlater.spent, hlater.room⟩
  · exact List.forall_mem_cons.2 ⟨⟨UInt64.lt_of_le_of_lt (UInt64.zero_le) hnow, UInt64.le_refl _⟩, hlater.positive⟩
  · refine List.forall_mem_cons.2 ⟨?_, h.kept⟩
    have hne : (ticks s.funcKey).slot ≠ x.tsc := fun heq =>
      UInt64.lt_irrefl _ (UInt64.lt_of_le_of_lt (heq ▸ h.past _) hnow)
    simp [hne]
  · exact List.pairwise_cons.2 ⟨fun b hb => UInt64.lt_of_le_of_lt (h.positive b hb).2 hnow, h.ordered⟩

theorem OpenCall.calledAgain_fn (k : FuncKey) (a : OpenCall) : (a.calledAgain k).fn = a.fn :=
  congrArg Prod.fst (a.calledAgain_span k)

theorem OpenCall.calledAgain_entry (k : FuncKey) (a : OpenCall) : (a.calledAgain k).entry = a.entry :=
  congrArg Prod.snd (a.calledAgain_span k)

/-- A function that a CALL in a symbol called. -/
theorem Follows.enterKnown {now : UInt64} {ticks : FuncKey → Ticks} {c : CallClock} (h : Follows now ticks c)
    {x : DecodedInsn} {s : SymEntry} (hnow : now < x.tsc) (hs : x.sym = some s) (hentry : x.atEntry = true)
    (hc : c.calling = some true) : Follows x.tsc (atOwn x (Ticks.enter true x) ticks) (c.enter x) := by
  have henter : c.enter x = { c with
      calls := ⟨s.funcKey, x.tsc, true, false⟩ :: c.calls.map (OpenCall.calledAgain s.funcKey)
      calling := none
      waiting := Function.update c.waiting s.funcKey true } := by
    rw [enter, hc, hs]
  have hpos : 0 < x.tsc := UInt64.lt_of_le_of_lt UInt64.zero_le hnow
  have hne : x.tsc ≠ 0 := (UInt64.ne_of_lt hpos).symm
  have hlater := h.later (UInt64.le_of_lt hnow)
  have hticks : ∀ k, atOwn x (Ticks.enter true x) ticks k =
      if k = s.funcKey then ⟨x.tsc, (ticks k).total⟩ else ticks k := by
    intro k
    have hown : Ticks.enter true x (ticks s.funcKey) = ⟨x.tsc, (ticks s.funcKey).total⟩ := if_pos ⟨rfl, hentry⟩
    rw [atOwn_some hs, Function.update_apply, hown]
    by_cases hk : k = s.funcKey
    · rw [if_pos hk, if_pos hk, hk]
    · rw [if_neg hk, if_neg hk]
  rw [henter]
  refine ⟨fun k => ?_, fun k => ?_, ?_, ?_, ?_, fun k => ?_, fun k => ?_⟩
  · rw [hticks]
    by_cases hk : k = s.funcKey
    · simp [hk, hne]
    · simp only [Function.update_apply, if_neg hk]
      exact h.waits k
  · rw [hticks]
    split
    · exact UInt64.le_refl _
    · exact hlater.past k
  · refine List.forall_mem_cons.2 ⟨⟨hpos, UInt64.le_refl _⟩, List.forall_mem_map.2 fun a ha => ?_⟩
    rw [OpenCall.calledAgain_entry]
    exact hlater.positive a ha
  · refine List.forall_mem_cons.2 ⟨?_, List.forall_mem_map.2 fun a ha => ?_⟩
    · simp [hticks]
    · rw [hticks, OpenCall.calledAgain_fn, OpenCall.calledAgain_entry]
      have hlt : x.tsc ≠ a.entry := (UInt64.ne_of_lt (UInt64.lt_of_le_of_lt (h.positive a ha).2 hnow)).symm
      unfold OpenCall.calledAgain
      by_cases hk : a.fn = s.funcKey
      · simp [hk, hlt]
      · rw [if_neg hk, if_neg hk]
        exact h.kept a ha
  · refine List.pairwise_cons.2 ⟨List.forall_mem_map.2 fun b hb => ?_, List.pairwise_map.2 ?_⟩
    · rw [OpenCall.calledAgain_entry]
      exact UInt64.lt_of_le_of_lt (h.positive b hb).2 hnow
    · simp only [OpenCall.calledAgain_entry]
      exact h.ordered
  · rw [hticks, ← h.spent k]
    split <;> rfl
  · rw [hticks]
    by_cases hk : k = s.funcKey
    · rw [if_pos hk, if_neg hne]
      have hroom := h.room k
      split at hroom
      · exact UInt64.le_trans hroom (UInt64.le_of_lt hnow)
      · exact UInt64.le_trans hroom (hlater.past k)
    · rw [if_neg hk]
      exact hlater.room k

/-! ## RETURNs -/

theorem Ticks.leave_slot {x : DecodedInsn} (hx : x.iclass.isReturn = true) {t : Ticks} (hslot : t.slot ≤ x.tsc) :
    (t.leave x).slot = if t.slot = x.tsc then x.tsc else 0 := by
  unfold Ticks.leave
  by_cases h : 0 < t.slot ∧ t.slot < x.tsc
  · rw [if_pos ⟨hx, h⟩, if_neg (UInt64.ne_of_lt h.2)]
  · rw [if_neg fun h' => h h'.2]
    split
    · assumption
    · rename_i hne
      have hlt : t.slot < x.tsc := UInt64.lt_of_le_of_ne hslot hne
      have hzero : ¬ 0 < t.slot := fun hpos => h ⟨hpos, hlt⟩
      exact UInt64.le_zero_iff.1 (UInt64.not_lt.1 hzero)

/-- What the RETURN adds does not overflow: nothing was added after the entry time. -/
theorem Ticks.leave_total {x : DecodedInsn} (hx : x.iclass.isReturn = true) {t : Ticks} (hslot : t.slot ≤ x.tsc)
    (hroom : t.total ≤ if t.slot = 0 then x.tsc else t.slot) : (t.leave x).total.toNat =
      t.total.toNat + if t.slot = 0 then 0 else x.tsc.toNat - t.slot.toNat := by
  unfold Ticks.leave
  by_cases hzero : t.slot = 0
  · have hnot : ¬ (x.iclass.isReturn = true ∧ 0 < t.slot ∧ t.slot < x.tsc) := by
      rw [hzero]
      exact fun h => UInt64.lt_irrefl _ h.2.1
    rw [if_neg hnot, if_pos hzero, Nat.add_zero]
  · rw [if_neg hzero] at hroom ⊢
    by_cases hlt : t.slot < x.tsc
    · have hpos : 0 < t.slot := UInt64.pos_iff_ne_zero.2 hzero
      have hsub : (x.tsc - t.slot).toNat = x.tsc.toNat - t.slot.toNat := UInt64.toNat_sub_of_le _ _ hslot
      have hbound := UInt64.toNat_lt_size x.tsc
      rw [UInt64.le_iff_toNat_le] at hroom hslot
      rw [if_pos ⟨hx, hpos, hlt⟩, toNat_add_of_lt (by rw [hsub]; omega), hsub]
    · have heq : t.slot = x.tsc := UInt64.le_antisymm hslot (UInt64.not_lt.1 hlt)
      rw [if_neg fun h => hlt h.2.2, heq, Nat.sub_self, Nat.add_zero]

theorem Ticks.leave_le {x : DecodedInsn} (hx : x.iclass.isReturn = true) {t : Ticks} (hslot : t.slot ≤ x.tsc)
    (hroom : t.total ≤ if t.slot = 0 then x.tsc else t.slot) : (t.leave x).total ≤ x.tsc := by
  have htotal := Ticks.leave_total hx hslot hroom
  rw [UInt64.le_iff_toNat_le] at hslot ⊢
  split at htotal
  · rename_i hzero
    rw [if_pos hzero, UInt64.le_iff_toNat_le] at hroom
    omega
  · rename_i hzero
    rw [if_neg hzero, UInt64.le_iff_toNat_le] at hroom
    omega

theorem leave_of_calls {c : CallClock} {a : OpenCall} {calls : List OpenCall} (hcalls : c.calls = a :: calls)
    (x : DecodedInsn) : c.leave x = { c with
      calls
      waiting := match x.sym with
        | none => c.waiting
        | some s => Function.update c.waiting s.funcKey (c.waiting s.funcKey && a.entry = x.tsc)
      spent := Function.update c.spent a.fn (c.spent a.fn + (x.tsc.toNat - a.entry.toNat)) } := by
  obtain ⟨called⟩ := c
  obtain rfl : called = a :: calls := hcalls
  rfl

section Return

variable {ticks : FuncKey → Ticks} {c : CallClock} {a : OpenCall} {calls : List OpenCall} {x : DecodedInsn}

/-- What is added for the function of the call is its time exactly when the RETURN ends the call. -/
theorem Follows.added_iff (h : Follows x.tsc ticks c) (hcalls : c.calls = a :: calls) :
    (if (ticks a.fn).slot = 0 then 0 else x.tsc.toNat - (ticks a.fn).slot.toNat) = x.tsc.toNat - a.entry.toNat ↔
      (a.fromSym = true ∧ a.again = false) ∨ (a.entry = x.tsc ∧ c.waiting a.fn = false) := by
  have ha : a ∈ c.calls := by rw [hcalls]; exact List.mem_cons_self
  have hkept := h.kept a ha
  have hwaits : c.waiting a.fn = false ↔ (ticks a.fn).slot = 0 := by
    rw [← Bool.not_eq_true, h.waits, not_not]
  obtain ⟨hpos, hle⟩ := h.positive a ha
  have hpast := h.past a.fn
  have heq : a.entry = x.tsc ↔ a.entry.toNat = x.tsc.toNat := UInt64.toNat_inj.symm
  have hslot : (ticks a.fn).slot = a.entry ↔ (ticks a.fn).slot.toNat = a.entry.toNat := UInt64.toNat_inj.symm
  rw [UInt64.le_iff_toNat_le] at hle hpast
  rw [← hkept, hwaits, heq, hslot]
  have hne : 0 < a.entry.toNat := UInt64.lt_iff_toNat_lt.1 hpos
  by_cases hzero : (ticks a.fn).slot = 0
  · have hz : (ticks a.fn).slot.toNat = 0 := by rw [hzero]; rfl
    rw [if_pos hzero, hz]
    simp only [hzero, and_true]
    omega
  · rw [if_neg hzero]
    simp only [hzero, and_false, or_false]
    omega

/-- The RETURN keeps the times exactly when it ends the call. -/
theorem Follows.spent_leave_iff (h : Follows x.tsc ticks c) (hcalls : c.calls = a :: calls)
    (hx : x.iclass.isReturn = true) (hentered : a.entry = x.tsc → ∃ s, x.sym = some s ∧ a.fn = s.funcKey) :
    (∀ k, (atOwn x (Ticks.leave x) ticks k).total.toNat = (c.leave x).spent k) ↔ c.Ends a x := by
  have ha : a ∈ c.calls := by rw [hcalls]; exact List.mem_cons_self
  have hspent : (c.leave x).spent = Function.update c.spent a.fn (c.spent a.fn + (x.tsc.toNat - a.entry.toNat)) := by
    rw [leave_of_calls hcalls]
  have hown : ∀ k, ((ticks k).leave x).total.toNat = c.spent k +
      if (ticks k).slot = 0 then 0 else x.tsc.toNat - (ticks k).slot.toNat := fun k => by
    rw [← h.spent k]
    exact Ticks.leave_total hx (h.past k) (h.room k)
  rw [hspent]
  by_cases hfn : ∃ s, x.sym = some s ∧ a.fn = s.funcKey
  · obtain ⟨s, hs, hk⟩ := hfn
    rw [atOwn_some hs]
    constructor
    · intro hall
      have hadded := hall a.fn
      rw [hk, Function.update_self, Function.update_self, hown, ← hk, Nat.add_left_cancel_iff] at hadded
      exact ⟨s, hs, hk, (h.added_iff hcalls).1 hadded⟩
    · rintro ⟨s', _, _, hends⟩ k
      by_cases hks : k = s.funcKey
      · subst hks
        rw [← hk, Function.update_self, Function.update_self, hown, Nat.add_left_cancel_iff]
        exact (h.added_iff hcalls).2 hends
      · rw [Function.update_of_ne hks, Function.update_of_ne (hk ▸ hks), h.spent]
  · -- nothing is added for the function of the call, which took some time
    constructor
    · intro hall
      have hsame : atOwn x (Ticks.leave x) ticks a.fn = ticks a.fn := by
        unfold atOwn
        cases hs : x.sym with
        | none => rfl
        | some s => exact Function.update_of_ne (fun hk => hfn ⟨s, hs, hk⟩) _ _
      have hadded := hall a.fn
      rw [hsame, Function.update_self, h.spent] at hadded
      have hle : a.entry.toNat ≤ x.tsc.toNat := UInt64.le_iff_toNat_le.1 (h.positive a ha).2
      exact absurd (hentered (UInt64.toNat_inj.1 (by omega))) hfn
    · rintro ⟨s, hs, hk, _⟩
      exact absurd ⟨s, hs, hk⟩ hfn

/-- A RETURN that ends the innermost call. -/
theorem Follows.leave (h : Follows x.tsc ticks c) (hcalls : c.calls = a :: calls) (hx : x.iclass.isReturn = true)
    (hends : c.Ends a x) : Follows x.tsc (atOwn x (Ticks.leave x) ticks) (c.leave x) := by
  obtain ⟨s, hs, hk, hcase⟩ := hends
  have ha : a ∈ c.calls := by rw [hcalls]; exact List.mem_cons_self
  have hmem : ∀ b ∈ calls, b ∈ c.calls := fun b hb => by rw [hcalls]; exact List.mem_cons_of_mem a hb
  have hordered := h.ordered
  rw [hcalls, List.pairwise_cons] at hordered
  have hspent := (h.spent_leave_iff hcalls hx fun _ => ⟨s, hs, hk⟩).2 ⟨s, hs, hk, hcase⟩
  have hslot : ∀ k, (atOwn x (Ticks.leave x) ticks k).slot =
      if k = a.fn then if (ticks a.fn).slot = x.tsc then x.tsc else 0 else (ticks k).slot := by
    intro k
    rw [atOwn_some hs, Function.update_apply, ← hk]
    split
    · exact Ticks.leave_slot hx (h.past a.fn)
    · rfl
  have hpos : 0 < x.tsc := UInt64.lt_of_lt_of_le (h.positive a ha).1 (h.positive a ha).2
  have hne : x.tsc ≠ 0 := (UInt64.ne_of_lt hpos).symm
  have hleft : (c.waiting a.fn && a.entry = x.tsc) = true ↔ (ticks a.fn).slot = x.tsc := by
    rw [Bool.and_eq_true, decide_eq_true_eq]
    rcases hcase with hsym | ⟨_, hwaiting⟩
    · have hentry := (h.kept a ha).2 hsym
      have hwaiting : c.waiting a.fn = true := by
        rw [h.waits, hentry]
        exact (UInt64.ne_of_lt (h.positive a ha).1).symm
      rw [hentry]
      exact and_iff_right hwaiting
    · have hzero : (ticks a.fn).slot = 0 := by
        by_contra hslot
        rw [(h.waits a.fn).2 hslot] at hwaiting
        cases hwaiting
      rw [hwaiting, hzero]
      simp [hne.symm]
  -- the entry times of the other open calls of the function are earlier
  have hother : ∀ b ∈ calls, b.fn = a.fn → (ticks b.fn).slot ≠ b.entry := by
    intro b hb hfn heq
    have hlt := hordered.1 b hb
    rw [hfn] at heq
    rcases hcase with hsym | ⟨_, hwaiting⟩
    · rw [← heq, (h.kept a ha).2 hsym] at hlt
      exact UInt64.lt_irrefl _ hlt
    · have hslot : (ticks a.fn).slot ≠ 0 := by
        rw [heq]
        exact (UInt64.ne_of_lt (h.positive b (hmem b hb)).1).symm
      rw [(h.waits a.fn).2 hslot] at hwaiting
      cases hwaiting
  rw [leave_of_calls hcalls, hs] at hspent ⊢
  refine ⟨fun k => ?_, fun k => ?_, fun b hb => h.positive b (hmem b hb), fun b hb => ?_, hordered.2, hspent,
    fun k => ?_⟩
  · rw [hslot]
    by_cases hk' : k = a.fn
    · subst hk'
      simp only [← hk, Function.update_self, if_true, hleft]
      by_cases hnow : (ticks a.fn).slot = x.tsc <;> simp [hnow, hne]
    · rw [if_neg hk']
      simp only [← hk, Function.update_of_ne hk']
      exact h.waits k
  · rw [hslot]
    split
    · split
      · exact UInt64.le_refl _
      · exact UInt64.zero_le
    · exact h.past k
  · rw [hslot]
    by_cases hfn : b.fn = a.fn
    · have hb' : 0 < b.entry := (h.positive b (hmem b hb)).1
      have hne' : x.tsc ≠ b.entry := fun heq => by
        have hlt := hordered.1 b hb
        rw [← heq] at hlt
        exact UInt64.lt_irrefl _ (UInt64.lt_of_lt_of_le hlt (h.positive a ha).2)
      have hnot : ¬ (if (ticks a.fn).slot = x.tsc then x.tsc else 0) = b.entry := by
        split
        · exact hne'
        · exact UInt64.ne_of_lt hb'
      rw [if_pos hfn, ← h.kept b (hmem b hb)]
      exact iff_of_false hnot (hother b hb hfn)
    · rw [if_neg hfn]
      exact h.kept b (hmem b hb)
  · rw [hslot]
    by_cases hk' : k = a.fn
    · have hbound : (if (ticks a.fn).slot = x.tsc then x.tsc else 0 : UInt64) = x.tsc ∨
          (if (ticks a.fn).slot = x.tsc then x.tsc else 0 : UInt64) = 0 := by
        split
        · exact .inl rfl
        · exact .inr rfl
      have htotal : (atOwn x (Ticks.leave x) ticks a.fn).total ≤ x.tsc := by
        rw [atOwn_some hs, hk, Function.update_self]
        exact Ticks.leave_le hx (h.past _) (h.room _)
      rw [if_pos hk', hk']
      rcases hbound with hb | hb
      · rwa [hb, if_neg hne]
      · rwa [hb, if_pos rfl]
    · have hsame : atOwn x (Ticks.leave x) ticks k = ticks k := by
        rw [atOwn_some hs, ← hk]
        exact Function.update_of_ne hk' _ _
      rw [if_neg hk', hsame]
      exact h.room k

end Return

/-! ## Runs -/

theorem atOwn_id {x : DecodedInsn} {f : Ticks → Ticks} (hf : ∀ t, f t = t) (ticks : FuncKey → Ticks) :
    atOwn x f ticks = ticks := by
  unfold atOwn
  split
  · rfl
  · rw [hf]
    exact Function.update_eq_self _ _

theorem atOwn_enter_false (x : DecodedInsn) (ticks : FuncKey → Ticks) :
    atOwn x (Ticks.enter false x) ticks = ticks :=
  atOwn_id (fun t => by simp [Ticks.enter]) ticks

theorem atOwn_leave_of_not_return {x : DecodedInsn} (hx : ¬ x.iclass.isReturn = true) (ticks : FuncKey → Ticks) :
    atOwn x (Ticks.leave x) ticks = ticks :=
  atOwn_id (fun _ => if_neg fun h => hx h.1) ticks

structure Tracks (now : UInt64) (p : Profile) (c : CallClock) : Prop where
  follows : Follows now p.ticks c
  calling : p.prevClass.isCall = true ↔ c.calling = some true

theorem Tracks.enter {now : UInt64} {p : Profile} {c : CallClock} (h : Tracks now p c) {x : DecodedInsn}
    (hnow : now < x.tsc) (hlegal : c.Legal x) :
    Follows x.tsc (atOwn x (Ticks.enter p.prevClass.isCall x) p.ticks) (c.enter x) ∧
      ∀ a ∈ (c.enter x).calls, a.entry = x.tsc → ∃ s, x.sym = some s ∧ a.fn = s.funcKey := by
  have hearlier : ∀ a ∈ c.calls, a.entry ≠ x.tsc := fun a ha =>
    UInt64.ne_of_lt (UInt64.lt_of_le_of_lt (h.follows.positive a ha).2 hnow)
  cases hc : c.calling with
  | none =>
      have hprev : p.prevClass.isCall = false := by
        rw [← Bool.not_eq_true, h.calling, hc]
        exact fun h => (by cases h)
      rw [enter_of_not_calling hc, hprev, atOwn_enter_false]
      exact ⟨h.follows.later (UInt64.le_of_lt hnow), fun a ha heq => absurd heq (hearlier a ha)⟩
  | some fromSym =>
      have hentry : x.atEntry = true := hlegal.1 (by rw [hc]; exact fun h => (by cases h))
      obtain ⟨s, hs, _⟩ := atEntry_iff.1 hentry
      have hspans := enter_spans (c := c) (by rw [hc]; exact fun h => (by cases h)) hs
      refine ⟨?_, fun a ha heq => ?_⟩
      · cases fromSym with
        | true =>
            rw [h.calling.2 hc]
            exact h.follows.enterKnown hnow hs hentry hc
        | false =>
            have hprev : p.prevClass.isCall = false := by
              rw [← Bool.not_eq_true, h.calling, hc]
              exact fun h => (by cases h)
            rw [hprev, atOwn_enter_false]
            exact h.follows.enterUnknown hnow hs hc
      · have hmem : a.span ∈ (s.funcKey, x.tsc) :: c.spans := hspans ▸ List.mem_map_of_mem ha
        rcases List.mem_cons.1 hmem with hnew | hold
        · exact ⟨s, hs, congrArg Prod.fst hnew⟩
        · obtain ⟨b, hb, hspan⟩ := List.mem_map.1 hold
          have hentry' : b.entry = a.entry := congrArg Prod.snd hspan
          exact absurd (hentry'.trans heq) (hearlier b hb)

section

variable (dwarf : DwarfLookup) (sections : Option (List Trace.PtImageInfo))

theorem profileRecord_prevClass (p : Profile) (x : DecodedInsn) :
    (profileRecord dwarf sections p x).prevClass = if x.sym.isSome then x.iclass else p.prevClass := by
  unfold profileRecord
  cases x.sym <;> rfl

theorem Tracks.calling_step {now : UInt64} {p : Profile} {c : CallClock} (h : Tracks now p c) {x : DecodedInsn}
    (hlegal : c.Legal x) :
    (profileRecord dwarf sections p x).prevClass.isCall = true ↔ (c.step x).calling = some true := by
  rw [profileRecord_prevClass, step_calling]
  cases hs : x.sym with
  | none =>
      have hnot : ¬ p.prevClass.isCall = true := fun hprev => by
        have hentry := hlegal.1 (by rw [h.calling.1 hprev]; exact fun h => (by cases h))
        obtain ⟨s, hs', _⟩ := atEntry_iff.1 hentry
        rw [hs] at hs'
        cases hs'
      cases x.iclass.isCall <;> simpa using hnot
  | some s => cases hc : x.iclass.isCall <;> simp [hc]

/-- The times agree behind one instruction exactly when it ends its call, if it is a RETURN, and then the profile
still follows the clock. -/
theorem Tracks.step {now : UInt64} {p : Profile} {c : CallClock} (h : Tracks now p c) {x : DecodedInsn}
    (hnow : now < x.tsc) (hlegal : c.Legal x) :
    ((∀ k, ((profileRecord dwarf sections p x).cumulativeTsc k).toNat = (c.step x).spent k) ↔
      (x.iclass.isReturn = true → c.EndsCall x)) ∧
    ((x.iclass.isReturn = true → c.EndsCall x) → Tracks x.tsc (profileRecord dwarf sections p x) (c.step x)) := by
  have hpos : 0 < x.tsc := UInt64.lt_of_le_of_lt UInt64.zero_le hnow
  obtain ⟨hentered, hnew⟩ := h.enter hnow hlegal
  have hticks := profileRecord_ticks dwarf sections p hpos
  have htotal : ∀ k, (profileRecord dwarf sections p x).cumulativeTsc k =
      (atOwn x (Ticks.leave x) (atOwn x (Ticks.enter p.prevClass.isCall x) p.ticks) k).total := fun k => by
    rw [← hticks, Profile.ticks_total]
  have hcalling := h.calling_step dwarf sections hlegal
  have hstep := step_eq c x
  by_cases hx : x.iclass.isReturn = true
  · rw [if_pos hx] at hstep
    obtain ⟨a, calls, hcalls⟩ := List.exists_cons_of_ne_nil (hlegal.2 hx)
    have hends : c.EndsCall x ↔ (c.enter x).Ends a x := by
      unfold EndsCall
      rw [hcalls]
      simp
    have hiff := hentered.spent_leave_iff hcalls hx (hnew a (by rw [hcalls]; exact List.mem_cons_self))
    have hspent : (c.step x).spent = ((c.enter x).leave x).spent := by rw [hstep]
    refine ⟨?_, fun hret => ⟨?_, hcalling⟩⟩
    · simp only [htotal, hspent, hiff, hends, hx, true_imp_iff]
    · rw [hticks, hstep]
      exact (hentered.leave hcalls hx (hends.1 (hret hx))).calling _
  · rw [if_neg hx] at hstep
    have hleft := atOwn_leave_of_not_return hx
    have hspent : (c.step x).spent = (c.enter x).spent := by rw [hstep]
    refine ⟨iff_of_true (fun k => ?_) fun hret => absurd hret hx, fun _ => ⟨?_, hcalling⟩⟩
    · rw [htotal, hleft, hspent]
      exact hentered.spent k
    · rw [hticks, hleft, hstep]
      exact hentered.calling _

theorem TscIncreasing.lastTsc_lt {w : List DecodedInsn} {x : DecodedInsn} (h : TscIncreasing (w ++ [x])) :
    lastTsc w < x.tsc := by
  unfold lastTsc
  cases hw : w.getLast? with
  | none => exact h.1 x (by simp)
  | some y => exact (List.pairwise_append.1 h.2).2.2 y (List.mem_of_getLast? hw) x (List.mem_singleton.2 rfl)

theorem returnsEndCalls_nil : ReturnsEndCalls [] :=
  fun _ _ hpre => absurd (List.prefix_nil.1 hpre) (by simp)

theorem returnsEndCalls_concat {w : List DecodedInsn} {x : DecodedInsn} : ReturnsEndCalls (w ++ [x]) ↔
    ReturnsEndCalls w ∧ (x.iclass.isReturn = true → (run w {}).EndsCall x) := by
  constructor
  · intro h
    exact ⟨fun pre y hpre => h pre y (hpre.trans (List.prefix_append w [x])), h w x (List.prefix_refl _)⟩
  · rintro ⟨hw, hx⟩ pre y hpre
    rcases List.prefix_concat_iff.1 hpre with heq | hpre
    · obtain ⟨rfl, rfl⟩ : pre = w ∧ y = x := by simpa using List.append_inj' heq rfl
      exact hx
    · exact hw pre y hpre

theorem tracks_run {w : List DecodedInsn} (htsc : TscIncreasing w) (hlegal : LegalRun {} w)
    (hreturns : ReturnsEndCalls w) : Tracks (lastTsc w) (profileRun dwarf sections w) (run w {}) := by
  induction w using List.reverseRecOn with
  | nil => exact ⟨.nil, by simp [profileRun, profileInit, PtInsnClass.isCall, run]⟩
  | append_singleton w x ih =>
      obtain ⟨hw, hx⟩ := returnsEndCalls_concat.1 hreturns
      obtain ⟨hlegalw, hlegalx, _⟩ := (legalRun_append _ _ _).1 hlegal
      have htracks := (ih htsc.of_append hlegalw hw).step dwarf sections htsc.lastTsc_lt hlegalx
      rw [profileRun_concat, run_concat, lastTsc, List.getLast?_concat]
      exact htracks.2 hx

/-- The times agree behind every instruction exactly when every RETURN ends its call. -/
theorem spent_run_iff {w : List DecodedInsn} (htsc : TscIncreasing w) (hlegal : LegalRun {} w) :
    (∀ pre, pre <+: w → ∀ k, ((profileRun dwarf sections pre).cumulativeTsc k).toNat = (run pre {}).spent k) ↔
      ReturnsEndCalls w := by
  induction w using List.reverseRecOn with
  | nil =>
      refine iff_of_true (fun pre hpre k => ?_) returnsEndCalls_nil
      obtain rfl := List.prefix_nil.1 hpre
      rfl
  | append_singleton w x ih =>
      obtain ⟨hlegalw, hlegalx, _⟩ := (legalRun_append _ _ _).1 hlegal
      have hstep (hw : ReturnsEndCalls w) :=
        ((tracks_run dwarf sections htsc.of_append hlegalw hw).step dwarf sections htsc.lastTsc_lt hlegalx).1
      rw [returnsEndCalls_concat, ← ih htsc.of_append hlegalw]
      constructor
      · intro hall
        have hbefore := fun pre hpre => hall pre (List.IsPrefix.trans hpre (List.prefix_append w [x]))
        have hlast := hall (w ++ [x]) (List.prefix_refl _)
        rw [profileRun_concat, run_concat] at hlast
        exact ⟨hbefore, (hstep ((ih htsc.of_append hlegalw).1 hbefore)).1 hlast⟩
      · rintro ⟨hbefore, hx⟩ pre hpre
        rcases List.prefix_concat_iff.1 hpre with rfl | hpre
        · rw [profileRun_concat, run_concat]
          exact (hstep ((ih htsc.of_append hlegalw).1 hbefore)).2 hx
        · exact hbefore pre hpre

end

end ObservableBSD.Decode
