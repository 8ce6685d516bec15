import ObservableBSD.Decode.CallClock

/-!
# The clock spends the time of the activations
-/

namespace ObservableBSD.Decode

open Base

/-! ## Prefixes -/

theorem Runs.entered {u : List DecodedInsn} {a : ActData} {calls : List Activation} {c : DecodedInsn}
    (hc : insnKind c = .opening) (hu : Runs true u calls) (hne : u ≠ []) {v : List DecodedInsn}
    (hentry : (u ++ v).head? = some a.entry) : ∃ g, Runs true (c :: u) g := by
  have hhead : u.head? = some a.entry := by
    cases u with
    | nil => exact absurd rfl hne
    | cons y u => exact hentry
  exact ⟨_, .cutInCall (a := { a with exit := none, returns := fun _ h => (by cases h) }) hc hu hhead rfl⟩

/-- A stream that makes activations makes some up to any instruction. -/
theorem Runs.exists_of_initial {cut : Bool} {w : List DecodedInsn} {f : List Activation} (h : Runs cut w f) :
    ∀ {pre : List DecodedInsn}, pre <+: w → ∃ g, Runs true pre g := by
  induction h with
  | nil =>
      intro pre hpre
      obtain rfl := List.prefix_nil.1 hpre
      exact ⟨[], .nil⟩
  | @other cut x w f hx _ ih =>
      intro pre hpre
      cases pre with
      | nil => exact ⟨[], .nil⟩
      | cons y pre =>
          obtain ⟨rfl, hrest⟩ := List.cons_prefix_cons.1 hpre
          obtain ⟨g, hg⟩ := ih hrest
          exact ⟨g, .other hx hg⟩
  | @call cut c r u v a calls f hc hu hentry hexit _ ihu ihv =>
      intro pre hpre
      cases pre with
      | nil => exact ⟨[], .nil⟩
      | cons y pre =>
          obtain ⟨rfl, hrest⟩ := List.cons_prefix_cons.1 hpre
          by_cases hne : pre = []
          · exact ⟨[], by rw [hne]; exact .cutAtCall hc⟩
          rcases List.prefix_or_prefix_of_prefix hrest (List.prefix_append u _) with hin | ⟨post, rfl⟩
          · obtain ⟨g, hg⟩ := ihu hin
            obtain ⟨rest, rfl⟩ := hin
            rw [List.append_assoc] at hentry
            exact Runs.entered hc hg hne hentry
          · rw [List.prefix_append_right_inj] at hrest
            cases post with
            | nil =>
                obtain ⟨g, hg⟩ := ihu (List.prefix_refl u)
                rw [List.append_nil] at hne ⊢
                exact Runs.entered hc hg hne hentry
            | cons z post =>
                obtain ⟨rfl, hpost⟩ := List.cons_prefix_cons.1 hrest
                obtain ⟨g, hg⟩ := ihv hpost
                exact ⟨_, .call hc hu hentry hexit hg⟩
  | @cutAtCall c hc =>
      intro pre hpre
      cases pre with
      | nil => exact ⟨[], .nil⟩
      | cons y pre =>
          obtain ⟨rfl, hrest⟩ := List.cons_prefix_cons.1 hpre
          obtain rfl := List.prefix_nil.1 hrest
          exact ⟨[], .cutAtCall hc⟩
  | @cutInCall c u a calls hc _ hentry _ ih =>
      intro pre hpre
      cases pre with
      | nil => exact ⟨[], .nil⟩
      | cons y pre =>
          obtain ⟨rfl, hrest⟩ := List.cons_prefix_cons.1 hpre
          by_cases hne : pre = []
          · exact ⟨[], by rw [hne]; exact .cutAtCall hc⟩
          obtain ⟨g, hg⟩ := ih hrest
          obtain ⟨rest, rfl⟩ := hrest
          exact Runs.entered hc hg hne hentry

/-! ## Steps of the clock -/

/-- What decides the time of a call. -/
def OpenCall.span (a : OpenCall) : FuncKey × UInt64 := (a.fn, a.entry)

theorem OpenCall.calledAgain_span (k : FuncKey) (a : OpenCall) : (a.calledAgain k).span = a.span := by
  unfold OpenCall.calledAgain
  split <;> rfl

namespace CallClock

def spans (c : CallClock) : List (FuncKey × UInt64) := c.calls.map OpenCall.span

theorem enter_of_not_calling {c : CallClock} (h : c.calling = none) (x : DecodedInsn) : c.enter x = c := by
  unfold enter
  rw [h]
  cases x.sym with
  | none => cases c; cases h; rfl
  | some s => rfl

theorem enter_calling (c : CallClock) (x : DecodedInsn) : (c.enter x).calling = none := by
  unfold enter
  split
  · rfl
  · rfl
  · rfl
  · assumption

theorem enter_enter (c : CallClock) (x : DecodedInsn) : (c.enter x).enter x = c.enter x :=
  enter_of_not_calling (enter_calling c x) x

theorem enter_spent (c : CallClock) (x : DecodedInsn) : (c.enter x).spent = c.spent := by
  unfold enter
  split <;> rfl

theorem enter_spans {c : CallClock} {x : DecodedInsn} {s : SymEntry} (hc : c.calling ≠ none) (hx : x.sym = some s) :
    (c.enter x).spans = (s.funcKey, x.tsc) :: c.spans := by
  unfold enter
  cases h : c.calling with
  | none => exact absurd h hc
  | some fromSym =>
      rw [hx]
      cases fromSym with
      | true =>
          have hspans : (c.calls.map (OpenCall.calledAgain s.funcKey)).map OpenCall.span = c.spans := by
            rw [List.map_map, spans]
            exact List.map_congr_left fun a _ => OpenCall.calledAgain_span s.funcKey a
          simp only [spans, List.map_cons] at hspans ⊢
          rw [hspans]
          rfl
      | false => rfl

/-- The RETURN of the innermost call adds its time. -/
theorem leave_eq {c : CallClock} {k : FuncKey} {entry : UInt64} {spans : List (FuncKey × UInt64)}
    (h : c.spans = (k, entry) :: spans) (x : DecodedInsn) : (c.leave x).spans = spans ∧
      (c.leave x).spent = Function.update c.spent k (c.spent k + (x.tsc.toNat - entry.toNat)) := by
  unfold leave
  cases hcalls : c.calls with
  | nil => rw [CallClock.spans, hcalls] at h; cases h
  | cons a calls =>
      rw [CallClock.spans, hcalls, List.map_cons, List.cons.injEq] at h
      obtain ⟨hspan, hrest⟩ := h
      obtain ⟨rfl, rfl⟩ : a.fn = k ∧ a.entry = entry := Prod.mk.inj hspan
      exact ⟨hrest, rfl⟩

theorem step_eq (c : CallClock) (x : DecodedInsn) :
    c.step x = { (if x.iclass.isReturn then (c.enter x).leave x else c.enter x) with
      calling := if x.iclass.isCall then some x.sym.isSome else none } := rfl

theorem step_calling (c : CallClock) (x : DecodedInsn) :
    (c.step x).calling = if x.iclass.isCall then some x.sym.isSome else none := rfl

theorem step_enter (c : CallClock) (x : DecodedInsn) : (c.enter x).step x = c.step x := by
  unfold step
  rw [enter_enter]

/-! ## Legal runs -/

/-- Behind a CALL stands the entry of a symbol, and a RETURN finds a call to end. -/
def Legal (c : CallClock) (x : DecodedInsn) : Prop :=
  (c.calling ≠ none → x.atEntry = true) ∧ (x.iclass.isReturn = true → (c.enter x).calls ≠ [])

/-- Every instruction is legal where it stands. -/
def LegalRun : CallClock → List DecodedInsn → Prop
  | _, [] => True
  | c, x :: w => c.Legal x ∧ (c.step x).LegalRun w

theorem run_cons (c : CallClock) (x : DecodedInsn) (w : List DecodedInsn) : run (x :: w) c = run w (c.step x) := rfl

theorem run_append (c : CallClock) (u v : List DecodedInsn) : run (u ++ v) c = run v (run u c) :=
  List.foldl_append

theorem run_concat (c : CallClock) (w : List DecodedInsn) (x : DecodedInsn) : run (w ++ [x]) c = (run w c).step x :=
  run_append c w [x]

theorem legalRun_append (c : CallClock) (u v : List DecodedInsn) :
    c.LegalRun (u ++ v) ↔ c.LegalRun u ∧ (run u c).LegalRun v := by
  induction u generalizing c with
  | nil => simp [LegalRun, run]
  | cons x u ih => rw [List.cons_append, LegalRun, LegalRun, ih, run_cons, and_assoc]

/-- A call may be entered before its first instruction is read. -/
theorem run_enter {w : List DecodedInsn} {x : DecodedInsn} (hw : w.head? = some x) (c : CallClock) :
    run w (c.enter x) = run w c := by
  cases w with
  | nil => cases hw
  | cons y w =>
      cases hw
      rw [run_cons, run_cons, step_enter]

theorem legalRun_enter {w : List DecodedInsn} {x : DecodedInsn} (hw : w.head? = some x) (hx : x.atEntry = true)
    (c : CallClock) (h : (c.enter x).LegalRun w) : c.LegalRun w := by
  cases w with
  | nil => cases hw
  | cons y w =>
      cases hw
      obtain ⟨⟨_, hreturn⟩, hrest⟩ := h
      rw [enter_enter] at hreturn
      rw [step_enter] at hrest
      exact ⟨⟨fun _ => hx, hreturn⟩, hrest⟩

end CallClock

/-! ## The time of a run -/

open CallClock

theorem timeOf_cons (k : FuncKey) (a : ActData) (calls f : List Activation) :
    timeOf k (.node a calls :: f) = ActData.time k a + timeOf k calls + timeOf k f := by
  simp only [timeOf, RoseTree.sumByList, RoseTree.sumBy]

theorem timeOf_nil (k : FuncKey) : timeOf k [] = 0 := rfl

/-- What the clock does over a stream that makes the activations `f`. -/
structure Spends (cut : Bool) (w : List DecodedInsn) (f : List Activation) (c : CallClock) : Prop where
  legal : c.LegalRun w
  spent : ∀ k, (run w c).spent k = c.spent k + timeOf k f
  closed : cut = false → (run w c).calling = none ∧ (run w c).spans = c.spans

theorem step_call {c : CallClock} (hnone : c.calling = none) {x : DecodedInsn} (hx : insnKind x = .opening) :
    (c.step x).calling ≠ none ∧ (c.step x).spans = c.spans ∧ (c.step x).spent = c.spent ∧ c.Legal x := by
  have hcall : x.iclass.isCall = true := insnKind_opening.1 hx
  have hreturn : ¬ x.iclass.isReturn = true := by rw [isReturn_of_isCall hcall]; decide
  have hstep : c.step x = { c with calling := some x.sym.isSome } := by
    rw [step_eq, enter_of_not_calling hnone, if_neg hreturn, if_pos hcall]
  rw [hstep]
  exact ⟨fun h => (by cases h), rfl, rfl, fun h => absurd hnone h, fun h => absurd h hreturn⟩

theorem step_other {c : CallClock} (hnone : c.calling = none) {x : DecodedInsn} (hx : insnKind x = .other) :
    c.step x = c ∧ c.Legal x := by
  obtain ⟨hcall, hreturn⟩ := insnKind_other.1 hx
  have hreturn : ¬ x.iclass.isReturn = true := by rw [hreturn]; decide
  have hcall : ¬ x.iclass.isCall = true := by rw [hcall]; decide
  refine ⟨?_, fun h => absurd hnone h, fun h => absurd h hreturn⟩
  rw [step_eq, enter_of_not_calling hnone, if_neg hreturn, if_neg hcall]
  cases c
  cases hnone
  rfl

theorem step_return {c : CallClock} (hnone : c.calling = none) {k : FuncKey} {entry : UInt64}
    {spans : List (FuncKey × UInt64)} (hspans : c.spans = (k, entry) :: spans) {x : DecodedInsn}
    (hx : insnKind x = .closing) : (c.step x).calling = none ∧ (c.step x).spans = spans ∧
      (c.step x).spent = Function.update c.spent k (c.spent k + (x.tsc.toNat - entry.toNat)) ∧ c.Legal x := by
  have hreturn : x.iclass.isReturn = true := insnKind_closing.1 hx
  have hcall : ¬ x.iclass.isCall = true := by rw [isCall_of_isReturn hreturn]; decide
  have hstep : c.step x = { c.leave x with calling := none } := by
    rw [step_eq, enter_of_not_calling hnone, if_pos hreturn, if_neg hcall]
  obtain ⟨hleft, hspent⟩ := leave_eq hspans x
  rw [hstep]
  refine ⟨rfl, hleft, hspent, fun h => absurd hnone h, fun _ hnil => ?_⟩
  rw [enter_of_not_calling hnone] at hnil
  rw [CallClock.spans, hnil] at hspans
  cases hspans

theorem Spends.of_runs {cut : Bool} {w : List DecodedInsn} {f : List Activation} (h : Runs cut w f) :
    ∀ {c : CallClock}, c.calling = none → Spends cut w f c := by
  induction h with
  | nil => exact fun hnone => ⟨trivial, fun k => rfl, fun _ => ⟨hnone, rfl⟩⟩
  | @other cut x w f hx _ ih =>
      intro c hnone
      obtain ⟨hstep, hlegal⟩ := step_other hnone hx
      have hw := ih hnone
      refine ⟨⟨hlegal, ?_⟩, ?_, ?_⟩
      · rw [hstep]; exact hw.legal
      · rw [run_cons, hstep]; exact hw.spent
      · rw [run_cons, hstep]; exact hw.closed
  | @call cut p r u v a calls f hp hu hentry hexit _ ihu ihv =>
      intro c hnone
      obtain ⟨hcalling, hspans, hspent, hlegal⟩ := step_call hnone hp
      -- the call is entered before the instructions of `u` are read
      let c₁ := (c.step p).enter a.entry
      have hspans₁ : c₁.spans = (a.fn.funcKey, a.entry.tsc) :: c.spans := by
        rw [enter_spans hcalling a.enters.1, hspans]
      have hspent₁ : c₁.spent = c.spent := (enter_spent _ _).trans hspent
      have hin := ihu (c := c₁) (enter_calling _ _)
      obtain ⟨hnone₂, hspans₂⟩ := hin.closed rfl
      have hr : insnKind r = .closing := insnKind_closing.2 (a.returns r hexit)
      obtain ⟨hnone₃, hspans₃, hspent₃, hlegal₃⟩ := step_return hnone₂ (hspans₂.trans hspans₁) hr
      have hout := ihv hnone₃
      have hhead : (u ++ r :: v).head? = some a.entry := by cases u <;> exact hentry
      have hrun : run (p :: (u ++ r :: v)) c = run v ((run u c₁).step r) := by
        rw [run_cons, ← run_enter hhead, run_append, run_cons]
      refine ⟨⟨hlegal, ?_⟩, fun k => ?_, fun hcut => ?_⟩
      · have hentered : a.entry.atEntry = true := atEntry_iff.2 ⟨a.fn, a.enters⟩
        exact legalRun_enter hhead hentered _ ((legalRun_append _ _ _).2 ⟨hin.legal, hlegal₃, hout.legal⟩)
      · have htime : ((run u c₁).step r).spent k = c.spent k + timeOf k calls + ActData.time k a := by
          rw [hspent₃, Function.update_apply, hin.spent, hin.spent, hspent₁, ActData.time, hexit]
          by_cases hk : k = a.fn.funcKey
          · subst hk
            simp
          · simp [hk, Ne.symm hk]
        rw [hrun, hout.spent, htime, timeOf_cons]
        omega
      · rw [hrun, (hout.closed hcut).2]
        exact ⟨(hout.closed hcut).1, hspans₃⟩
  | @cutAtCall p hp =>
      intro c hnone
      obtain ⟨_, _, hspent, hlegal⟩ := step_call hnone hp
      refine ⟨⟨hlegal, trivial⟩, fun k => ?_, fun h => by cases h⟩
      rw [run_cons, run, List.foldl_nil, hspent, timeOf_nil, Nat.add_zero]
  | @cutInCall p u a calls hp _ hentry hexit ih =>
      intro c hnone
      obtain ⟨_, _, hspent, hlegal⟩ := step_call hnone hp
      have hin := ih (c := (c.step p).enter a.entry) (enter_calling _ _)
      have hentered : a.entry.atEntry = true := atEntry_iff.2 ⟨a.fn, a.enters⟩
      refine ⟨⟨hlegal, legalRun_enter hentry hentered _ hin.legal⟩, fun k => ?_, fun h => by cases h⟩
      rw [run_cons, ← run_enter hentry, hin.spent, enter_spent, hspent, timeOf_cons, ActData.time, hexit, timeOf_nil]
      simp

end ObservableBSD.Decode
