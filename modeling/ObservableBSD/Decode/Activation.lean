import ObservableBSD.Base.RoseTree
import ObservableBSD.Decode.Lemmas.Shadow

/-!
# Activations

What a well-nested stream says about calls, apart from any accumulator: the tree of the activations of
functions. Every CALL enters a function at the first instruction behind it, and the calls that are open when the
stream ends stand in the tree without a RETURN.
-/

namespace ObservableBSD.Decode

open Base

/-- An activation of `fn`: the instruction that enters it, and the RETURN that ends it. -/
structure ActData where
  fn : SymEntry
  entry : DecodedInsn
  exit : Option DecodedInsn
  enters : entry.sym = some fn ∧ entry.ip = fn.addr
  returns : ∀ r ∈ exit, r.iclass.isReturn = true

/-- The activation, and the activations of the calls that it makes. -/
abbrev Activation := RoseTree ActData

/-- `Runs cut w f`: the stream `w` makes the activations `f`. Calls may be open at its end only if `cut`. -/
inductive Runs : Bool → List DecodedInsn → List Activation → Prop where
  | nil {cut : Bool} : Runs cut [] []
  | other {cut : Bool} {x : DecodedInsn} {w : List DecodedInsn} {f : List Activation} :
      insnKind x = .other → Runs cut w f → Runs cut (x :: w) f
  | call {cut : Bool} {c r : DecodedInsn} {u v : List DecodedInsn} {a : ActData} {calls f : List Activation} :
      insnKind c = .opening → Runs false u calls → (u ++ [r]).head? = some a.entry → a.exit = some r →
      Runs cut v f → Runs cut (c :: (u ++ r :: v)) (.node a calls :: f)
  | cutAtCall {c : DecodedInsn} : insnKind c = .opening → Runs true [c] []
  | cutInCall {c : DecodedInsn} {u : List DecodedInsn} {a : ActData} {calls : List Activation} :
      insnKind c = .opening → Runs true u calls → u.head? = some a.entry → a.exit = none →
      Runs true (c :: u) [.node a calls]

/-- Behind every CALL stands the entry of a symbol. -/
def CallsEnter (w : List DecodedInsn) : Prop :=
  ∀ pre c x post, w = pre ++ c :: x :: post → insnKind c = .opening → x.atEntry = true

theorem CallsEnter.of_append {u v : List DecodedInsn} (h : CallsEnter (u ++ v)) : CallsEnter u ∧ CallsEnter v := by
  constructor
  · rintro pre c x post rfl hc
    exact h pre c x (post ++ v) (by simp) hc
  · rintro pre c x post rfl hc
    exact h (u ++ pre) c x post (by simp) hc

/-- Every well-nested stream in which each CALL enters a symbol makes activations that all end. -/
theorem exists_runs {w : List DecodedInsn} (hw : Nested insnKind w) (henter : CallsEnter w) :
    ∃ f, Runs false w f := by
  induction hw with
  | nil => exact ⟨[], .nil⟩
  | @other x w hx _ ih =>
      obtain ⟨f, hf⟩ := ih (CallsEnter.of_append (u := [x]) henter).2
      exact ⟨f, .other hx hf⟩
  | @wrap c r u v hc hu hr hv ihu ihv =>
      have hparts : CallsEnter u ∧ CallsEnter v := by
        have hbody := (CallsEnter.of_append (u := [c]) henter).2
        have htail := (CallsEnter.of_append hbody).2
        exact ⟨(CallsEnter.of_append hbody).1, (CallsEnter.of_append (u := [r]) htail).2⟩
      obtain ⟨calls, hcalls⟩ := ihu hparts.1
      obtain ⟨f, hf⟩ := ihv hparts.2
      obtain ⟨x, hx⟩ : ∃ x, (u ++ [r]).head? = some x := by cases u <;> exact ⟨_, rfl⟩
      obtain ⟨rest, hrest⟩ : ∃ rest, u ++ r :: v = x :: rest := by
        cases u with
        | nil => cases hx; exact ⟨v, rfl⟩
        | cons y u => cases hx; exact ⟨u ++ r :: v, rfl⟩
      have hentry : x.atEntry = true := henter [] c x rest (by rw [hrest]; rfl) hc
      obtain ⟨s, hsym, hip⟩ := atEntry_iff.1 hentry
      have hret : ∀ y ∈ some r, y.iclass.isReturn = true := by
        rintro y ⟨⟩
        exact insnKind_closing.1 hr
      let a : ActData := { fn := s, entry := x, exit := some r, enters := ⟨hsym, hip⟩, returns := hret }
      exact ⟨.node a calls :: f, .call (a := a) hc hcalls hx rfl hf⟩

/-! ## Completed activations -/

/-- An activation that a RETURN ended: the names on its call path, the last one first, and whether it made no
calls. -/
structure Completion where
  path : List StrPtr
  leaf : Bool

mutual
/-- The completed activations in the order of their RETURNs. `above` is the path that leads to the call. -/
def completions (above : List StrPtr) : Activation → List Completion
  | .node a calls =>
      completionsList (a.fn.name :: above) calls ++
        if a.exit.isSome then [{ path := a.fn.name :: above, leaf := calls.isEmpty }] else []

def completionsList (above : List StrPtr) : List Activation → List Completion
  | [] => []
  | t :: ts => completions above t ++ completionsList above ts
end

mutual
def Activation.depth : Activation → Nat
  | .node _ calls => Activation.depthList calls + 1

def Activation.depthList : List Activation → Nat
  | [] => 0
  | t :: ts => max t.depth (Activation.depthList ts)
end

end ObservableBSD.Decode
