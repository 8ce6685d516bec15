import Mathlib.Data.List.Basic

/-!
# Programs that call an outside world

A program makes calls, goes on with their answers, and has loops without a bound. A run is the list of its
calls with their answers up to any point, and the result when that point is the end. A protocol says which
calls are allowed after which, and what the outside world promises in its answers.
-/

namespace ObservableBSD.Base

/-- The calls that programs make, and the answers to each of them. -/
structure Interface where
  Call : Type
  Answer : Call → Type

/-- A program with a result in `α`. The body of a loop gives the state for the next turn, or leaves. -/
inductive Prog (I : Interface) : Type → Type 1 where
  | done {α : Type} (a : α) : Prog I α
  | call {α : Type} (c : I.Call) (next : I.Answer c → Prog I α) : Prog I α
  | loop {α β σ : Type} (body : σ → Prog I (σ ⊕ β)) (s : σ) (next : β → Prog I α) : Prog I α

structure Event (I : Interface) where
  call : I.Call
  answer : I.Answer call

variable {I : Interface} {α β σ : Type}

namespace Prog

protected def bind : {α : Type} → Prog I α → (α → Prog I β) → Prog I β
  | _, .done a, f => f a
  | _, .call c next, f => .call c fun ans => (next ans).bind f
  | _, .loop body s next, f => .loop body s fun b => (next b).bind f

instance : Monad (Prog I) where
  pure := .done
  bind := Prog.bind

/-- One call, whose answer is the result. -/
def perform (c : I.Call) : Prog I (I.Answer c) := .call c .done

/-- A loop whose result is the one that its body leaves with. -/
def iterate (body : σ → Prog I (σ ⊕ β)) (s : σ) : Prog I β := .loop body s .done

@[simp] theorem pure_bind (a : α) (f : α → Prog I β) : (pure a >>= f : Prog I β) = f a := rfl

/-! ## Runs -/

end Prog

/-- The runs of a loop, from the runs of its body. -/
inductive LoopRuns (body : σ → List (Event I) → Option (σ ⊕ β) → Prop) : σ → List (Event I) → Option β → Prop where
  | cut {s : σ} {events : List (Event I)} : body s events none → LoopRuns body s events none
  | again {s s' : σ} {events rest : List (Event I)} {out : Option β} :
      body s events (some (.inl s')) → LoopRuns body s' rest out → LoopRuns body s (events ++ rest) out
  | leave {s : σ} {events : List (Event I)} {b : β} :
      body s events (some (.inr b)) → LoopRuns body s events (some b)

namespace Prog

/-- The calls that a program has made at some point; `none` is a point in front of the end. -/
def Runs : {α : Type} → Prog I α → List (Event I) → Option α → Prop
  | _, .done a, events, out => events = [] ∧ (out = none ∨ out = some a)
  | _, .call c next, events, out =>
      (events = [] ∧ out = none) ∨ ∃ ans rest, events = ⟨c, ans⟩ :: rest ∧ (next ans).Runs rest out
  | _, .loop body s next, events, out =>
      (LoopRuns (fun s => (body s).Runs) s events none ∧ out = none) ∨
        ∃ front rest b, events = front ++ rest ∧ LoopRuns (fun s => (body s).Runs) s front (some b) ∧
          (next b).Runs rest out

theorem runs_bind {p : Prog I α} {f : α → Prog I β} {events : List (Event I)} {out : Option β}
    (h : (p >>= f).Runs events out) :
    (p.Runs events none ∧ out = none) ∨
      ∃ front rest a, events = front ++ rest ∧ p.Runs front (some a) ∧ (f a).Runs rest out := by
  change (p.bind f).Runs events out at h
  induction p generalizing events with
  | done a => exact .inr ⟨[], events, a, rfl, ⟨rfl, .inr rfl⟩, h⟩
  | call c next ih =>
      rcases h with ⟨rfl, rfl⟩ | ⟨ans, rest, rfl, hrest⟩
      · exact .inl ⟨.inl ⟨rfl, rfl⟩, rfl⟩
      · rcases ih ans hrest with ⟨hnext, rfl⟩ | ⟨front, back, a, rfl, hnext, hback⟩
        · exact .inl ⟨.inr ⟨ans, rest, rfl, hnext⟩, rfl⟩
        · exact .inr ⟨⟨c, ans⟩ :: front, back, a, rfl, .inr ⟨ans, front, rfl, hnext⟩, hback⟩
  | loop body s next _ ih =>
      rcases h with ⟨hloop, rfl⟩ | ⟨front, rest, b, rfl, hloop, hrest⟩
      · exact .inl ⟨.inl ⟨hloop, rfl⟩, rfl⟩
      · rcases ih b hrest with ⟨hnext, rfl⟩ | ⟨mid, back, a, rfl, hnext, hback⟩
        · exact .inl ⟨.inr ⟨front, rest, b, rfl, hloop, hnext⟩, rfl⟩
        · exact .inr ⟨front ++ mid, back, a, (List.append_assoc ..).symm,
            .inr ⟨front, mid, b, rfl, hloop, hnext⟩, hback⟩

end Prog

/-- Every call that the program can make satisfies `A`. -/
def Prog.All (A : I.Call → Prop) : {α : Type} → Prog I α → Prop
  | _, .done _ => True
  | _, .call c next => A c ∧ ∀ ans, (next ans).All A
  | _, .loop body _ next => (∀ s, (body s).All A) ∧ ∀ b, (next b).All A

theorem Prog.All.bind {A : I.Call → Prop} {p : Prog I α} {f : α → Prog I β} (hp : p.All A) (hf : ∀ a, (f a).All A) :
    (p >>= f).All A := by
  change (p.bind f).All A
  induction p with
  | done a => exact hf a
  | call c next ih => exact ⟨hp.1, fun ans => ih ans (hp.2 ans) hf⟩
  | loop body s next _ ih => exact ⟨hp.1, fun b => ih b (hp.2 b) hf⟩

theorem Prog.All.imp {A B : I.Call → Prop} {p : Prog I α} (hp : p.All A) (h : ∀ c, A c → B c) : p.All B := by
  induction p with
  | done a => trivial
  | call c next ih => exact ⟨h c hp.1, fun ans => ih ans (hp.2 ans)⟩
  | loop body s next ihbody ih => exact ⟨fun s => ihbody s (hp.1 s), fun b => ih b (hp.2 b)⟩

theorem Prog.All.events {A : I.Call → Prop} {p : Prog I α} {events : List (Event I)} {out : Option α} (hp : p.All A)
    (h : p.Runs events out) : ∀ e ∈ events, A e.call := by
  induction p generalizing events with
  | done a =>
      obtain ⟨rfl, -⟩ := h
      simp
  | call c next ih =>
      rcases h with ⟨rfl, -⟩ | ⟨ans, rest, rfl, hrest⟩
      · simp
      · exact List.forall_mem_cons.mpr ⟨hp.1, ih ans (hp.2 ans) hrest⟩
  | loop body s next ihbody ih =>
      have hloop : ∀ s events out, LoopRuns (fun s => (body s).Runs) s events out → ∀ e ∈ events, A e.call := by
        intro s events out hruns
        induction hruns with
        | cut hcut => exact ihbody _ (hp.1 _) hcut
        | again hturn _ ih => exact List.forall_mem_append.mpr ⟨ihbody _ (hp.1 _) hturn, ih⟩
        | leave hturn => exact ihbody _ (hp.1 _) hturn
      rcases h with ⟨hcut, -⟩ | ⟨front, rest, b, rfl, hfront, hrest⟩
      · exact hloop s events none hcut
      · exact List.forall_mem_append.mpr ⟨hloop s front _ hfront, ih b (hp.2 b) hrest⟩

/-- Every result satisfies `R`. -/
def Prog.Results (p : Prog I α) (R : α → Prop) : Prop := ∀ events a, p.Runs events (some a) → R a

theorem Prog.Results.pure {R : α → Prop} {a : α} (h : R a) : (Pure.pure a : Prog I α).Results R := by
  rintro events b ⟨-, hout⟩
  rcases hout with hout | hout
  · cases hout
  · cases hout
    exact h

theorem Prog.Results.any (p : Prog I α) : p.Results fun _ => True := fun _ _ _ => trivial

theorem Prog.Results.bind {p : Prog I α} {f : α → Prog I β} {R : α → Prop} {R' : β → Prop} (hp : p.Results R)
    (hf : ∀ a, R a → (f a).Results R') : (p >>= f).Results R' := by
  intro events b hruns
  rcases Prog.runs_bind hruns with ⟨-, hout⟩ | ⟨front, rest, a, -, hfront, hrest⟩
  · cases hout
  · exact hf a (hp front a hfront) rest b hrest

/-- A run against an outside world with a state, of at most `fuel` steps. -/
def Prog.play {ε : Type} (world : ε → (c : I.Call) → I.Answer c × ε) :
    Nat → {α : Type} → Prog I α → ε → List (Event I) × Option α × ε
  | 0, _, _, env => ([], none, env)
  | _ + 1, _, .done a, env => ([], some a, env)
  | fuel + 1, _, .call c next, env =>
      let ans := world env c
      let r := play world fuel (next ans.1) ans.2
      (⟨c, ans.1⟩ :: r.1, r.2)
  | fuel + 1, _, .loop body s next, env =>
      match play world fuel (body s) env with
      | (events, none, env) => (events, none, env)
      | (events, some (.inl s), env) =>
          let r := play world fuel (.loop body s next) env
          (events ++ r.1, r.2)
      | (events, some (.inr b), env) =>
          let r := play world fuel (next b) env
          (events ++ r.1, r.2)

theorem Prog.runs_again {body : σ → Prog I (σ ⊕ β)} {s s' : σ} {next : β → Prog I α} {front rest : List (Event I)}
    {out : Option α} (hturn : (body s).Runs front (some (.inl s'))) (h : (Prog.loop body s' next).Runs rest out) :
    (Prog.loop body s next).Runs (front ++ rest) out := by
  rcases h with ⟨hloop, rfl⟩ | ⟨mid, back, b, rfl, hloop, hback⟩
  · exact .inl ⟨.again hturn hloop, rfl⟩
  · exact .inr ⟨front ++ mid, back, b, (List.append_assoc ..).symm, .again hturn hloop, hback⟩

theorem Prog.runs_nil (p : Prog I α) : p.Runs [] none := by
  induction p with
  | done a => exact ⟨rfl, .inl rfl⟩
  | call c next => exact .inl ⟨rfl, rfl⟩
  | loop body s next ih => exact .inl ⟨.cut (ih s), rfl⟩

theorem Prog.play_runs {ε : Type} (world : ε → (c : I.Call) → I.Answer c × ε) (fuel : Nat) {α : Type} (p : Prog I α)
    (env : ε) : p.Runs (play world fuel p env).1 (play world fuel p env).2.1 := by
  induction fuel generalizing α env with
  | zero => exact p.runs_nil
  | succ fuel ih =>
      cases p with
      | done a => exact ⟨rfl, .inr rfl⟩
      | call c next => exact .inr ⟨_, _, rfl, ih _ _⟩
      | loop body s next =>
          have hbody := ih (body s) env
          unfold play
          rcases hplay : play world fuel (body s) env with ⟨events, _ | s' | b, env'⟩ <;> rw [hplay] at hbody
          · exact .inl ⟨.cut hbody, rfl⟩
          · exact runs_again hbody (ih (.loop body s' next) env')
          · exact .inr ⟨events, _, b, rfl, .leave hbody, ih (next b) env'⟩

/-! ## Protocols -/

/-- A state that follows the calls, the calls that it allows, and the answers that may be relied on in it. -/
structure Protocol (I : Interface) where
  State : Type
  allows : State → I.Call → Prop
  answers : State → (c : I.Call) → I.Answer c → Prop
  next : State → (c : I.Call) → I.Answer c → State

namespace Protocol

/-- The state behind the events. -/
def after (P : Protocol I) (st : P.State) : List (Event I) → P.State
  | [] => st
  | e :: events => after P (P.next st e.call e.answer) events

/-- Every answer keeps the promise. -/
def Answered (P : Protocol I) (st : P.State) : List (Event I) → Prop
  | [] => True
  | e :: events => P.answers st e.call e.answer ∧ Answered P (P.next st e.call e.answer) events

/-- Every call is allowed. -/
def Obeyed (P : Protocol I) (st : P.State) : List (Event I) → Prop
  | [] => True
  | e :: events => P.allows st e.call ∧ Obeyed P (P.next st e.call e.answer) events

variable {P : Protocol I} {st : P.State} {events rest : List (Event I)}

theorem after_append : P.after st (events ++ rest) = P.after (P.after st events) rest := by
  induction events generalizing st with
  | nil => rfl
  | cons e events ih => exact ih

theorem answered_append :
    P.Answered st (events ++ rest) ↔ P.Answered st events ∧ P.Answered (P.after st events) rest := by
  induction events generalizing st with
  | nil => simp [Answered, after]
  | cons e events ih => simp only [List.cons_append, Answered, after, ih, and_assoc]

theorem obeyed_append : P.Obeyed st (events ++ rest) ↔ P.Obeyed st events ∧ P.Obeyed (P.after st events) rest := by
  induction events generalizing st with
  | nil => simp [Obeyed, after]
  | cons e events ih => simp only [List.cons_append, Obeyed, after, ih, and_assoc]

theorem Obeyed.allows {e : Event I} (h : P.Obeyed st (events ++ e :: rest)) : P.allows (P.after st events) e.call :=
  (obeyed_append.mp h).2.1

/-! ## Safety -/

/-- In every run from a state whose answers keep the promise, the program makes only calls that are allowed, and
when it ends, its result and the state behind it satisfy the postcondition. -/
def Safe (P : Protocol I) (st : P.State) (p : Prog I α) (post : α → P.State → Prop) : Prop :=
  ∀ ⦃events out⦄, p.Runs events out → P.Answered st events →
    P.Obeyed st events ∧ ∀ a, out = some a → post a (P.after st events)

variable {post post' : α → P.State → Prop}

theorem Safe.done {a : α} (h : post a st) : P.Safe st (.done a) post := by
  rintro events out ⟨rfl, hout⟩ _
  refine ⟨trivial, fun b hb => ?_⟩
  obtain rfl | rfl := hout
  · cases hb
  · cases hb
    exact h

theorem Safe.pure {a : α} (h : post a st) : P.Safe st (Pure.pure a) post := .done h

theorem Safe.call {c : I.Call} {next : I.Answer c → Prog I α} (hallows : P.allows st c)
    (h : ∀ ans, P.answers st c ans → P.Safe (P.next st c ans) (next ans) post) :
    P.Safe st (.call c next) post := by
  rintro events out (⟨rfl, rfl⟩ | ⟨ans, rest, rfl, hrest⟩) hanswered
  · exact ⟨trivial, by simp⟩
  · obtain ⟨hobeyed, hpost⟩ := h ans hanswered.1 hrest hanswered.2
    exact ⟨⟨hallows, hobeyed⟩, hpost⟩

theorem Safe.perform {c : I.Call} {post : I.Answer c → P.State → Prop} (hallows : P.allows st c)
    (h : ∀ ans, P.answers st c ans → post ans (P.next st c ans)) : P.Safe st (Prog.perform c) post :=
  .call hallows fun ans hans => .done (h ans hans)

theorem Safe.bind {p : Prog I α} {f : α → Prog I β} {post' : β → P.State → Prop} (hp : P.Safe st p post)
    (hf : ∀ a st', post a st' → P.Safe st' (f a) post') : P.Safe st (p >>= f) post' := by
  intro events out hruns hanswered
  rcases Prog.runs_bind hruns with ⟨hcut, rfl⟩ | ⟨front, rest, a, rfl, hfront, hrest⟩
  · exact ⟨(hp hcut hanswered).1, by simp⟩
  · obtain ⟨hanswered, hanswered'⟩ := answered_append.mp hanswered
    obtain ⟨hobeyed, hpost⟩ := hp hfront hanswered
    obtain ⟨hobeyed', hpost'⟩ := hf a _ (hpost a rfl) hrest hanswered'
    exact ⟨obeyed_append.mpr ⟨hobeyed, hobeyed'⟩, by simpa only [after_append] using hpost'⟩

theorem Safe.mono {p : Prog I α} (h : P.Safe st p post) (hpost : ∀ a st', post a st' → post' a st') :
    P.Safe st p post' := fun _ _ hruns hanswered =>
  have ⟨hobeyed, h⟩ := h hruns hanswered
  ⟨hobeyed, fun a ha => hpost a _ (h a ha)⟩

theorem Safe.results {p : Prog I α} {R : α → Prop} (h : P.Safe st p post) (hR : p.Results R) :
    P.Safe st p fun a st' => post a st' ∧ R a := by
  intro events out hruns hanswered
  obtain ⟨hobeyed, hpost⟩ := h hruns hanswered
  refine ⟨hobeyed, fun a ha => ⟨hpost a ha, hR events a ?_⟩⟩
  subst ha
  exact hruns

/-- Calls that are allowed under an invariant of the state, and keep it. -/
theorem Safe.of_all_keeps {A : I.Call → Prop} {p : Prog I α} (inv : P.State → Prop)
    (hA : ∀ st c, A c → inv st → P.allows st c ∧ ∀ ans, inv (P.next st c ans)) (hinv : inv st) (hp : p.All A) :
    P.Safe st p fun _ => inv := by
  intro events out hruns _
  have hkept : ∀ (events : List (Event I)) st, inv st → (∀ e ∈ events, A e.call) →
      P.Obeyed st events ∧ inv (P.after st events) := by
    intro events
    induction events with
    | nil => exact fun st hinv _ => ⟨trivial, hinv⟩
    | cons e events ih =>
        intro st hinv hcalls
        obtain ⟨hcall, hrest⟩ := List.forall_mem_cons.mp hcalls
        obtain ⟨hallows, hnext⟩ := hA st e.call hcall hinv
        obtain ⟨hobeyed, hafter⟩ := ih _ (hnext e.answer) hrest
        exact ⟨⟨hallows, hobeyed⟩, hafter⟩
  obtain ⟨hobeyed, hafter⟩ := hkept events st hinv (hp.events hruns)
  exact ⟨hobeyed, fun _ _ => hafter⟩

/-- Calls that are always allowed and change nothing leave the state as it is. -/
theorem Safe.of_all {A : I.Call → Prop} {p : Prog I α}
    (hA : ∀ c, A c → P.allows st c ∧ ∀ ans, P.next st c ans = st) (hp : p.All A) :
    P.Safe st p fun _ st' => st' = st :=
  .of_all_keeps (· = st) (fun _ c hc hst => hst ▸ hA c hc) rfl hp

/-- One turn of the loop keeps the invariant. -/
theorem Safe.iterate {body : σ → Prog I (σ ⊕ β)} {post : β → P.State → Prop} (inv : σ → P.State → Prop) {s : σ}
    (hinv : inv s st)
    (hbody : ∀ s st, inv s st → P.Safe st (body s) fun r st' => r.elim (inv · st') (post · st')) :
    P.Safe st (Prog.iterate body s) post := by
  have hloop : ∀ s st events out, inv s st → LoopRuns (fun s => (body s).Runs) s events out → P.Answered st events →
      P.Obeyed st events ∧ ∀ b, out = some b → post b (P.after st events) := by
    intro s st events out hinv hruns
    induction hruns generalizing st with
    | cut hcut => exact fun hanswered => ⟨(hbody _ _ hinv hcut hanswered).1, by simp⟩
    | again hturn _ ih =>
        intro hanswered
        obtain ⟨hanswered, hanswered'⟩ := answered_append.mp hanswered
        obtain ⟨hobeyed, hpost⟩ := hbody _ _ hinv hturn hanswered
        obtain ⟨hobeyed', hpost'⟩ := ih _ (hpost _ rfl) hanswered'
        exact ⟨obeyed_append.mpr ⟨hobeyed, hobeyed'⟩, by simpa only [after_append] using hpost'⟩
    | leave hturn =>
        intro hanswered
        obtain ⟨hobeyed, hpost⟩ := hbody _ _ hinv hturn hanswered
        exact ⟨hobeyed, by rintro b hb; cases hb; exact hpost _ rfl⟩
  rintro events out (⟨hcut, rfl⟩ | ⟨front, rest, b, rfl, hleave, rfl, hout⟩) hanswered
  · exact ⟨(hloop s st events none hinv hcut hanswered).1, by simp⟩
  · rw [List.append_nil] at hanswered ⊢
    obtain ⟨hobeyed, hpost⟩ := hloop s st front (some b) hinv hleave hanswered
    refine ⟨hobeyed, fun a ha => ?_⟩
    obtain rfl | rfl := hout
    · cases ha
    · exact hpost a ha

/-- A `for` over a list, whose turns keep the invariant. -/
theorem Safe.foldlM {γ : Type} {f : σ → γ → Prog I σ} (inv : σ → P.State → Prop) (xs : List γ) {s : σ} {st : P.State}
    (hinv : inv s st) (hturn : ∀ s st, ∀ x ∈ xs, inv s st → P.Safe st (f s x) inv) :
    P.Safe st (xs.foldlM f s) inv := by
  induction xs generalizing s st with
  | nil => exact .pure hinv
  | cons x xs ih =>
      exact (hturn s st x List.mem_cons_self hinv).bind fun s' st' hinv' =>
        ih hinv' fun s st y hy => hturn s st y (List.mem_cons_of_mem _ hy)

end Protocol
end ObservableBSD.Base
