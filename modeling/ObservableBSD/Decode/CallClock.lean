import Mathlib.Logic.Function.Basic
import ObservableBSD.Decode.Activation

/-!
# Time spent in calls

The time of a function is the sum of its completed activations, each from its entry to its RETURN. The clock reads
a stream one instruction at a time and keeps the calls that are open, each with what decides whether one entry time
for each function is enough.
-/

namespace ObservableBSD.Decode

open Base

/-- A function is known by the two pointers. -/
abbrev FuncKey := StrPtr × StrPtr

def SymEntry.funcKey (s : SymEntry) : FuncKey := (s.name, s.binary)

/-- TSC values are positive and strictly increase. -/
def TscIncreasing (w : List DecodedInsn) : Prop :=
  (∀ x ∈ w, 0 < x.tsc) ∧ w.Pairwise fun x y => x.tsc < y.tsc

instance (w : List DecodedInsn) : Decidable (TscIncreasing w) := inferInstanceAs (Decidable (_ ∧ _))

theorem TscIncreasing.of_append {u v : List DecodedInsn} (h : TscIncreasing (u ++ v)) : TscIncreasing u :=
  ⟨fun x hx => h.1 x (List.mem_append_left v hx), (List.pairwise_append.1 h.2).1⟩

/-- TSC values are positive and never decrease. -/
def TscNondecreasing (w : List DecodedInsn) : Prop :=
  (∀ x ∈ w, 0 < x.tsc) ∧ w.Pairwise fun x y => x.tsc ≤ y.tsc

instance (w : List DecodedInsn) : Decidable (TscNondecreasing w) := inferInstanceAs (Decidable (_ ∧ _))

theorem TscNondecreasing.of_append {u v : List DecodedInsn} (h : TscNondecreasing (u ++ v)) : TscNondecreasing u :=
  ⟨fun x hx => h.1 x (List.mem_append_left v hx), (List.pairwise_append.1 h.2).1⟩

def firstTsc (w : List DecodedInsn) : UInt64 := (w.head?.map DecodedInsn.tsc).getD 0

def lastTsc (w : List DecodedInsn) : UInt64 := (w.getLast?.map DecodedInsn.tsc).getD 0

def elapsed (w : List DecodedInsn) : Nat := (lastTsc w).toNat - (firstTsc w).toNat

/-! ## Time of the activations -/

/-- The time of one activation, if it is completed and of the function `k`. -/
def ActData.time (k : FuncKey) (a : ActData) : Nat :=
  match a.exit with
  | some r => if a.fn.funcKey = k then r.tsc.toNat - a.entry.tsc.toNat else 0
  | none => 0

def timeOf (k : FuncKey) (f : List Activation) : Nat := RoseTree.sumByList (ActData.time k) f

/-! ## The clock -/

/-- A call that is open: the function, the TSC at its entry, whether the CALL lies in a symbol, and whether the
function was called again, from a symbol, while this call was open. -/
structure OpenCall where
  fn : FuncKey
  entry : UInt64
  fromSym : Bool
  again : Bool := false

def OpenCall.calledAgain (k : FuncKey) (a : OpenCall) : OpenCall :=
  if a.fn = k then { a with again := true } else a

/-- `calling` tells whether the last instruction is a CALL and whether it lies in a symbol, and `waiting` the
functions with an entry that no RETURN of theirs followed. An entry that is itself a RETURN leaves its function
waiting. -/
structure CallClock where
  calls : List OpenCall := []
  calling : Option Bool := none
  waiting : FuncKey → Bool := fun _ => false
  spent : FuncKey → Nat := fun _ => 0

namespace CallClock

def enter (c : CallClock) (x : DecodedInsn) : CallClock :=
  match c.calling, x.sym with
  | some true, some s =>
      { c with
        calls := ⟨s.funcKey, x.tsc, true, false⟩ :: c.calls.map (OpenCall.calledAgain s.funcKey)
        calling := none
        waiting := Function.update c.waiting s.funcKey true }
  | some false, some s => { c with calls := ⟨s.funcKey, x.tsc, false, false⟩ :: c.calls, calling := none }
  | _, none => { c with calling := none }
  | none, _ => c

def leave (c : CallClock) (x : DecodedInsn) : CallClock :=
  match c.calls with
  | [] => c
  | a :: calls =>
      { c with
        calls
        waiting := match x.sym with
          | none => c.waiting
          | some s => Function.update c.waiting s.funcKey (c.waiting s.funcKey && a.entry = x.tsc)
        spent := Function.update c.spent a.fn (c.spent a.fn + (x.tsc.toNat - a.entry.toNat)) }

def step (c : CallClock) (x : DecodedInsn) : CallClock :=
  let entered := c.enter x
  let left := if x.iclass.isReturn then entered.leave x else entered
  { left with calling := if x.iclass.isCall then some x.sym.isSome else none }

def run (w : List DecodedInsn) (c : CallClock) : CallClock := w.foldl step c

/-- The RETURN `x` lies in the function of the call `a`, the CALL lies in a symbol, and the function was not called
again meanwhile. A call of one instruction needs no entry time when none is waiting. -/
def Ends (c : CallClock) (a : OpenCall) (x : DecodedInsn) : Prop :=
  ∃ s, x.sym = some s ∧ a.fn = s.funcKey ∧
    ((a.fromSym = true ∧ a.again = false) ∨ (a.entry = x.tsc ∧ c.waiting a.fn = false))

/-- The RETURN `x` ends the innermost call so. -/
def EndsCall (c : CallClock) (x : DecodedInsn) : Prop :=
  ∃ a ∈ (c.enter x).calls.head?, (c.enter x).Ends a x

end CallClock

/-- Every RETURN of the stream ends a call that one entry time for each function can measure. -/
def ReturnsEndCalls (w : List DecodedInsn) : Prop :=
  ∀ pre x, pre ++ [x] <+: w → x.iclass.isReturn = true → (CallClock.run pre {}).EndsCall x

end ObservableBSD.Decode
