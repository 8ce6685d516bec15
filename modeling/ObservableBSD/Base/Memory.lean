import Mathlib.Data.List.Basic
import Mathlib.Logic.Function.Basic

/-!
# Strings of bytes

C strings are lists of bytes without the terminating NUL. A string held through a pointer that the
program compares by address carries the address too.
-/

namespace ObservableBSD.Base

/-- The bytes of a NUL-terminated string, without the NUL. -/
abbrev CString := List UInt8

def cstr (s : String) : CString := s.toList.map fun c => UInt8.ofNat c.toNat

/-- A `char *` into live memory. The address fixes the text, so two pointers are equal exactly when
their addresses are. -/
structure StrPtr where
  addr : Nat
  text : CString
deriving DecidableEq, Repr

def maxPathLen : Nat := 1024

/-- `strlcpy` into a buffer of `size` bytes. -/
def strlcpy (size : Nat) (src : CString) : CString := src.take (size - 1)

theorem strlcpy_of_lt {size : Nat} {src : CString} (h : src.length < size) : strlcpy size src = src :=
  List.take_of_length_le (by omega)

/-- The part of a path behind its last slash; the whole path when it has none. -/
def afterLastSlash (path : CString) : CString :=
  (path.reverse.takeWhile (· ≠ 47)).reverse

/-!
## Memory under a series of byte writes

A memory gives every index a byte. What a piece of code does to it is the series of its writes.
-/

abbrev Memory := Nat → UInt8

structure ByteWrite where
  index : Nat
  byte : UInt8
deriving DecidableEq, Repr

def writeAll (mem : Memory) : List ByteWrite → Memory
  | [] => mem
  | w :: ws => writeAll (Function.update mem w.index w.byte) ws

/-- The writes that put `s` at `p`, `p + 1`, ... -/
def putString (p : Nat) : CString → List ByteWrite
  | [] => []
  | b :: s => { index := p, byte := b } :: putString (p + 1) s

/-- The bytes from `p` on are `s`. -/
def HoldsAt (mem : Memory) (p : Nat) : CString → Prop
  | [] => True
  | b :: s => mem p = b ∧ HoldsAt mem (p + 1) s

/-- The string that begins at `p`, if its NUL is among the next `n` bytes. -/
def readString (mem : Memory) (p : Nat) : Nat → Option CString
  | 0 => none
  | n + 1 => if mem p = 0 then some [] else (readString mem (p + 1) n).map (mem p :: ·)

theorem writeAll_append (mem : Memory) (ws vs : List ByteWrite) :
    writeAll mem (ws ++ vs) = writeAll (writeAll mem ws) vs := by
  induction ws generalizing mem with
  | nil => rfl
  | cons w ws ih => exact ih _

theorem writeAll_frame {mem : Memory} {ws : List ByteWrite} {i : Nat} (h : ∀ w ∈ ws, w.index ≠ i) :
    writeAll mem ws i = mem i := by
  induction ws generalizing mem with
  | nil => rfl
  | cons w ws ih =>
      rw [writeAll, ih (fun v hv => h v (List.mem_cons_of_mem w hv))]
      exact Function.update_of_ne (h w List.mem_cons_self).symm _ _

theorem index_of_mem_putString {p : Nat} {s : CString} {w : ByteWrite} (h : w ∈ putString p s) :
    p ≤ w.index ∧ w.index < p + s.length := by
  induction s generalizing p with
  | nil => cases h
  | cons b s ih =>
      rw [List.length_cons]
      rcases List.mem_cons.1 h with rfl | h
      · exact ⟨Nat.le_refl p, by simp⟩
      · have := ih h
        omega

/-! ## What memory holds -/

theorem holdsAt_append {mem : Memory} {p : Nat} {s t : CString} :
    HoldsAt mem p (s ++ t) ↔ HoldsAt mem p s ∧ HoldsAt mem (p + s.length) t := by
  induction s generalizing p with
  | nil => simp [HoldsAt]
  | cons b s ih =>
      have harith : p + 1 + s.length = p + (b :: s).length := by simp; omega
      rw [List.cons_append, HoldsAt, HoldsAt, ih, harith, and_assoc]

theorem HoldsAt.congr {mem mem' : Memory} {p : Nat} {s : CString} (h : HoldsAt mem p s)
    (hmem : ∀ i, p ≤ i → i < p + s.length → mem' i = mem i) : HoldsAt mem' p s := by
  induction s generalizing p with
  | nil => trivial
  | cons b s ih =>
      rw [List.length_cons] at hmem
      refine ⟨(hmem p (Nat.le_refl p) (by omega)).trans h.1, ih h.2 fun i hlow hhigh => ?_⟩
      exact hmem i (by omega) (by omega)

/-- Writes behind a string leave it alone. -/
theorem HoldsAt.frame {mem : Memory} {p : Nat} {s : CString} (h : HoldsAt mem p s)
    {ws : List ByteWrite} (hws : ∀ w ∈ ws, p + s.length ≤ w.index) : HoldsAt (writeAll mem ws) p s := by
  refine h.congr fun i _ hi => writeAll_frame fun w hw => ?_
  have := hws w hw
  omega

theorem holdsAt_putString (mem : Memory) (p : Nat) (s : CString) :
    HoldsAt (writeAll mem (putString p s)) p s := by
  induction s generalizing mem p with
  | nil => trivial
  | cons b s ih =>
      refine ⟨?_, ih _ _⟩
      rw [putString, writeAll, writeAll_frame]
      · exact Function.update_self _ _ _
      · intro w hw
        have := index_of_mem_putString hw
        omega

theorem HoldsAt.putString {mem : Memory} {p : Nat} {s : CString} (h : HoldsAt mem p s) (t : CString) :
    HoldsAt (writeAll mem (putString (p + s.length) t)) p (s ++ t) :=
  holdsAt_append.2 ⟨h.frame fun _ hw => (index_of_mem_putString hw).1, holdsAt_putString mem _ t⟩

/-- A NUL written behind a string that ends leaves it alone, and so does one written over its end. -/
theorem HoldsAt.writeNul {mem : Memory} {s : CString} (h : HoldsAt mem 0 (s ++ [0])) {off : Nat}
    (hoff : s.length ≤ off) : HoldsAt (writeAll mem [{ index := off, byte := 0 }]) 0 (s ++ [0]) := by
  refine h.congr fun i _ hi => ?_
  by_cases heq : i = off
  · have hlast : mem s.length = 0 := by simpa using (holdsAt_append.1 h).2.1
    have hi' : i = s.length := by
      simp at hi
      omega
    subst heq
    simp [writeAll, hi', hlast]
  · exact Function.update_of_ne heq _ _

theorem readString_of_holdsAt {mem : Memory} {p : Nat} {s : CString} (h : HoldsAt mem p (s ++ [0]))
    (hnul : 0 ∉ s) {n : Nat} (hn : s.length < n) : readString mem p n = some s := by
  induction s generalizing p n with
  | nil =>
      obtain ⟨m, rfl⟩ := Nat.exists_eq_add_of_lt hn
      simp [readString, h.1]
  | cons b s ih =>
      cases n with
      | zero => simp at hn
      | succ n =>
          obtain ⟨hb, hrest⟩ := List.ne_and_not_mem_of_not_mem_cons hnul
          have htail := ih h.2 hrest (Nat.lt_of_succ_lt_succ hn)
          rw [readString, h.1, if_neg (Ne.symm hb), htail, Option.map_some]

end ObservableBSD.Base
