import Mathlib.Data.List.DropRight
import ObservableBSD.Base.Stdio

/-!
# Reading a line from its ends

A fixed text or a numeral at the front or at the end of a string, and what is left of the string without it.
-/

namespace ObservableBSD.Base

variable {s t u : CString} {c : UInt8}

def stripPrefix? (t s : CString) : Option CString := if t <+: s then some (s.drop t.length) else none

def stripSuffix? (t s : CString) : Option CString := if t <:+ s then some (s.take (s.length - t.length)) else none

@[simp] theorem stripPrefix?_append (t s : CString) : stripPrefix? t (t ++ s) = some s := by
  simp [stripPrefix?]

@[simp] theorem stripSuffix?_append (s t : CString) : stripSuffix? t (s ++ t) = some s := by
  simp [stripSuffix?]

/-- Two texts that part before the end of either. -/
structure EndsApart (t u : CString) : Prop where
  not_suffix : ¬ t <:+ u
  not_longer : ¬ u <:+ t

instance (t u : CString) : Decidable (EndsApart t u) := decidable_of_iff (¬ t <:+ u ∧ ¬ u <:+ t)
  ⟨fun h => ⟨h.1, h.2⟩, fun h => ⟨h.not_suffix, h.not_longer⟩⟩

theorem EndsApart.stripSuffix? (h : EndsApart t u) (s : CString) : stripSuffix? t (s ++ u) = none := by
  refine if_neg fun hsuffix => ?_
  rcases List.suffix_or_suffix_of_suffix hsuffix (List.suffix_append s u) with htu | hut
  · exact h.not_suffix htu
  · exact h.not_longer hut

/-! ## Numerals -/

def readNumeral? (s : CString) : Option (Nat × CString) :=
  let digits := s.takeWhile (isDigit 10)
  if digits = [] then none else some (numeralValue 10 digits, s.dropWhile (isDigit 10))

def readNumeralBack? (s : CString) : Option (CString × Nat) :=
  let digits := s.rtakeWhile (isDigit 10)
  if digits = [] then none else some (s.rdropWhile (isDigit 10), numeralValue 10 digits)

theorem dropWhile_field {p : UInt8 → Bool} (h : ∀ d ∈ t, p d = true) (hs : ∀ c, s.head? = some c → p c = false) :
    (t ++ s).dropWhile p = s := by
  rw [List.dropWhile_append_of_pos h]
  cases s with
  | nil => rfl
  | cons c s => rw [List.dropWhile_cons_of_neg (by simp [hs c rfl])]

theorem readNumeral?_numeral (n : Nat) (h : ∀ c, s.head? = some c → isDigit 10 c = false) :
    readNumeral? (numeral 10 n ++ s) = some (n, s) := by
  have hdigits : ∀ d ∈ numeral 10 n, isDigit 10 d = true := fun d hd => isDigit_of_mem_numeral (by omega) (by omega) hd
  unfold readNumeral?
  simp only [takeWhile_field hdigits h, dropWhile_field hdigits h, if_neg (numeral_ne_nil 10 n),
    numeralValue_numeral (by omega : 2 ≤ 10) (by omega : 10 ≤ 36)]

theorem readNumeralBack?_numeral (n : Nat) (h : ∀ c, s.getLast? = some c → isDigit 10 c = false) :
    readNumeralBack? (s ++ numeral 10 n) = some (s, n) := by
  have hdigits : ∀ d ∈ (numeral 10 n).reverse, isDigit 10 d = true := fun d hd =>
    isDigit_of_mem_numeral (by omega) (by omega) (List.mem_reverse.mp hd)
  have hlast : ∀ c, s.reverse.head? = some c → isDigit 10 c = false := fun c hc => h c (by rwa [← List.head?_reverse])
  unfold readNumeralBack? List.rtakeWhile List.rdropWhile
  rw [List.reverse_append, takeWhile_field hdigits hlast, dropWhile_field hdigits hlast, List.reverse_reverse,
    List.reverse_reverse]
  simp only [if_neg (numeral_ne_nil 10 n), numeralValue_numeral (by omega : 2 ≤ 10) (by omega : 10 ≤ 36)]

end ObservableBSD.Base
