import Mathlib.Data.Nat.Digits.Lemmas
import ObservableBSD.Base.Memory

/-!
# Numerals

Numbers in text, as the C library and the Swift library print and read them, in a radix of at most 36.
-/

namespace ObservableBSD.Base

/-- The digit of a code point, in either case, when it is less than the radix. -/
def digitValue? (radix code : Nat) : Option Nat :=
  let v := if 48 ≤ code ∧ code ≤ 57 then code - 48 else if 97 ≤ code ∧ code ≤ 122 then code - 87
    else if 65 ≤ code ∧ code ≤ 90 then code - 55 else radix
  if v < radix then some v else none

def digitByte (d : Nat) : UInt8 := if d < 10 then UInt8.ofNat (48 + d) else UInt8.ofNat (87 + d)

/-- The shortest numeral, in lower case. -/
def numeral (radix n : Nat) : CString :=
  if n = 0 then [48] else ((Nat.digits radix n).map digitByte).reverse

/-- `%d`. -/
def intNumeral (v : Int) : CString := if v < 0 then 45 :: numeral 10 v.natAbs else numeral 10 v.natAbs

def isDigit (radix : Nat) (c : UInt8) : Bool := (digitValue? radix c.toNat).isSome

def numeralValue (radix : Nat) (s : CString) : Nat :=
  s.foldl (fun n c => n * radix + (digitValue? radix c.toNat).getD 0) 0

variable {radix n d : Nat}

theorem digitValue?_digitByte (hr : radix ≤ 36) (hd : d < radix) :
    digitValue? radix (digitByte d).toNat = some d := by
  unfold digitByte
  split
  · rename_i h
    have hmod : (48 + d) % 2 ^ 8 = 48 + d := Nat.mod_eq_of_lt (by omega)
    have hrange : 48 ≤ 48 + d ∧ 48 + d ≤ 57 := by omega
    simp only [UInt8.toNat_ofNat', hmod, digitValue?, hrange, and_self, if_true, Nat.add_sub_cancel_left, hd]
  · rename_i h
    have hmod : (87 + d) % 2 ^ 8 = 87 + d := Nat.mod_eq_of_lt (by omega)
    have hnot : ¬ (48 ≤ 87 + d ∧ 87 + d ≤ 57) := by omega
    have hrange : 97 ≤ 87 + d ∧ 87 + d ≤ 122 := by omega
    simp only [UInt8.toNat_ofNat', hmod, digitValue?, hnot, hrange, and_self, if_true, if_false,
      Nat.add_sub_cancel_left, hd]

theorem numeralValue_reverse (hr : radix ≤ 36) {ds : List Nat} (hds : ∀ d ∈ ds, d < radix) :
    numeralValue radix (ds.map digitByte).reverse = Nat.ofDigits radix ds := by
  induction ds with
  | nil => rfl
  | cons d ds ih =>
      rw [List.map_cons, List.reverse_cons, numeralValue, List.foldl_append, Nat.ofDigits_cons]
      have hrest : numeralValue radix (ds.map digitByte).reverse = Nat.ofDigits radix ds :=
        ih fun e he => hds e (List.mem_cons_of_mem _ he)
      unfold numeralValue at hrest
      simp only [hrest, List.foldl_cons, List.foldl_nil, digitValue?_digitByte hr (hds d List.mem_cons_self),
        Option.getD_some]
      ring

theorem numeralValue_numeral (h2 : 2 ≤ radix) (hr : radix ≤ 36) (n : Nat) :
    numeralValue radix (numeral radix n) = n := by
  unfold numeral
  split
  · rename_i h
    have h0 : digitValue? radix 48 = some 0 := digitValue?_digitByte hr (by omega : 0 < radix)
    simp [numeralValue, h0, h]
  · rw [numeralValue_reverse hr fun d hd => Nat.digits_lt_base h2 hd]
    exact Nat.ofDigits_digits radix n

theorem numeralValue_append (s t : CString) :
    numeralValue radix (s ++ t) = numeralValue radix s * radix ^ t.length + numeralValue radix t := by
  have hfrom : ∀ m, t.foldl (fun n c => n * radix + (digitValue? radix c.toNat).getD 0) m =
      m * radix ^ t.length + numeralValue radix t := by
    induction t with
    | nil => simp [numeralValue]
    | cons c t ih =>
        intro m
        simp only [numeralValue, List.foldl_cons, List.length_cons] at ih ⊢
        rw [ih, ih (0 * radix + _)]
        ring
  rw [numeralValue, List.foldl_append, hfrom]
  rfl

theorem isDigit_of_mem_numeral (h2 : 2 ≤ radix) (hr : radix ≤ 36) {c : UInt8} (hc : c ∈ numeral radix n) :
    isDigit radix c = true := by
  have hbyte : ∀ d, d < radix → isDigit radix (digitByte d) = true := by
    intro d hd
    simp [isDigit, digitValue?_digitByte hr hd]
  unfold numeral at hc
  split at hc
  · obtain rfl := List.mem_singleton.mp hc
    exact hbyte 0 (by omega)
  · obtain ⟨d, hd, rfl⟩ := List.mem_map.mp (List.mem_reverse.mp hc)
    exact hbyte d (Nat.digits_lt_base h2 hd)

theorem numeral_ne_nil (radix n : Nat) : numeral radix n ≠ [] := by
  unfold numeral
  split
  · exact List.cons_ne_nil _ _
  · rename_i h
    simpa using Nat.digits_ne_nil_iff_ne_zero.mpr h

theorem length_numeral_le {k : Nat} (h2 : 2 ≤ radix) (hk : 1 ≤ k) (hn : n < radix ^ k) :
    (numeral radix n).length ≤ k := by
  unfold numeral
  split
  · exact hk
  · rw [List.length_reverse, List.length_map]
    exact (Nat.digits_length_le_iff h2 n).mpr hn

theorem isDigit_plain {c : UInt8} (h : isDigit radix c = true) : 48 ≤ c.toNat := by
  unfold isDigit digitValue? at h
  by_contra hlt
  have h1 : ¬ (48 ≤ c.toNat ∧ c.toNat ≤ 57) := by omega
  have h2 : ¬ (97 ≤ c.toNat ∧ c.toNat ≤ 122) := by omega
  have h3 : ¬ (65 ≤ c.toNat ∧ c.toNat ≤ 90) := by omega
  simp [h1, h2, h3] at h

theorem length_intNumeral_le {k : Nat} {v : Int} (hk : 1 ≤ k) (hv : v.natAbs < 10 ^ k) :
    (intNumeral v).length ≤ k + 1 := by
  have hlen : (numeral 10 v.natAbs).length ≤ k := length_numeral_le (by omega) hk hv
  unfold intNumeral
  split
  · rw [List.length_cons]
    omega
  · omega

/-! ## Printable text -/

def Printable (s : CString) : Prop := ∀ c ∈ s, 32 ≤ c.toNat

instance (s : CString) : Decidable (Printable s) := inferInstanceAs (Decidable (∀ c ∈ s, _))

theorem printable_of_all {s : CString} (h : s.all (fun c => 32 ≤ c.toNat) = true) : Printable s :=
  fun c hc => by simpa using List.all_eq_true.1 h c hc

theorem Printable.not_newline {s : CString} (h : Printable s) : 10 ∉ s := fun hmem => absurd (h 10 hmem) (by decide)

theorem Printable.append {s t : CString} (hs : Printable s) (ht : Printable t) : Printable (s ++ t) := by
  intro c hc
  rcases List.mem_append.mp hc with hc | hc
  · exact hs c hc
  · exact ht c hc

theorem printable_numeral (h2 : 2 ≤ radix) (hr : radix ≤ 36) (n : Nat) : Printable (numeral radix n) := by
  intro c hc
  have hge := isDigit_plain (isDigit_of_mem_numeral h2 hr hc)
  omega

theorem printable_intNumeral (v : Int) : Printable (intNumeral v) := by
  have hdigits : Printable (numeral 10 v.natAbs) := printable_numeral (by omega) (by omega) _
  unfold intNumeral
  split
  · intro c hc
    rcases List.mem_cons.mp hc with rfl | hc
    · decide
    · exact hdigits c hc
  · exact hdigits

/-- Printable text of at most `n` bytes. -/
structure Fits (n : Nat) (s : CString) : Prop where
  printable : Printable s
  short : s.length ≤ n

theorem Printable.fits {s : CString} (h : Printable s) : Fits s.length s := ⟨h, Nat.le_refl _⟩

theorem fits_of_all {s : CString} (h : s.all (fun c => 32 ≤ c.toNat) = true) : Fits s.length s :=
  (printable_of_all h).fits

theorem Fits.append {m n : Nat} {s t : CString} (hs : Fits m s) (ht : Fits n t) : Fits (m + n) (s ++ t) := by
  refine ⟨hs.printable.append ht.printable, ?_⟩
  rw [List.length_append]
  exact Nat.add_le_add hs.short ht.short

theorem Fits.mono {m n : Nat} {s : CString} (h : Fits m s) (hle : m ≤ n) : Fits n s :=
  ⟨h.printable, Nat.le_trans h.short hle⟩

theorem fits_numeral {k : Nat} (h2 : 2 ≤ radix) (hr : radix ≤ 36) (hk : 1 ≤ k) (hn : n < radix ^ k) :
    Fits k (numeral radix n) :=
  ⟨printable_numeral h2 hr n, length_numeral_le h2 hk hn⟩

theorem fits_hex (v : UInt64) : Fits 16 (numeral 16 v.toNat) :=
  fits_numeral (by omega) (by omega) (by omega) v.toNat_lt

theorem fits_int32 (v : Int32) : Fits 11 (intNumeral v.toInt) := by
  have hlow := v.le_toInt
  have hhigh := v.toInt_lt
  exact ⟨printable_intNumeral _, length_intNumeral_le (by omega) (by omega)⟩

theorem fits_uint8 (v : UInt8) : Fits 3 (numeral 10 v.toNat) := by
  have hlt := v.toNat_lt
  exact fits_numeral (by omega) (by omega) (by omega) (by omega)

end ObservableBSD.Base
