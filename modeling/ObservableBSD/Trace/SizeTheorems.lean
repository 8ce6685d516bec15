import ObservableBSD.Base.Word
import ObservableBSD.Trace.BufferSize

/-!
# Results about the size of the trace buffer
-/

namespace ObservableBSD.Trace

open Base

/-- The documented suffixes, in either case. -/
def suffixBytes? : CString → Option Nat
  | [] => some 1
  | [c] => if c = 107 ∨ c = 75 then some (2 ^ 10) else if c = 109 ∨ c = 77 then some (2 ^ 20)
      else if c = 103 ∨ c = 71 then some (2 ^ 30) else none
  | _ => none

/-- A positive decimal number with a suffix, and the bytes it stands for. -/
structure SizeRequest where
  digits : CString
  suffix : CString
  bytes : Nat
  digit : ∀ d ∈ digits, isDigit 10 d = true
  positive : 0 < numeralValue 10 digits
  suffixed : suffixBytes? suffix = some bytes

def SizeRequest.text (r : SizeRequest) : CString := r.digits ++ r.suffix

def SizeRequest.number (r : SizeRequest) : Nat := numeralValue 10 r.digits

def SizeRequest.size (r : SizeRequest) : Nat := r.number * r.bytes

/-- What is expected of the size that is allocated for a request. -/
structure SoundSize (r : SizeRequest) (bufsize : UInt64) : Prop where
  pages : bufsize.toNat % 4096 = 0
  enough : r.size ≤ bufsize.toNat

/-! ## The number -/

theorem suffixBytes?_cases {suffix : CString} {bytes : Nat} (h : suffixBytes? suffix = some bytes) :
    suffix = [] ∧ bytes = 1 ∨ (∃ c, suffix = [c] ∧ (c = 107 ∨ c = 75)) ∧ bytes = 2 ^ 10 ∨
    (∃ c, suffix = [c] ∧ (c = 109 ∨ c = 77)) ∧ bytes = 2 ^ 20 ∨
    (∃ c, suffix = [c] ∧ (c = 103 ∨ c = 71)) ∧ bytes = 2 ^ 30 := by
  unfold suffixBytes? at h
  split at h
  · exact .inl ⟨rfl, (Option.some.inj h).symm⟩
  · rename_i c
    split at h
    · exact .inr (.inl ⟨⟨c, rfl, ‹_›⟩, (Option.some.inj h).symm⟩)
    · split at h
      · exact .inr (.inr (.inl ⟨⟨c, rfl, ‹_›⟩, (Option.some.inj h).symm⟩))
      · split at h
        · exact .inr (.inr (.inr ⟨⟨c, rfl, ‹_›⟩, (Option.some.inj h).symm⟩))
        · cases h
  · cases h

theorem suffix_head {suffix : CString} {bytes : Nat} (h : suffixBytes? suffix = some bytes) :
    (∀ c, suffix.head? = some c → isDigit 10 c = false) ∧ (sizeMult suffix).toNat = bytes := by
  rcases suffixBytes?_cases h with ⟨rfl, rfl⟩ | ⟨⟨c, rfl, hc⟩, rfl⟩ | ⟨⟨c, rfl, hc⟩, rfl⟩ | ⟨⟨c, rfl, hc⟩, rfl⟩
  · exact ⟨fun _ hc => by simp at hc, rfl⟩
  all_goals
    rcases hc with rfl | rfl <;> exact ⟨fun c hc => by cases hc; rfl, rfl⟩

theorem strtol_digits {digits suffix : CString} (hne : digits ≠ []) (hd : ∀ d ∈ digits, isDigit 10 d = true)
    (hs : ∀ c, suffix.head? = some c → isDigit 10 c = false) :
    strtol (digits ++ suffix) = (Int64.ofInt (min (numeralValue 10 digits : Int) (2 ^ 63 - 1)), suffix) := by
  obtain ⟨d, t, rfl⟩ := List.exists_cons_of_ne_nil hne
  have hfirst := hd d List.mem_cons_self
  have hspace : (d :: t ++ suffix).dropWhile isSpace = d :: t ++ suffix := dropWhile_isSpace hfirst
  have hsign : signLength (d :: t ++ suffix) = 0 := signLength_digit hfirst
  have hfield : (d :: t ++ suffix).takeWhile (isDigit 10) = d :: t := takeWhile_field hd hs
  have hminus : ¬ (d :: t ++ suffix).head? = some 45 := by
    intro heq
    obtain rfl : d = 45 := by simpa using heq
    revert hfirst
    decide
  unfold strtol
  simp only [hspace, hsign, List.drop_zero, hfield, if_neg hne, if_neg hminus, Nat.zero_add, List.drop_left]

/-- `strtol` stops at its largest value, and the product wraps. -/
theorem toNat_parseSize (r : SizeRequest) :
    (parseSize r.text).toNat = min r.number (2 ^ 63 - 1) * r.bytes % UInt64.size := by
  obtain ⟨hhead, hmult⟩ := suffix_head r.suffixed
  have hne : r.digits ≠ [] := fun h => absurd r.positive (by rw [h]; decide)
  have hpos : 0 < r.number := r.positive
  have hlow : (-2 ^ 63 : Int) ≤ min (r.number : Int) (2 ^ 63 - 1) := by omega
  have hhigh : min (r.number : Int) (2 ^ 63 - 1) < 2 ^ 63 := by omega
  have hint := Int64.toInt_ofInt_of_le hlow hhigh
  have hval : ¬ Int64.ofInt (min (r.number : Int) (2 ^ 63 - 1)) ≤ 0 := by
    rw [Int64.le_iff_toInt_le, hint, Int64.toInt_zero]
    omega
  have hnat : (Int64.ofInt (min (r.number : Int) (2 ^ 63 - 1))).toUInt64.toNat = min r.number (2 ^ 63 - 1) := by
    rw [Int64.toNat_toUInt64_of_le (by rw [Int64.le_iff_toInt_le, hint, Int64.toInt_zero]; omega),
      Int64.toNatClampNeg_ofInt_of_le hlow hhigh]
    omega
  have hscan : strtol r.text = (Int64.ofInt (min (r.number : Int) (2 ^ 63 - 1)), r.suffix) :=
    strtol_digits hne r.digit hhead
  unfold parseSize
  rw [hscan]
  dsimp only
  rw [if_neg hval, UInt64.toNat_mul, hnat, hmult]

/-! ## The size -/

/-- The rounding adds nearly a page and drops the rest of the last one. -/
theorem toNat_hwtCtxAllocSize {bufsize : UInt64} (h : bufsize.toNat ≠ 0) :
    (hwtCtxAllocSize bufsize).toNat = (bufsize.toNat + 4095) % UInt64.size / 4096 * 4096 := by
  have hne : bufsize ≠ 0 := by
    rintro rfl
    exact h rfl
  have hsum : (bufsize + 4096 - 1).toNat = (bufsize.toNat + 4095) % UInt64.size := by
    have hlt := bufsize.toNat_lt
    have hone : (1 : UInt64).toNat = 1 := rfl
    have hpage : (4096 : UInt64).toNat = 4096 := rfl
    rw [UInt64.toNat_sub, UInt64.toNat_add, hone, hpage]
    simp only [UInt64.size]
    omega
  have hround := toNat_and_not_mask (bufsize + 4096 - 1) (show 12 ≤ 64 by decide)
  rw [hsum] at hround
  unfold hwtCtxAllocSize
  rw [if_neg hne]
  exact hround

theorem hwtCtxAllocSize_pages (bufsize : UInt64) : (hwtCtxAllocSize bufsize).toNat % 4096 = 0 := by
  by_cases h : bufsize.toNat = 0
  · obtain rfl : bufsize = 0 := UInt64.toNat_inj.mp h
    decide
  · rw [toNat_hwtCtxAllocSize h]
    exact Nat.mul_mod_left ..

/-- A request is met exactly when it is, rounded up, a 64-bit number and its own number is at most the first
that `strtol` stops before. -/
theorem hwtCtxAllocSize_sound_iff (r : SizeRequest) :
    SoundSize r (hwtCtxAllocSize (parseSize r.text)) ↔ r.number ≤ 2 ^ 63 ∧ r.size ≤ 2 ^ 64 - 4096 := by
  have hpages := hwtCtxAllocSize_pages (parseSize r.text)
  have hpos : 0 < r.number := r.positive
  have hsize : r.size = r.number * r.bytes := rfl
  have hparse := toNat_parseSize r
  have hcases := suffixBytes?_cases r.suffixed
  suffices henough : r.size ≤ (hwtCtxAllocSize (parseSize r.text)).toNat ↔
      r.number ≤ 2 ^ 63 ∧ r.size ≤ 2 ^ 64 - 4096 from
    ⟨fun h => henough.mp h.enough, fun h => ⟨hpages, henough.mpr h⟩⟩
  simp only [UInt64.size] at hparse
  rw [hsize]
  by_cases hzero : (parseSize r.text).toNat = 0
  · have hdefault : (hwtCtxAllocSize (parseSize r.text)).toNat = 2 ^ 26 := by
      rw [UInt64.toNat_inj.mp (show _ = (0 : UInt64).toNat from hzero)]
      rfl
    rw [hdefault]
    rcases hcases with ⟨_, h⟩ | ⟨_, h⟩ | ⟨_, h⟩ | ⟨_, h⟩ <;> rw [h] at hparse ⊢ <;> omega
  · rw [toNat_hwtCtxAllocSize hzero]
    simp only [UInt64.size]
    rcases hcases with ⟨_, h⟩ | ⟨_, h⟩ | ⟨_, h⟩ | ⟨_, h⟩ <;> rw [h] at hparse ⊢ <;> omega

/-- `17179869184g` are 16 EiB. -/
private def exbibytes : SizeRequest where
  digits := cstr "17179869184"
  suffix := cstr "g"
  bytes := 2 ^ 30
  digit := List.all_eq_true.mp rfl
  positive := by decide
  suffixed := by decide

/-- The product is 0, and the default of 64 MiB is allocated. -/
theorem exbibytes_not_sound : ¬ ∀ r : SizeRequest, SoundSize r (hwtCtxAllocSize (parseSize r.text)) := by
  intro h
  have hparse : parseSize exbibytes.text = 0 := by decide
  have hsize : hwtCtxAllocSize 0 = 67108864 := by decide
  have henough := (h exbibytes).enough
  rw [hparse, hsize] at henough
  revert henough
  decide

end ObservableBSD.Trace
