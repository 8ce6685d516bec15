import Mathlib.Data.List.Forall2
import ObservableBSD.Base.Word
import ObservableBSD.Elf.Resolve

/-!
# What range filters are made of

One range comes from each argument, from its text or from a symbol.
-/

namespace ObservableBSD.Elf

open Base Trace

variable {arg low high : CString} {spec : RangeSpec} {specs : List RangeSpec} {range : IpRange} {ranges : List IpRange}
  {out : List IpRange} {files : Files} {path : CString} {slide : Int64} {start endAddr : UInt64}

/-! ## Address arguments -/

def HexText (s : CString) : Prop := s ≠ [] ∧ ∀ d ∈ s, isDigit 16 d = true

theorem hexText_of_all {s : CString} (hne : s ≠ []) (h : s.all (isDigit 16) = true) : HexText s :=
  ⟨hne, List.all_eq_true.mp h⟩

/-- The form that the usage gives for addresses. -/
def addrText (low high : CString) : CString := cstr "0x" ++ (low ++ (cstr ":0x" ++ high))

/-- The text that is taken for addresses and not for the name of a symbol. -/
def ScansAsAddr (inner : CString) : Prop := ∃ start endAddr, sscanf rangeFormat inner = [.long start, .long endAddr]

/-- A field has at most 512 digits. What is behind it stops the scan of the first number, but not of the second. -/
theorem sscanf_addrText (hlow : HexText low) (hhigh : HexText high)
    (h : sscanf rangeFormat (addrText low high) = [.long start, .long endAddr]) :
    low.length ≤ 512 ∧ start = hexLongOf (numeralValue 16 low) ∧
      endAddr = hexLongOf (numeralValue 16 (high.take 512)) := by
  have hcolon : ∀ c, (cstr ":0x" ++ high).head? = some c → isDigit 16 c = false ∧ c ≠ 120 ∧ c ≠ 88 := by
    intro c hc
    obtain rfl : (58 : UInt8) = c := Option.some.inj hc
    decide
  have hlast := @scanHexLong_field [] high hhigh.1 hhigh.2 fun c hc => by cases hc
  rw [List.append_nil, List.append_nil] at hlast
  unfold rangeFormat addrText at h
  rw [sscanf_literal, sscanf, scanHexLong_field hlow.1 hlow.2 hcolon] at h
  dsimp only at h
  cases hdrop : low.drop 512 with
  | nil =>
      have hlen : low.length ≤ 512 := List.drop_eq_nil_iff.mp hdrop
      rw [hdrop, List.nil_append, sscanf_literal, sscanf, hlast, List.take_of_length_le hlen] at h
      simp only [sscanf, List.cons.injEq, Scanned.long.injEq, and_true] at h
      exact ⟨hlen, h.1.symm, h.2.symm⟩
  | cons d rest =>
      have hd : isDigit 16 d = true := hlow.2 d (List.mem_of_mem_drop (hdrop ▸ List.mem_cons_self))
      have hne : (58 : UInt8) ≠ d := by
        rintro rfl
        revert hd
        decide
      have hmiss : afterLiteral (cstr ":0x") (d :: rest ++ (cstr ":0x" ++ high)) = none :=
        afterLiteral_mismatch [] hne
      rw [hdrop, sscanf_literal_none hmiss] at h
      cases h

theorem toNat_hexLongOf_eq_iff {digits : CString}
    (hpos : 0 < (hexLongOf (numeralValue 16 (digits.take 512))).toNat) :
    (hexLongOf (numeralValue 16 (digits.take 512))).toNat = numeralValue 16 digits ↔
      digits.length ≤ 512 ∧ numeralValue 16 digits < UInt64.size := by
  have hsize : UInt64.size = 18446744073709551616 := rfl
  rw [toNat_hexLongOf] at hpos ⊢
  constructor
  · intro h
    have hlen : digits.length ≤ 512 := by
      by_contra hlong
      have hdrop : 0 < (digits.drop 512).length := by
        rw [List.length_drop]
        omega
      have hpow : 16 ≤ 16 ^ (digits.drop 512).length := Nat.le_self_pow hdrop.ne' 16
      have hsplit := @numeralValue_append 16 (digits.take 512) (digits.drop 512)
      have hmul := Nat.mul_le_mul_left (numeralValue 16 (digits.take 512)) hpow
      rw [List.take_append_drop] at hsplit
      omega
    rw [List.take_of_length_le hlen] at h
    exact ⟨hlen, by omega⟩
  · rintro ⟨hlen, hlt⟩
    rw [List.take_of_length_le hlen]
    omega

/-! ## One range for each argument -/

/-- The two ways that an argument is accepted. -/
theorem parseRangeSpec_cases (h : parseRangeSpec arg = some spec) :
    (∃ start endAddr, sscanf rangeFormat (rangeArg arg).1 = [.long start, .long endAddr] ∧
      spec = { type := .addr, start, endAddr, mode := (rangeArg arg).2 }) ∨
    ¬ ScansAsAddr (rangeArg arg).1 ∧ spec.type = .symbol ∧ spec.symbol = (rangeArg arg).1 ∧
      spec.mode = (rangeArg arg).2 := by
  unfold parseRangeSpec at h
  dsimp only at h
  split at h
  · rename_i start endAddr hscan
    exact .inl ⟨start, endAddr, hscan, (Option.some.inj h).symm⟩
  · rename_i hscan
    refine .inr ⟨fun ⟨start, endAddr, heq⟩ => hscan start endAddr heq, ?_⟩
    split at h
    · cases h
    · split at h
      · cases h
      · obtain rfl := Option.some.inj h
        exact ⟨rfl, rfl, rfl⟩

/-- The range that one turn of the loop adds. -/
def resolveSpec (files : Files) (path : CString) (slide : Int64) (spec : RangeSpec) : Option IpRange :=
  match spec.type with
  | .addr => some ⟨spec.start, spec.endAddr, spec.mode⟩
  | .symbol => (resolveSymbolInElf files path slide spec.symbol).map fun r => ⟨r.1, r.2, spec.mode⟩

theorem resolveLoop_eq (h : resolveLoop files path slide specs ranges = some out) (hle : ranges.length ≤ maxRanges) :
    out.length ≤ maxRanges ∧ ∃ added, out = ranges ++ added ∧
      List.Forall₂ (fun spec range => resolveSpec files path slide spec = some range) specs added := by
  induction specs generalizing ranges with
  | nil =>
      obtain rfl := Option.some.inj h
      exact ⟨hle, [], (List.append_nil _).symm, .nil⟩
  | cons spec specs ih =>
      rw [resolveLoop] at h
      split at h
      · cases h
      · rename_i hroom
        have hnext : ∀ range : IpRange, (ranges ++ [range]).length ≤ maxRanges := by
          intro range
          rw [List.length_append, List.length_singleton]
          omega
        have hadd : ∀ {range : IpRange}, resolveSpec files path slide spec = some range →
            resolveLoop files path slide specs (ranges ++ [range]) = some out → out.length ≤ maxRanges ∧
            ∃ added, out = ranges ++ added ∧
              List.Forall₂ (fun spec range => resolveSpec files path slide spec = some range)
                (spec :: specs) added := by
          intro range hspec hloop
          obtain ⟨hlen, added, rfl, hadded⟩ := ih hloop (hnext range)
          exact ⟨hlen, range :: added, by simp, .cons hspec hadded⟩
        split at h
        · rename_i htype
          exact hadd (by simp only [resolveSpec, htype]) h
        · rename_i htype
          split at h
          · cases h
          · rename_i hsym
            exact hadd (by simp only [resolveSpec, htype, hsym, Option.map_some]) h

variable {vmmap : Option (List KinfoVmentry)} {exePath : Option CString} {isExecMode aslr : Bool}

/-- A symbol is looked up in the executable, with the slide of the process. -/
theorem resolveRangeSpecs_eq (h : resolveRangeSpecs files specs vmmap exePath isExecMode = some (ranges, aslr)) :
    ranges.length ≤ maxRanges ∧ ∃ path slide,
      ((∃ spec ∈ specs, spec.type = .symbol) → exePath = some path ∧
        computeSlide files path vmmap isExecMode = some (slide, aslr)) ∧
      List.Forall₂ (fun spec range => resolveSpec files path slide spec = some range) specs ranges := by
  have hloop : ∀ {path slide}, resolveLoop files path slide specs [] = some ranges → ranges.length ≤ maxRanges ∧
      List.Forall₂ (fun spec range => resolveSpec files path slide spec = some range) specs ranges := by
    intro path slide hloop
    obtain ⟨hlen, added, hadded, hall⟩ := resolveLoop_eq hloop (Nat.zero_le _)
    rw [List.nil_append] at hadded
    exact ⟨hlen, hadded ▸ hall⟩
  unfold resolveRangeSpecs at h
  split at h
  · split at h
    · cases h
    · rename_i exe
      split at h
      · cases h
      · split at h
        · cases h
        · rename_i slide _ hslide
          obtain ⟨_, hrest, heq⟩ := Option.map_eq_some_iff.mp h
          cases heq
          obtain ⟨hlen, hall⟩ := hloop hrest
          exact ⟨hlen, exe, slide, fun _ => ⟨rfl, hslide⟩, hall⟩
  · rename_i hnone
    obtain ⟨_, hrest, heq⟩ := Option.map_eq_some_iff.mp h
    cases heq
    obtain ⟨hlen, hall⟩ := hloop hrest
    refine ⟨hlen, [], 0, fun ⟨spec, hmem, htype⟩ => absurd ?_ hnone, hall⟩
    exact List.any_eq_true.mpr ⟨spec, hmem, by simpa using htype⟩

/-! ## Symbols -/

/-- The size of a function; one without a size stands for a page. -/
def funcSize (sym : GElfSym) : UInt64 := if 0 < sym.size then sym.size else unknownSizeFallback

theorem funcSize_pos (sym : GElfSym) : 0 < funcSize sym := by
  unfold funcSize
  split
  · assumption
  · decide

theorem resolveSymbolInElf_eq {name : CString} {r : UInt64 × UInt64}
    (h : resolveSymbolInElf files path slide name = some r) :
    ∃ elf sym, files path = some elf ∧ elfFindSym elf name = some sym ∧
      r = (slideAddr sym.value slide, slideAddr sym.value slide + funcSize sym) := by
  unfold resolveSymbolInElf at h
  split at h
  · cases h
  · rename_i elf hfile
    split at h
    · cases h
    · rename_i sym hsym
      have hslide : ∀ size, slideAddr (sym.value + size) slide = slideAddr sym.value slide + size :=
        fun size => by simp only [slideAddr, UInt64.add_assoc, UInt64.add_comm size]
      refine ⟨elf, sym, hfile, hsym, ?_⟩
      rw [← Option.some.inj h, funcSize, hslide, hslide]
      split <;> rfl

end ObservableBSD.Elf
