import ObservableBSD.Elf.Lemmas.Filter

/-!
# Results about range filters
-/

namespace ObservableBSD.Elf

open Base Trace

variable {arg : CString} {spec : RangeSpec} {range : IpRange} {files : Files} {path : CString} {slide : Int64}
  {vmmap : Option (List KinfoVmentry)} {exePath : Option CString} {isExecMode aslr : Bool}

/-- What is expected of the range of an argument. An address argument is one that is accepted as such. -/
structure RangeOf (arg : CString) (range : IpRange) : Prop where
  mode : range.mode = (rangeArg arg).2
  lt : range.start < range.endAddr
  text : (∃ spec, parseRangeSpec arg = some spec ∧ spec.type = .addr) →
    ∃ low high, HexText low ∧ HexText high ∧ (rangeArg arg).1 = addrText low high ∧
      range.start.toNat = numeralValue 16 low ∧ range.endAddr.toNat = numeralValue 16 high

structure WellFormedFilter (args : List CString) (ranges : List IpRange) : Prop where
  count : ranges.length ≤ 2
  each : List.Forall₂ RangeOf args ranges

/-- The arguments that the filter is right for: addresses that are nothing but two numbers, in order and each in
64 bits, and functions that end below the end of the address space. -/
structure SoundArg (files : Files) (vmmap : Option (List KinfoVmentry)) (exePath : Option CString) (isExecMode : Bool)
    (arg : CString) : Prop where
  addr : ScansAsAddr (rangeArg arg).1 → ∃ low high, HexText low ∧ HexText high ∧ high.length ≤ 512 ∧
    (rangeArg arg).1 = addrText low high ∧ numeralValue 16 low < numeralValue 16 high ∧
    numeralValue 16 high < UInt64.size
  symbol : ¬ ScansAsAddr (rangeArg arg).1 → ∀ path slide aslr elf sym, exePath = some path →
    computeSlide files path vmmap isExecMode = some (slide, aslr) → files path = some elf →
    elfFindSym elf (rangeArg arg).1 = some sym →
    (slideAddr sym.value slide).toNat + (funcSize sym).toNat < UInt64.size

theorem rangeOf_addr_iff {start endAddr : UInt64}
    (hscan : sscanf rangeFormat (rangeArg arg).1 = [.long start, .long endAddr])
    (hparse : parseRangeSpec arg = some spec)
    (hspec : spec = { type := .addr, start, endAddr, mode := (rangeArg arg).2 })
    (hrange : resolveSpec files path slide spec = some range) :
    RangeOf arg range ↔ SoundArg files vmmap exePath isExecMode arg := by
  subst hspec
  obtain rfl : _ = range := Option.some.inj hrange
  have hvalues : ∀ {low high}, HexText low → HexText high → (rangeArg arg).1 = addrText low high →
      start = hexLongOf (numeralValue 16 low) ∧ endAddr = hexLongOf (numeralValue 16 (high.take 512)) :=
    fun hlow hhigh htext => (sscanf_addrText hlow hhigh (htext ▸ hscan)).2
  constructor
  · intro h
    refine ⟨fun _ => ?_, fun hnot => absurd ⟨start, endAddr, hscan⟩ hnot⟩
    obtain ⟨low, high, hlow, hhigh, htext, hstart, hend⟩ := h.text ⟨_, hparse, rfl⟩
    have hlt : start.toNat < endAddr.toNat := h.lt
    obtain ⟨_, rfl⟩ := hvalues hlow hhigh htext
    obtain ⟨hlen, hsize⟩ := (toNat_hexLongOf_eq_iff (by omega)).mp hend
    exact ⟨low, high, hlow, hhigh, hlen, htext, by rw [← hstart, ← hend]; exact hlt, hsize⟩
  · intro h
    obtain ⟨low, high, hlow, hhigh, hlen, htext, hlt, hsize⟩ := h.addr ⟨start, endAddr, hscan⟩
    obtain ⟨rfl, rfl⟩ := hvalues hlow hhigh htext
    have hsize' : UInt64.size = 18446744073709551616 := rfl
    have hstart : (hexLongOf (numeralValue 16 low)).toNat = numeralValue 16 low := by
      rw [toNat_hexLongOf]
      omega
    have hend : (hexLongOf (numeralValue 16 (high.take 512))).toNat = numeralValue 16 high := by
      rw [toNat_hexLongOf, List.take_of_length_le hlen]
      omega
    refine ⟨rfl, ?_, fun _ => ⟨low, high, hlow, hhigh, htext, hstart, hend⟩⟩
    show hexLongOf _ < hexLongOf _
    rw [UInt64.lt_iff_toNat_lt, hstart, hend]
    exact hlt

theorem rangeOf_symbol_iff (hnot : ¬ ScansAsAddr (rangeArg arg).1) (hparse : parseRangeSpec arg = some spec)
    (htype : spec.type = .symbol) (hsymbol : spec.symbol = (rangeArg arg).1) (hmode : spec.mode = (rangeArg arg).2)
    (hpath : exePath = some path) (hslide : computeSlide files path vmmap isExecMode = some (slide, aslr))
    (hrange : resolveSpec files path slide spec = some range) :
    RangeOf arg range ↔ SoundArg files vmmap exePath isExecMode arg := by
  simp only [resolveSpec, htype, hsymbol, hmode] at hrange
  obtain ⟨r, hresolve, rfl⟩ := Option.map_eq_some_iff.mp hrange
  obtain ⟨elf, sym, hfile, hsym, rfl⟩ := resolveSymbolInElf_eq hresolve
  have hlt := @lt_add_iff (slideAddr sym.value slide) (funcSize sym) (funcSize_pos sym)
  constructor
  · intro h
    refine ⟨fun haddr => absurd haddr hnot, fun _ path' slide' aslr' elf' sym' hpath' hslide' hfile' hsym' => ?_⟩
    obtain rfl := Option.some.inj (hpath.symm.trans hpath')
    obtain ⟨rfl, _⟩ := Prod.mk.inj (Option.some.inj (hslide.symm.trans hslide'))
    obtain rfl := Option.some.inj (hfile.symm.trans hfile')
    obtain rfl := Option.some.inj (hsym.symm.trans hsym')
    exact hlt.mp h.lt
  · intro h
    refine ⟨rfl, hlt.mpr (h.symbol hnot path slide aslr elf sym hpath hslide hfile hsym), ?_⟩
    rintro ⟨spec', hspec', htype'⟩
    obtain rfl := Option.some.inj (hparse.symm.trans hspec')
    rw [htype] at htype'
    cases htype'

theorem forall₂_of_mapM {α β : Type} {f : α → Option β} {as : List α} {bs : List β} (h : as.mapM f = some bs) :
    List.Forall₂ (fun a b => f a = some b) as bs := by
  induction as generalizing bs with
  | nil =>
      obtain rfl := Option.some.inj h
      exact .nil
  | cons a as ih =>
      rw [List.mapM_cons] at h
      obtain ⟨b, hb, h⟩ := Option.bind_eq_some_iff.mp h
      obtain ⟨bs, hbs, h⟩ := Option.bind_eq_some_iff.mp h
      obtain rfl := Option.some.inj h
      exact .cons hb (ih hbs)

/-- An accepted filter is well formed exactly when each of its arguments is sound. -/
theorem resolveRangeSpecs_wellFormed_iff {args : List CString} {specs : List RangeSpec} {ranges : List IpRange}
    (hparse : args.mapM parseRangeSpec = some specs)
    (hresolve : resolveRangeSpecs files specs vmmap exePath isExecMode = some (ranges, aslr)) :
    WellFormedFilter args ranges ↔ ∀ arg ∈ args, SoundArg files vmmap exePath isExecMode arg := by
  obtain ⟨hlen, path, slide, hsymbol, hall⟩ := resolveRangeSpecs_eq hresolve
  have hspecs := forall₂_of_mapM hparse
  suffices heach : List.Forall₂ RangeOf args ranges ↔ ∀ arg ∈ args, SoundArg files vmmap exePath isExecMode arg from
    ⟨fun h => heach.mp h.each, fun h => ⟨hlen, heach.mpr h⟩⟩
  clear hlen hresolve hparse
  induction hspecs generalizing ranges with
  | nil =>
      cases hall
      simp
  | @cons arg spec args specs hspec _ ih =>
      cases hall with
      | @cons _ range _ ranges hrange hrest =>
      have hone : RangeOf arg range ↔ SoundArg files vmmap exePath isExecMode arg := by
        rcases parseRangeSpec_cases hspec with ⟨start, endAddr, hscan, heq⟩ | ⟨hnot, htype, hname, hmode⟩
        · exact rangeOf_addr_iff hscan hspec heq hrange
        · obtain ⟨hpath, hslide⟩ := hsymbol ⟨spec, List.mem_cons_self, htype⟩
          exact rangeOf_symbol_iff hnot hspec htype hname hmode hpath hslide hrange
      have htail := ih (fun ⟨s, hs, ht⟩ => hsymbol ⟨s, List.mem_cons_of_mem _ hs, ht⟩) hrest
      rw [List.forall₂_cons, hone, htail, List.forall_mem_cons]

private def noFiles : Files := fun _ => none

theorem stopRange_wellFormed : WellFormedFilter [cstr "stop:0x1000:0x2000"] [⟨4096, 8192, 2⟩] := by
  have hparse : [cstr "stop:0x1000:0x2000"].mapM parseRangeSpec = some [⟨.addr, 4096, 8192, [], 2⟩] := by decide
  have hresolve : resolveRangeSpecs noFiles [⟨.addr, 4096, 8192, [], 2⟩] none none true =
      some ([⟨4096, 8192, 2⟩], false) := by decide
  refine (resolveRangeSpecs_wellFormed_iff hparse hresolve).mpr fun arg harg => ?_
  obtain rfl := List.mem_singleton.mp harg
  have hlow : HexText (cstr "1000") := hexText_of_all (by decide) rfl
  have hhigh : HexText (cstr "2000") := hexText_of_all (by decide) rfl
  exact ⟨fun _ => ⟨cstr "1000", cstr "2000", hlow, hhigh, by decide, by decide, by decide, by decide⟩,
    fun hnot => absurd ⟨4096, 8192, by decide⟩ hnot⟩

/-- A second range behind a comma is dropped without an error. -/
theorem trailingRange_not_wellFormed :
    ¬ ∀ args specs ranges aslr, args.mapM parseRangeSpec = some specs →
      resolveRangeSpecs noFiles specs none none true = some (ranges, aslr) → WellFormedFilter args ranges := by
  intro h
  have hparse : [cstr "0x1000:0x2000,0x3000:0x4000"].mapM parseRangeSpec = some [⟨.addr, 4096, 8192, [], 1⟩] := by
    decide
  have hone : parseRangeSpec (cstr "0x1000:0x2000,0x3000:0x4000") = some ⟨.addr, 4096, 8192, [], 1⟩ := by decide
  have hfilter := h _ _ [⟨4096, 8192, 1⟩] false hparse (by decide)
  have htext := (List.forall₂_cons.mp hfilter.each).1.text
  obtain ⟨low, high, hlow, hhigh, heq, _⟩ := htext ⟨_, hone, rfl⟩
  have hcomma : (44 : UInt8) ∈ addrText low high := heq ▸ by decide
  simp only [addrText, List.mem_append] at hcomma
  rcases hcomma with hmem | hmem | hmem | hmem
  · revert hmem
    decide
  · exact absurd (hlow.2 44 hmem) (by decide)
  · revert hmem
    decide
  · exact absurd (hhigh.2 44 hmem) (by decide)

end ObservableBSD.Elf
