import ObservableBSD.Base.Numeral

/-!
# UTF-8 text

The bytes of a list of characters. A text that is cut in front of an ASCII byte is cut between two characters.
-/

namespace ObservableBSD.Base

def utf8 (cs : List Char) : CString := cs.flatMap String.utf8EncodeChar

@[simp] theorem utf8_nil : utf8 [] = [] := rfl

@[simp] theorem utf8_append (cs ds : List Char) : utf8 (cs ++ ds) = utf8 cs ++ utf8 ds := List.flatMap_append

theorem utf8_cons (c : Char) (cs : List Char) : utf8 (c :: cs) = String.utf8EncodeChar c ++ utf8 cs :=
  List.flatMap_cons

theorem utf8_injective {cs ds : List Char} (h : utf8 cs = utf8 ds) : cs = ds := by
  have hbytes : cs.utf8Encode = ds.utf8Encode := congrArg List.toByteArray h
  have hdecode := congrArg ByteArray.utf8Decode? hbytes
  rw [List.utf8Decode?_utf8Encode, List.utf8Decode?_utf8Encode, Option.some_inj] at hdecode
  simpa using congrArg Array.toList hdecode

/-! ## Characters -/

theorem utf8EncodeChar_ascii {c : Char} (h : c.toNat < 128) :
    String.utf8EncodeChar c = [UInt8.ofNat c.toNat] := by
  have hle : c.val.toNat ≤ 0x7f := Nat.le_of_lt_succ h
  unfold String.utf8EncodeChar
  simp only [if_pos hle]
  rfl

theorem utf8EncodeChar_high {c : Char} (h : 128 ≤ c.toNat) :
    ∀ b ∈ String.utf8EncodeChar c, 128 ≤ b.toNat := by
  have hgt : ¬ c.val.toNat ≤ 0x7f := by
    have : c.toNat = c.val.toNat := rfl
    omega
  intro b hb
  unfold String.utf8EncodeChar at hb
  simp only [if_neg hgt] at hb
  split at hb
  · simp only [List.mem_cons, List.not_mem_nil, or_false] at hb
    rcases hb with rfl | rfl <;> simp only [UInt8.toNat_ofNat'] <;> omega
  · split at hb
    · simp only [List.mem_cons, List.not_mem_nil, or_false] at hb
      rcases hb with rfl | rfl | rfl <;> simp only [UInt8.toNat_ofNat'] <;> omega
    · simp only [List.mem_cons, List.not_mem_nil, or_false] at hb
      rcases hb with rfl | rfl | rfl | rfl <;> simp only [UInt8.toNat_ofNat'] <;> omega

theorem utf8_ascii {cs : List Char} (h : ∀ c ∈ cs, c.toNat < 128) :
    utf8 cs = cs.map fun c => UInt8.ofNat c.toNat := by
  induction cs with
  | nil => rfl
  | cons c cs ih =>
      rw [utf8_cons, utf8EncodeChar_ascii (h c List.mem_cons_self),
        ih fun d hd => h d (List.mem_cons_of_mem c hd)]
      rfl

theorem utf8_toList {s : String} (h : s.toList.all (fun c => c.toNat < 128) = true) : utf8 s.toList = cstr s :=
  utf8_ascii fun c hc => by simpa using List.all_eq_true.1 h c hc

theorem utf8_toDigits (n : Nat) : utf8 (Nat.toDigits 10 n) = numeral 10 n := by
  have hdigit : ∀ d < 10, String.utf8EncodeChar d.digitChar = [digitByte d] := by decide
  have hdigits : ∀ n, 0 < n → utf8 (Nat.toDigits 10 n) = ((Nat.digits 10 n).map digitByte).reverse := by
    intro n
    induction n using Nat.strong_induction_on with
    | _ n ih =>
        intro hpos
        rw [Nat.digits_def' (by decide) hpos, List.map_cons, List.reverse_cons]
        by_cases hlt : n < 10
        · rw [Nat.toDigits_of_lt_base hlt, Nat.div_eq_of_lt hlt, Nat.mod_eq_of_lt hlt, utf8_cons, hdigit n hlt]
          rfl
        · rw [Nat.toDigits_of_base_le (by decide) (by omega), utf8_append, ih (n / 10) (by omega) (by omega),
            utf8_cons, hdigit _ (by omega)]
          rfl
  unfold numeral
  split
  · rename_i h
    rw [h]
    rfl
  · exact hdigits n (by omega)

theorem cstr_ascii {s : String} (h : s.toList.all (fun c => c.toNat < 128) = true) :
    ∀ b ∈ cstr s, b.toNat < 128 := by
  intro b hb
  obtain ⟨c, hc, rfl⟩ := List.mem_map.1 hb
  have hlt : c.toNat < 128 := by simpa using List.all_eq_true.1 h c hc
  rw [UInt8.toNat_ofNat']
  omega

/-! ## Cuts -/

/-- The text does not go on inside a character. -/
def AsciiHead (s : CString) : Prop := ∀ b ∈ s.head?, b.toNat < 128

theorem asciiHead_cons {b : UInt8} (h : b.toNat < 128) (s : CString) : AsciiHead (b :: s) := by
  rintro b ⟨⟩
  exact h

theorem exists_utf8_of_append {cs : List Char} {s t : CString} (h : utf8 cs = s ++ t) (ht : AsciiHead t) :
    ∃ ds es, s = utf8 ds ∧ t = utf8 es ∧ cs = ds ++ es := by
  induction cs generalizing s with
  | nil =>
      obtain ⟨rfl, rfl⟩ := List.append_eq_nil_iff.1 h.symm
      exact ⟨[], [], rfl, rfl, rfl⟩
  | cons c cs ih =>
      rw [utf8_cons] at h
      rcases List.append_eq_append_iff.1 h with ⟨s', rfl, hrest⟩ | ⟨m, hchar, rfl⟩
      · obtain ⟨ds, es, rfl, rfl, rfl⟩ := ih hrest
        exact ⟨c :: ds, es, utf8_cons c ds, rfl, rfl⟩
      · -- the cut is inside the character, or at one of its ends
        cases m with
        | nil =>
            rw [List.append_nil] at hchar
            exact ⟨[c], cs, by simp [utf8, ← hchar], rfl, rfl⟩
        | cons b m =>
            have hb : b.toNat < 128 := ht b rfl
            cases s with
            | nil => exact ⟨[], c :: cs, rfl, by rw [utf8_cons, hchar]; rfl, rfl⟩
            | cons a s =>
                have hhigh : 128 ≤ c.toNat := by
                  by_contra hlow
                  rw [utf8EncodeChar_ascii (Nat.lt_of_not_le hlow)] at hchar
                  simp at hchar
                have hmem : b ∈ String.utf8EncodeChar c := by simp [hchar]
                exact absurd (utf8EncodeChar_high hhigh b hmem) (Nat.not_le.2 hb)

theorem exists_utf8_of_ascii_append {cs : List Char} {s t : CString} (hs : ∀ b ∈ s, b.toNat < 128)
    (h : utf8 cs = s ++ t) : ∃ es, t = utf8 es := by
  induction s generalizing cs with
  | nil => exact ⟨cs, h.symm⟩
  | cons b s ih =>
      cases cs with
      | nil => cases h
      | cons c cs =>
          have hb := hs b List.mem_cons_self
          rw [utf8_cons] at h
          have hc : c.toNat < 128 := by
            by_contra hhigh
            obtain ⟨x, xs, hxs⟩ := List.exists_cons_of_ne_nil (String.utf8EncodeChar_ne_nil (c := c))
            have hx := utf8EncodeChar_high (Nat.le_of_not_lt hhigh) x (by rw [hxs]; exact List.mem_cons_self)
            rw [hxs] at h
            obtain rfl := (List.cons.inj h).1
            omega
          rw [utf8EncodeChar_ascii hc] at h
          exact ih (fun x hx => hs x (List.mem_cons_of_mem b hx)) (List.cons.inj h).2

/-!
## Bytes as characters

A string of bytes read as text with one character for each byte, whatever its encoding is.
-/

def byteChar (b : UInt8) : Char := Char.ofNat b.toNat

def byteText (s : CString) : List Char := s.map byteChar

theorem byteText_append (s t : CString) : byteText (s ++ t) = byteText s ++ byteText t := List.map_append

theorem byteText_flatten (ss : List CString) : byteText ss.flatten = ss.flatMap byteText := by
  rw [byteText, List.map_flatten, List.flatMap_def]
  rfl

/-- ASCII text is what its UTF-8 bytes stand for. -/
theorem byteText_utf8 {cs : List Char} (h : ∀ c ∈ cs, c.toNat < 128) : byteText (utf8 cs) = cs := by
  induction cs with
  | nil => rfl
  | cons c cs ih =>
      have hc := h c List.mem_cons_self
      have hbyte : byteChar (UInt8.ofNat c.toNat) = c := by
        rw [byteChar, UInt8.toNat_ofNat', Nat.mod_eq_of_lt (by omega), Char.ofNat_toNat]
      rw [utf8_cons, utf8EncodeChar_ascii hc, byteText_append, ih fun d hd => h d (List.mem_cons_of_mem _ hd)]
      exact congrArg (· :: cs) hbyte

theorem byteText_numeral (n : Nat) : byteText (numeral 10 n) = Nat.toDigits 10 n := by
  rw [← utf8_toDigits]
  refine byteText_utf8 fun c hc => ?_
  have hdigit := Nat.isDigit_of_mem_toDigits (by decide) (by decide) hc
  rw [Char.isDigit, Bool.and_eq_true, decide_eq_true_eq, decide_eq_true_eq] at hdigit
  have hle : c.toNat ≤ 57 := hdigit.2
  omega

end ObservableBSD.Base
