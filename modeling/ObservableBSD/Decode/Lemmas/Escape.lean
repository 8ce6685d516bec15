import ObservableBSD.Base.Utf8
import ObservableBSD.Export.Lemmas.Json
import ObservableBSD.Trace.Format

/-!
# `json_escape` into a buffer

It escapes the bytes that there is room for, up to 7 bytes from the end of the buffer. On UTF-8 text it escapes
as the exporters do, and what it writes is UTF-8 only for UTF-8 text.
-/

namespace ObservableBSD.Decode

open Base Trace Export

/-- The bytes of `src` that `json_escape` writes to a buffer which holds `pos` bytes already. -/
def escapedPart (dstlen pos : Nat) : CString → CString
  | [] => []
  | c :: src =>
      if pos + 7 < dstlen then c :: escapedPart dstlen (pos + (escapeByte c).length) src else []

def escapeBytes (s : CString) : CString := s.flatMap escapeByte

theorem jsonEscapeFrom_eq (dstlen : Nat) (dst src : CString) :
    jsonEscapeFrom dstlen dst src = dst ++ escapeBytes (escapedPart dstlen dst.length src) := by
  induction src generalizing dst with
  | nil => simp [jsonEscapeFrom, escapedPart, escapeBytes]
  | cons c src ih =>
      rw [jsonEscapeFrom, escapedPart]
      split
      · rw [ih, List.length_append]
        simp [escapeBytes]
      · simp [escapeBytes]

theorem jsonEscape_eq (dstlen : Nat) (src : CString) :
    jsonEscape dstlen src = escapeBytes (escapedPart dstlen 0 src) := by
  simpa [jsonEscape] using jsonEscapeFrom_eq dstlen [] src

theorem escapedPart_initial (dstlen pos : Nat) (src : CString) : escapedPart dstlen pos src <+: src := by
  induction src generalizing pos with
  | nil => exact List.prefix_rfl
  | cons c src ih =>
      rw [escapedPart]
      split
      · exact List.cons_prefix_cons.2 ⟨rfl, ih _⟩
      · exact List.nil_prefix

/-! ## One byte -/

theorem escapeByte_ascii {b : UInt8} (h : b.toNat < 128) :
    escapeByte b = utf8 (escapeScalar (Char.ofNat b.toNat)) ∧ (∀ x ∈ escapeByte b, x.toNat < 128) ∧
      escapeByte b ≠ [] := by
  have hbytes : ∀ n < 128, escapeByte (UInt8.ofNat n) = utf8 (escapeScalar (Char.ofNat n)) := by decide +kernel
  have hascii : ∀ n < 128, (escapeByte (UInt8.ofNat n)).all (fun x => x.toNat < 128) = true := by decide +kernel
  have hne : ∀ n < 128, escapeByte (UInt8.ofNat n) ≠ [] := by decide +kernel
  have hall := hascii b.toNat h
  rw [UInt8.ofNat_toNat, List.all_eq_true] at hall
  exact ⟨by simpa using hbytes b.toNat h, fun x hx => by simpa using hall x hx, by simpa using hne b.toNat h⟩

theorem escapeByte_high {b : UInt8} (h : 128 ≤ b.toNat) : escapeByte b = [b] := by
  refine escapeByte_plain ⟨?_, ?_, by omega⟩ <;> rintro rfl <;> exact absurd h (by decide)

theorem escapeBytes_high {s : CString} (h : ∀ b ∈ s, 128 ≤ b.toNat) : escapeBytes s = s := by
  induction s with
  | nil => rfl
  | cons b s ih =>
      have hrest : escapeBytes s = s := ih fun x hx => h x (List.mem_cons_of_mem b hx)
      rw [escapeBytes, List.flatMap_cons, escapeByte_high (h b List.mem_cons_self)]
      exact congrArg (b :: ·) hrest

/-! ## UTF-8 text -/

theorem escapeScalar_high {c : Char} (h : 128 ≤ c.toNat) : escapeScalar c = [c] := by
  have hne : ∀ d : Char, d.toNat < 128 → c ≠ d := by
    rintro d hd rfl
    omega
  have hcontrol : ¬ c.toNat < 0x20 := by omega
  simp only [escapeScalar, if_neg (hne '"' (by decide)), if_neg (hne '\\' (by decide)),
    if_neg (hne '\x08' (by decide)), if_neg (hne '\x0c' (by decide)), if_neg (hne '\n' (by decide)),
    if_neg (hne '\r' (by decide)), if_neg (hne '\t' (by decide)), if_neg hcontrol]

theorem escapeBytes_utf8 (cs : List Char) : escapeBytes (utf8 cs) = utf8 (escapeJSON cs) := by
  induction cs with
  | nil => rfl
  | cons c cs ih =>
      have hchar : escapeBytes (String.utf8EncodeChar c) = utf8 (escapeScalar c) := by
        by_cases hc : c.toNat < 128
        · have hb : (UInt8.ofNat c.toNat).toNat = c.toNat := by
            rw [UInt8.toNat_ofNat']
            exact Nat.mod_eq_of_lt (by omega)
          have hescape := (escapeByte_ascii (b := UInt8.ofNat c.toNat) (by omega)).1
          rw [hb, Char.ofNat_toNat] at hescape
          rw [utf8EncodeChar_ascii hc, escapeBytes, List.flatMap_singleton, hescape]
        · have hhigh := utf8EncodeChar_high (Nat.le_of_not_lt hc)
          rw [escapeBytes_high hhigh, escapeScalar_high (Nat.le_of_not_lt hc)]
          simp [utf8]
      rw [utf8_cons, escapeBytes, List.flatMap_append, escapeJSON, List.flatMap_cons, utf8_append]
      exact congr (congrArg _ hchar) ih

theorem escapeBytes_high_append {p s t : CString} (hs : ∀ b ∈ s, 128 ≤ b.toNat) (h : escapeBytes p = s ++ t) :
    ∃ q, p = s ++ q ∧ escapeBytes q = t := by
  induction s generalizing p with
  | nil => exact ⟨p, rfl, h⟩
  | cons x s ih =>
      cases p with
      | nil => cases h
      | cons b p =>
          have hx := hs x List.mem_cons_self
          have hsplit : escapeByte b ++ escapeBytes p = x :: (s ++ t) := h
          have hb : 128 ≤ b.toNat := by
            by_contra hlow
            obtain ⟨-, hascii, hne⟩ := escapeByte_ascii (Nat.lt_of_not_le hlow)
            obtain ⟨y, ys, hys⟩ := List.exists_cons_of_ne_nil hne
            rw [hys, List.cons_append] at hsplit
            have hy := hascii y (by rw [hys]; exact List.mem_cons_self)
            rw [(List.cons.inj hsplit).1] at hy
            omega
          rw [escapeByte_high hb] at hsplit
          obtain ⟨rfl, hrest⟩ := List.cons.inj hsplit
          obtain ⟨q, rfl, hq⟩ := ih (fun y hy => hs y (List.mem_cons_of_mem _ hy)) hrest
          exact ⟨q, rfl, hq⟩

theorem exists_utf8_of_escapeBytes {p : CString} {cs : List Char} (h : utf8 cs = escapeBytes p) :
    ∃ ps, p = utf8 ps := by
  induction hn : p.length using Nat.strongRecOn generalizing p cs with
  | ind n ih =>
      cases p with
      | nil => exact ⟨[], rfl⟩
      | cons b p =>
          have hsplit : utf8 cs = escapeByte b ++ escapeBytes p := h
          by_cases hb : b.toNat < 128
          · obtain ⟨-, hascii, -⟩ := escapeByte_ascii hb
            obtain ⟨es, hes⟩ := exists_utf8_of_ascii_append hascii hsplit
            obtain ⟨ps, rfl⟩ := ih p.length (by simp [← hn]) hes.symm rfl
            refine ⟨Char.ofNat b.toNat :: ps, ?_⟩
            have hcode : (Char.ofNat b.toNat).toNat = b.toNat :=
              (show ∀ n < 128, (Char.ofNat n).toNat = n by decide) b.toNat hb
            rw [utf8_cons, utf8EncodeChar_ascii (by omega), hcode, UInt8.ofNat_toNat]
            rfl
          · have hb := Nat.le_of_not_lt hb
            rw [escapeByte_high hb] at hsplit
            cases cs with
            | nil => cases hsplit
            | cons c cs =>
                -- a character of several bytes, none of which is escaped
                rw [utf8_cons] at hsplit
                have hc : 128 ≤ c.toNat := by
                  by_contra hlow
                  have hlow := Nat.lt_of_not_le hlow
                  rw [utf8EncodeChar_ascii hlow] at hsplit
                  have hfirst := congrArg UInt8.toNat (List.cons.inj hsplit).1
                  rw [UInt8.toNat_ofNat', Nat.mod_eq_of_lt (by omega)] at hfirst
                  omega
                have hwhole : escapeBytes (b :: p) = String.utf8EncodeChar c ++ utf8 cs := by
                  rw [← utf8_cons]
                  exact h.symm
                obtain ⟨q, hq, hrest⟩ := escapeBytes_high_append (utf8EncodeChar_high hc) hwhole
                have hlen : 0 < (String.utf8EncodeChar c).length :=
                  List.length_pos_iff.2 String.utf8EncodeChar_ne_nil
                have hshort : q.length < n := by
                  rw [← hn, hq, List.length_append]
                  omega
                obtain ⟨ps, rfl⟩ := ih q.length hshort hrest.symm rfl
                exact ⟨c :: ps, by rw [hq, utf8_cons]⟩

end ObservableBSD.Decode
