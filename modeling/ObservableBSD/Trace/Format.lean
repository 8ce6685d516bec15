import ObservableBSD.Base.Numeral

/-!
# JSON escapes
-/

namespace ObservableBSD.Trace

open Base

/-- What `json_escape` writes for a byte. -/
def escapeByte (c : UInt8) : CString :=
  if c = 34 then cstr "\\\""
  else if c = 92 then cstr "\\\\"
  else if c = 8 then cstr "\\b"
  else if c = 12 then cstr "\\f"
  else if c = 10 then cstr "\\n"
  else if c = 13 then cstr "\\r"
  else if c = 9 then cstr "\\t"
  else if c < 32 then cstr "\\u00" ++ [digitByte (c.toNat / 16), digitByte (c.toNat % 16)]
  else [c]

/-- The loop of `json_escape`, with what is in the buffer of `dstlen` bytes. -/
def jsonEscapeFrom (dstlen : Nat) (dst : CString) : CString → CString
  | [] => dst
  | c :: src => if dst.length + 7 < dstlen then jsonEscapeFrom dstlen (dst ++ escapeByte c) src else dst

def jsonEscape (dstlen : Nat) (src : CString) : CString := jsonEscapeFrom dstlen [] src

/-- Neither quotes, backslashes nor control characters: nothing to escape. -/
def Plain (path : CString) : Prop := ∀ c ∈ path, c ≠ 34 ∧ c ≠ 92 ∧ 32 ≤ c.toNat

instance (path : CString) : Decidable (Plain path) := inferInstanceAs (Decidable (∀ c ∈ path, _))

theorem plain_of_all {path : CString} (h : path.all (fun c => c ≠ 34 ∧ c ≠ 92 ∧ 32 ≤ c.toNat) = true) : Plain path :=
  fun c hc => by simpa using List.all_eq_true.1 h c hc

theorem escapeByte_plain {c : UInt8} (h : c ≠ 34 ∧ c ≠ 92 ∧ 32 ≤ c.toNat) : escapeByte c = [c] := by
  obtain ⟨hquote, hback, hge⟩ := h
  have hne : ∀ d : UInt8, d.toNat < 32 → c ≠ d := by
    rintro d hd rfl
    omega
  have hlt : ¬ c < 32 := by
    rw [UInt8.lt_iff_toNat_lt]
    exact Nat.not_lt.mpr hge
  simp [escapeByte, hquote, hback, hlt, hne 8 (by decide), hne 12 (by decide), hne 10 (by decide),
    hne 13 (by decide), hne 9 (by decide)]

/-- The loop ends 7 bytes before the end of the buffer. -/
theorem jsonEscapeFrom_plain {src : CString} (h : Plain src) (dstlen : Nat) (dst : CString) :
    jsonEscapeFrom dstlen dst src = dst ++ src.take (dstlen - 7 - dst.length) := by
  induction src generalizing dst with
  | nil => simp [jsonEscapeFrom]
  | cons c src ih =>
      have hrest := ih (fun d hd => h d (List.mem_cons_of_mem _ hd)) (dst ++ [c])
      rw [jsonEscapeFrom, escapeByte_plain (h c List.mem_cons_self)]
      split
      · rename_i hlt
        have hroom : dstlen - 7 - dst.length = dstlen - 7 - (dst ++ [c]).length + 1 := by
          simp only [List.length_append, List.length_singleton]
          omega
        rw [hrest, hroom, List.take_succ_cons, List.append_assoc, List.singleton_append]
      · rename_i hge
        have hroom : dstlen - 7 - dst.length = 0 := by omega
        rw [hroom, List.take_zero, List.append_nil]

theorem jsonEscape_plain {src : CString} (h : Plain src) (dstlen : Nat) :
    jsonEscape dstlen src = src.take (dstlen - 7) := by
  simpa [jsonEscape] using jsonEscapeFrom_plain h dstlen []

theorem Plain.take {path : CString} (h : Plain path) (n : Nat) : Plain (path.take n) :=
  fun c hc => h c (List.mem_of_mem_take hc)

end ObservableBSD.Trace
