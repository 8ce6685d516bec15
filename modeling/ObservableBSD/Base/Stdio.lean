import ObservableBSD.Base.Numeral

/-!
# Reading lines and fields

`fgets` and `sscanf` of the C library, for formats without white space.
-/

namespace ObservableBSD.Base

/-- What the calls of `fgets` read of the rest of a file, behind the part of a line read so far. -/
def fgetsFrom (size : Nat) (line : CString) : CString → List CString
  | [] => if line = [] then [] else [line]
  | c :: file =>
      if c = 10 ∨ size ≤ line.length + 2 then (line ++ [c]) :: fgetsFrom size [] file
      else fgetsFrom size (line ++ [c]) file

/-- The contents of a buffer of `size` bytes after each call of `fgets`. -/
def fgetsLines (size : Nat) (file : CString) : List CString := fgetsFrom size [] file

def isSpace (c : UInt8) : Bool := c = 32 || (9 ≤ c && c ≤ 13)

inductive Directive where
  | literal (bytes : CString)
  /-- A width and `[`, with the bytes of the set. -/
  | set (width : Nat) (accepts : UInt8 → Bool)
  /-- `%lx`. -/
  | hexLong
  /-- `%d`, or `%*d` when it is not assigned. -/
  | int (assigned : Bool)
  /-- `%u`, or `%*u` when it is not assigned. -/
  | uint (assigned : Bool)

inductive Scanned where
  | text (s : CString)
  | long (v : UInt64)
  | int (v : Int32)
  | uint (v : UInt32)
deriving DecidableEq, Repr

def afterLiteral : CString → CString → Option CString
  | [], s => some s
  | c :: bytes, d :: s => if c = d then afterLiteral bytes s else none
  | _ :: _, [] => none

/-- A field of the bytes of a set and the input behind it. A NUL ends the input. -/
def scanSet (width : Nat) (accepts : UInt8 → Bool) (s : CString) : Option (CString × CString) :=
  let field := (s.take width).takeWhile fun c => c ≠ 0 && accepts c
  if field = [] then none else some (field, s.drop field.length)

def signLength : CString → Nat
  | 43 :: _ | 45 :: _ => 1
  | _ => 0

/-- The length of `0x` in front of a digit. -/
def hexPrefixLength : CString → Nat
  | 48 :: x :: c :: _ => if (x = 120 ∨ x = 88) ∧ isDigit 16 c = true then 2 else 0
  | _ => 0

/-- `%lx`, with the conversion of `strtoul`. The buffer for the number has 512 bytes. -/
def scanHexLong (s : CString) : Option (UInt64 × CString) :=
  let s := s.dropWhile isSpace
  let field := s.take 512
  let sign := signLength field
  let skip := sign + hexPrefixLength (field.drop sign)
  let digits := (field.drop skip).takeWhile (isDigit 16)
  let v := numeralValue 16 digits
  let n := if UInt64.size ≤ v then UInt64.ofNat (UInt64.size - 1)
    else if field.head? = some 45 then -UInt64.ofNat v else UInt64.ofNat v
  if digits = [] then none else some (n, s.drop (skip + digits.length))

/-- A decimal number behind white space: whether it has a minus sign, its value, and the input behind it. -/
def scanDecimal (s : CString) : Option (Bool × Nat × CString) :=
  let s := s.dropWhile isSpace
  let field := s.take 512
  let sign := signLength field
  let digits := (field.drop sign).takeWhile (isDigit 10)
  if digits = [] then none
  else some (field.head? = some 45, numeralValue 10 digits, s.drop (sign + digits.length))

/-- `%d`, with the conversion of `strtoimax`. -/
def scanInt (s : CString) : Option (Int32 × CString) :=
  (scanDecimal s).map fun (minus, v, s) =>
    (Int32.ofInt (if minus then max (-(v : Int)) (-2 ^ 63) else min (v : Int) (2 ^ 63 - 1)), s)

/-- `%u`, with the conversion of `strtoumax`. -/
def scanUint (s : CString) : Option (UInt32 × CString) :=
  (scanDecimal s).map fun (minus, v, s) =>
    (UInt64.toUInt32 (if UInt64.size ≤ v then UInt64.ofNat (UInt64.size - 1)
      else if minus then -UInt64.ofNat v else UInt64.ofNat v), s)

/-- The values that `sscanf` assigns, in order. It returns their number, but for an input that ends before
the first of them. -/
def sscanf : List Directive → CString → List Scanned
  | [], _ => []
  | .literal bytes :: format, s =>
      match afterLiteral bytes s with
      | some s => sscanf format s
      | none => []
  | .set width accepts :: format, s =>
      match scanSet width accepts s with
      | some (field, s) => .text field :: sscanf format s
      | none => []
  | .hexLong :: format, s =>
      match scanHexLong s with
      | some (v, s) => .long v :: sscanf format s
      | none => []
  | .int assigned :: format, s =>
      match scanInt s with
      | some (v, s) => if assigned then .int v :: sscanf format s else sscanf format s
      | none => []
  | .uint assigned :: format, s =>
      match scanUint s with
      | some (v, s) => if assigned then .uint v :: sscanf format s else sscanf format s
      | none => []

variable {size width : Nat} {accepts : UInt8 → Bool} {line body file field bytes s : CString} {c : UInt8}
  {format : List Directive}

/-! ## Lines -/

/-- A line that one call of `fgets` reads. -/
structure CompleteLine (size : Nat) (line : CString) : Prop where
  newline : ∃ body, line = body ++ [10] ∧ 10 ∉ body
  short : line.length < size

theorem CompleteLine.mono {size' : Nat} (h : CompleteLine size line) (hle : size ≤ size') :
    CompleteLine size' line where
  newline := h.newline
  short := Nat.lt_of_lt_of_le h.short hle

theorem completeLine_of_fits {n : Nat} (h : Fits n body) (hs : n + 1 < size) : CompleteLine size (body ++ [10]) where
  newline := ⟨body, rfl, h.printable.not_newline⟩
  short := by
    have hshort := h.short
    rw [List.length_append, List.length_singleton]
    omega

theorem fgetsFrom_body (hn : 10 ∉ body) (hs : line.length + body.length + 1 < size) :
    fgetsFrom size line (body ++ 10 :: file) = (line ++ body ++ [10]) :: fgetsLines size file := by
  induction body generalizing line with
  | nil => simp [fgetsFrom, fgetsLines]
  | cons b body ih =>
      have hb : ¬ (b = 10 ∨ size ≤ line.length + 2) := by
        rintro (rfl | h)
        · exact hn List.mem_cons_self
        · simp only [List.length_cons] at hs
          omega
      have hrest := @ih (line ++ [b]) (fun h => hn (List.mem_cons_of_mem _ h)) (by
        simp only [List.length_append, List.length_cons, List.length_nil] at hs ⊢
        omega)
      rw [List.cons_append, fgetsFrom, if_neg hb, hrest]
      simp

theorem fgetsLines_cons (h : CompleteLine size line) (file : CString) :
    fgetsLines size (line ++ file) = line :: fgetsLines size file := by
  obtain ⟨⟨body, rfl, hn⟩, hs⟩ := h
  have hbody : fgetsFrom size [] (body ++ 10 :: file) = ([] ++ body ++ [10]) :: fgetsLines size file :=
    fgetsFrom_body hn (by simpa using hs)
  rw [List.append_assoc]
  exact hbody

/-- Each call reads a part of one line. -/
theorem infix_of_mem_fgetsFrom {chunk : CString} (hn : 10 ∉ body)
    (h : chunk ∈ fgetsFrom size line (body ++ 10 :: file)) :
    chunk <:+: line ++ body ++ [10] ∨ chunk ∈ fgetsLines size file := by
  induction body generalizing line with
  | nil =>
      simp only [List.nil_append, fgetsFrom, true_or, if_true, List.mem_cons] at h
      exact h.imp_left fun h => by rw [h, List.append_nil]
  | cons b body ih =>
      have hb : b ≠ 10 := fun he => hn (he ▸ List.mem_cons_self)
      have hbody : 10 ∉ body := fun hmem => hn (List.mem_cons_of_mem _ hmem)
      rw [List.cons_append, fgetsFrom] at h
      split at h
      · rcases List.mem_cons.mp h with rfl | h
        · exact Or.inl ⟨[], body ++ [10], by simp⟩
        · refine (ih hbody h).imp_left fun hin => hin.trans ⟨line ++ [b], [], by simp⟩
      · exact (ih hbody h).imp_left fun hin => by rwa [List.append_assoc line] at hin

theorem infix_of_mem_fgetsLines {lines : List CString} (h : ∀ line ∈ lines, ∃ body, line = body ++ [10] ∧ 10 ∉ body)
    {chunk : CString} (hchunk : chunk ∈ fgetsLines size lines.flatten) : ∃ line ∈ lines, chunk <:+: line := by
  induction lines with
  | nil => simp [fgetsLines, fgetsFrom] at hchunk
  | cons line lines ih =>
      obtain ⟨body, rfl, hn⟩ := h line List.mem_cons_self
      rw [List.flatten_cons, List.append_assoc] at hchunk
      rcases infix_of_mem_fgetsFrom hn hchunk with hin | hrest
      · exact ⟨_, List.mem_cons_self, hin⟩
      · obtain ⟨line, hline, hin⟩ := ih (fun l hl => h l (List.mem_cons_of_mem _ hl)) hrest
        exact ⟨line, List.mem_cons_of_mem _ hline, hin⟩

/-- A file of complete lines is read line by line. -/
theorem fgetsLines_flatten {lines : List CString} (h : ∀ line ∈ lines, CompleteLine size line) :
    fgetsLines size lines.flatten = lines := by
  induction lines with
  | nil => simp [fgetsLines, fgetsFrom]
  | cons line lines ih =>
      rw [List.flatten_cons, fgetsLines_cons (h line List.mem_cons_self),
        ih fun l hl => h l (List.mem_cons_of_mem _ hl)]

/-! ## Fields -/

theorem afterLiteral_append (bytes s : CString) : afterLiteral bytes (bytes ++ s) = some s := by
  induction bytes with
  | nil => rfl
  | cons c bytes ih => simp [afterLiteral, ih]

theorem eq_append_of_afterLiteral {rest : CString} (h : afterLiteral bytes s = some rest) : s = bytes ++ rest := by
  induction bytes generalizing s with
  | nil => exact Option.some.inj h
  | cons c bytes ih =>
      cases s with
      | nil => cases h
      | cons d s =>
          rw [afterLiteral] at h
          split at h
          · rename_i hcd
            rw [ih h, hcd, List.cons_append]
          · cases h

theorem sscanf_literal : sscanf (.literal bytes :: format) (bytes ++ s) = sscanf format s := by
  rw [sscanf, afterLiteral_append]

theorem afterLiteral_mismatch (common : CString) {d : UInt8} (h : c ≠ d) :
    afterLiteral (common ++ c :: bytes) (common ++ d :: s) = none := by
  induction common with
  | nil => simp [afterLiteral, h]
  | cons b common ih => simpa [afterLiteral] using ih

theorem sscanf_literal_none (h : afterLiteral bytes s = none) : sscanf (.literal bytes :: format) s = [] := by
  rw [sscanf, h]

theorem takeWhile_field {p : UInt8 → Bool} (h : ∀ d ∈ field, p d = true)
    (hs : ∀ c, s.head? = some c → p c = false) : (field ++ s).takeWhile p = field := by
  rw [List.takeWhile_append_of_pos h]
  cases s with
  | nil => exact List.append_nil field
  | cons c s => rw [List.takeWhile_cons_of_neg (by simp [hs c rfl]), List.append_nil]

theorem head?_of_take {k : Nat} (h : (s.take k).head? = some c) : s.head? = some c := by
  cases k with
  | zero => cases h
  | succ k => cases s <;> exact h

theorem head?_append_of_head? (h : bytes.head? = some c) : (bytes ++ s).head? = some c := by
  cases bytes with
  | nil => cases h
  | cons d bytes => exact h

theorem sscanf_set (hne : field ≠ []) (h : ∀ d ∈ field, d ≠ 0 ∧ accepts d = true)
    (hw : field.length ≤ width) (hs : s.head? = some c) (hc : accepts c = false) :
    sscanf (.set width accepts :: format) (field ++ s) = .text field :: sscanf format s := by
  have htake : ((field ++ s).take width).takeWhile (fun c => c ≠ 0 && accepts c) = field := by
    rw [List.take_append, List.take_of_length_le hw]
    refine takeWhile_field (fun d hd => by simp [h d hd]) fun d hd => ?_
    have hhead := hs.symm.trans (head?_of_take hd)
    obtain rfl := Option.some.inj hhead
    simp [hc]
  have hscan : scanSet width accepts (field ++ s) = some (field, s) := by
    rw [scanSet, htake, if_neg hne, List.drop_left]
  rw [sscanf, hscan]

theorem sscanf_set_nil (hs : s.head? = some c) (hc : accepts c = false) :
    sscanf (.set width accepts :: format) s = [] := by
  obtain ⟨t, rfl⟩ := List.head?_eq_some_iff.mp hs
  have hscan : scanSet width accepts (c :: t) = none := by
    unfold scanSet
    cases width <;> simp [hc]
  rw [sscanf, hscan]

theorem dropWhile_isSpace {radix : Nat} (h : isDigit radix c = true) : (c :: s).dropWhile isSpace = c :: s := by
  have hge := isDigit_plain h
  refine List.dropWhile_cons_of_neg ?_
  simp only [isSpace, Bool.or_eq_true, Bool.and_eq_true, decide_eq_true_eq, UInt8.le_iff_toNat_le]
  rintro (rfl | ⟨_, hle⟩)
  · simp at hge
  · have h13 : (13 : UInt8).toNat = 13 := rfl
    omega

theorem signLength_digit {radix : Nat} (h : isDigit radix c = true) : signLength (c :: s) = 0 := by
  have hge := isDigit_plain h
  unfold signLength
  split
  · rename_i heq
    cases heq
    simp at hge
  · rename_i heq
    cases heq
    simp at hge
  · rfl

theorem hexPrefixLength_eq_zero (h : ∀ x t, s = 48 :: x :: t → x ≠ 120 ∧ x ≠ 88) : hexPrefixLength s = 0 := by
  unfold hexPrefixLength
  split
  · rename_i x d t
    obtain ⟨h1, h2⟩ := h x (d :: t) rfl
    simp [h1, h2]
  · rfl

/-- What `strtoul` makes of digits. -/
def hexLongOf (v : Nat) : UInt64 := if UInt64.size ≤ v then UInt64.ofNat (UInt64.size - 1) else UInt64.ofNat v

theorem toNat_hexLongOf (v : Nat) : (hexLongOf v).toNat = min v (UInt64.size - 1) := by
  unfold hexLongOf
  split
  · rename_i h
    rw [Nat.min_eq_right (by omega)]
    rfl
  · rename_i h
    rw [UInt64.toNat_ofNat_of_lt' (by simpa using h), Nat.min_eq_left (by omega)]

/-- Digits are a field up to its width: no space, sign or prefix is taken from them. -/
theorem scanHexLong_field {digits : CString} (hne : digits ≠ []) (hd : ∀ d ∈ digits, isDigit 16 d = true)
    (hs : ∀ c, s.head? = some c → isDigit 16 c = false ∧ c ≠ 120 ∧ c ≠ 88) :
    scanHexLong (digits ++ s) =
      some (hexLongOf (numeralValue 16 (digits.take 512)), digits.drop 512 ++ s) := by
  obtain ⟨d, t, rfl⟩ := List.exists_cons_of_ne_nil hne
  have hfirst := hd d List.mem_cons_self
  have hspace : (d :: t ++ s).dropWhile isSpace = d :: t ++ s := dropWhile_isSpace hfirst
  have htake : (d :: t ++ s).take 512 = d :: (t.take 511 ++ s.take (512 - (d :: t).length)) := by
    rw [List.take_append, List.take_succ_cons, List.cons_append]
  have hdigits : (d :: t).take 512 = d :: t.take 511 := List.take_succ_cons
  have hsign : signLength (d :: (t.take 511 ++ s.take (512 - (d :: t).length))) = 0 := signLength_digit hfirst
  have hskip : hexPrefixLength (d :: (t.take 511 ++ s.take (512 - (d :: t).length))) = 0 := by
    refine hexPrefixLength_eq_zero fun x u heq => ?_
    rw [List.cons.injEq] at heq
    cases t with
    | nil =>
        rw [List.take_nil, List.nil_append] at heq
        exact (hs x (head?_of_take (by rw [heq.2]; rfl))).2
    | cons y t =>
        obtain ⟨rfl, _⟩ := List.cons.inj heq.2
        have hy := hd y (List.mem_cons_of_mem _ List.mem_cons_self)
        constructor <;> rintro rfl <;> revert hy <;> decide
  have hfield : (d :: (t.take 511 ++ s.take (512 - (d :: t).length))).takeWhile (isDigit 16) = d :: t.take 511 := by
    show (d :: t.take 511 ++ _).takeWhile (isDigit 16) = _
    refine takeWhile_field (fun x hx => hd x ?_) fun x hx => (hs x (head?_of_take hx)).1
    rw [← hdigits] at hx
    exact List.mem_of_mem_take hx
  have hminus : ¬ (d :: (t.take 511 ++ s.take (512 - (d :: t).length))).head? = some 45 := by
    intro heq
    obtain rfl : d = 45 := by simpa using heq
    revert hfirst
    decide
  have hrest : (d :: t ++ s).drop (d :: t.take 511).length = (d :: t).drop 512 ++ s := by
    rw [← hdigits, List.length_take, List.drop_append, Nat.sub_eq_zero_of_le (Nat.min_le_right ..), List.drop_zero]
    rcases Nat.le_total 512 (d :: t).length with hle | hle
    · rw [Nat.min_eq_left hle]
    · rw [Nat.min_eq_right hle, List.drop_length, List.drop_eq_nil_of_le hle]
  unfold scanHexLong hexLongOf
  simp only [hspace, htake, hsign, List.drop_zero, hskip, hfield, Nat.zero_add, if_neg hminus, hrest, hdigits,
    reduceCtorEq, if_false]

theorem scanHexLong_numeral (v : UInt64) (hs : s.head? = some c) (hc : isDigit 16 c = false)
    (hx : c ≠ 120 ∧ c ≠ 88) : scanHexLong (numeral 16 v.toNat ++ s) = some (v, s) := by
  have hvalue := @numeralValue_numeral 16 (by omega) (by omega) v.toNat
  have hlen : (numeral 16 v.toNat).length ≤ 16 := length_numeral_le (by omega) (by omega) v.toNat_lt
  rw [scanHexLong_field (numeral_ne_nil 16 v.toNat)
    (fun d hd => isDigit_of_mem_numeral (by omega) (by omega) hd) fun d hd => ?_, List.take_of_length_le (by omega),
    List.drop_eq_nil_of_le (by omega), hvalue, hexLongOf, if_neg (Nat.not_le.mpr v.toNat_lt), UInt64.ofNat_toNat,
    List.nil_append]
  obtain rfl := Option.some.inj (hs.symm.trans hd)
  exact ⟨hc, hx⟩

theorem sscanf_hexLong (v : UInt64) (hs : s.head? = some c) (hc : isDigit 16 c = false)
    (hx : c ≠ 120 ∧ c ≠ 88) :
    sscanf (.hexLong :: format) (numeral 16 v.toNat ++ s) = .long v :: sscanf format s := by
  rw [sscanf, scanHexLong_numeral v hs hc hx]

end ObservableBSD.Base
