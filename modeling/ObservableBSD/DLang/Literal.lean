import ObservableBSD.DLang.Lexer

/-!
# What a string constant denotes

A string constant denotes its characters, where a backslash and what stands behind it are read as one character. Which
characters these are is left open, but for the quote.
-/

namespace ObservableBSD.DLang

/-- A reading of the text behind a backslash: the character that it starts with denotes, and the rest. -/
structure Escapes where
  read : List Char → Option (Char × List Char)
  shorter : ∀ {s c rest}, read s = some (c, rest) → ∃ d used, s = d :: (used ++ rest)
  quote : ∀ s, read ('"' :: s) = some ('"', s)

/-- The text between the quotes denotes `t`. -/
inductive Escapes.Denotes (e : Escapes) : List Char → List Char → Prop where
  | nil : e.Denotes [] []
  | plain {c : Char} {s t : List Char} : c ≠ '\\' → e.Denotes s t → e.Denotes (c :: s) (c :: t)
  | escape {c : Char} {s rest t : List Char} :
      e.read s = some (c, rest) → e.Denotes rest t → e.Denotes ('\\' :: s) (c :: t)

/-! ## Length -/

/-- The characters that no backslash in front takes into an escape sequence and that are not such a backslash, with one
for each sequence. `escaped` tells whether a backslash stands in front. -/
def plainCount : Bool → List Char → Nat
  | _, [] => 0
  | true, _ :: s => 1 + plainCount false s
  | false, c :: s => if c = '\\' then plainCount true s else 1 + plainCount false s

theorem plainCount_near (s : List Char) :
    plainCount false s ≤ plainCount true s ∧ plainCount true s ≤ 1 + plainCount false s := by
  induction s with
  | nil => exact ⟨Nat.le_refl 0, Nat.zero_le _⟩
  | cons c s ih =>
      rw [plainCount, plainCount]
      split <;> omega

theorem plainCount_le_append (u s : List Char) : plainCount false s ≤ plainCount false (u ++ s) := by
  induction u with
  | nil => exact Nat.le_refl _
  | cons c u ih =>
      have hnear := plainCount_near (u ++ s)
      rw [List.cons_append, plainCount]
      split <;> omega

theorem Escapes.Denotes.length_le {e : Escapes} {s t : List Char} (h : e.Denotes s t) :
    t.length ≤ plainCount false s := by
  induction h with
  | nil => exact Nat.le_refl 0
  | plain hc _ ih =>
      rw [List.length_cons, plainCount, if_neg hc]
      omega
  | escape hread _ ih =>
      obtain ⟨d, used, rfl⟩ := e.shorter hread
      rw [List.length_cons, plainCount, if_pos rfl, plainCount]
      exact Nat.le_trans (Nat.add_le_add_right ih 1)
        (by rw [Nat.add_comm]; exact Nat.add_le_add_left (plainCount_le_append used _) 1)

/-! ## The escape sequences of C -/

def simpleEscapes : List (Char × Char) :=
  [('a', '\x07'), ('b', '\x08'), ('f', '\x0c'), ('n', '\n'), ('r', '\r'), ('t', '\t'), ('v', '\x0b'), ('"', '"'),
    ('\'', '\''), ('?', '?'), ('\\', '\\')]

def isOctal (c : Char) : Bool := '0' ≤ c && c ≤ '7'

def isHex (c : Char) : Bool := c.isDigit || ('a' ≤ c && c ≤ 'f') || ('A' ≤ c && c ≤ 'F')

def hexDigit (c : Char) : Nat := if c.isDigit then c.toNat - 48 else if 'a' ≤ c then c.toNat - 87 else c.toNat - 55

/-- Up to three octal digits, or `x` and hexadecimal digits, give the code of a character. -/
def cRead : List Char → Option (Char × List Char)
  | [] => none
  | c :: s => match simpleEscapes.lookup c with
      | some d => some (d, s)
      | none =>
          if isOctal c then
            let more := (s.take 2).takeWhile isOctal
            some (Char.ofNat ((c :: more).foldl (fun n d => n * 8 + (d.toNat - 48)) 0 % 256), s.drop more.length)
          else if c = 'x' ∧ s.head?.any isHex then
            some (Char.ofNat ((s.takeWhile isHex).foldl (fun n d => n * 16 + hexDigit d) 0 % 256), s.dropWhile isHex)
          else none

def cEscapes : Escapes where
  read := cRead
  shorter := by
    intro s c rest h
    cases s with
    | nil => cases h
    | cons d s =>
        rw [cRead] at h
        split at h
        · cases h
          exact ⟨d, [], rfl⟩
        split at h
        · obtain ⟨_, rfl⟩ := Prod.mk.inj (Option.some.inj h)
          exact ⟨d, s.take _, by rw [List.take_append_drop]⟩
        split at h
        · obtain ⟨_, rfl⟩ := Prod.mk.inj (Option.some.inj h)
          exact ⟨d, s.takeWhile isHex, by rw [List.takeWhile_append_dropWhile]⟩
        · cases h
  quote _ := rfl

end ObservableBSD.DLang
