import Mathlib.Data.List.Basic

/-!
# JSON values

The values of a JSON document (RFC 8259). A number keeps its characters, so that none of them is rounded.
-/

namespace ObservableBSD.Json

/-! ## Numbers -/

/-- The characters behind a fraction, when there is one. -/
def dropFraction : List Char → Option (List Char)
  | '.' :: cs => if cs.takeWhile Char.isDigit = [] then none else some (cs.dropWhile Char.isDigit)
  | cs => some cs

def allDigits (cs : List Char) : Bool := cs ≠ [] && cs.all Char.isDigit

/-- An exponent, or nothing. -/
def isExponent : List Char → Bool
  | [] => true
  | c :: '+' :: cs => (c = 'e' || c = 'E') && allDigits cs
  | c :: '-' :: cs => (c = 'e' || c = 'E') && allDigits cs
  | c :: cs => (c = 'e' || c = 'E') && allDigits cs

/-- A number without a sign; a digit behind a leading zero is refused. -/
def isUnsigned (cs : List Char) : Bool :=
  let int := cs.takeWhile Char.isDigit
  int ≠ [] && (int = ['0'] || int.head? ≠ some '0') &&
    ((dropFraction (cs.dropWhile Char.isDigit)).any isExponent)

def isNumber : List Char → Bool
  | '-' :: cs => isUnsigned cs
  | cs => isUnsigned cs

structure JsonNumber where
  chars : List Char
  valid : isNumber chars = true

/-- The number of a numeral of decimal digits. -/
def natOfChars? (cs : List Char) : Option Nat :=
  if allDigits cs then some (Nat.ofDigitChars 10 cs 0) else none

def intOfChars? : List Char → Option Int
  | '-' :: cs => (natOfChars? cs).map fun n : Nat => -Int.ofNat n
  | cs => (natOfChars? cs).map Int.ofNat

/-- The decimal digits of an integer, with a minus sign when it is negative. -/
def intChars (v : Int) : List Char :=
  if v < 0 then '-' :: Nat.toDigits 10 v.natAbs else Nat.toDigits 10 v.natAbs

/-! ## Values -/

inductive Value where
  | null
  | bool (b : Bool)
  | number (n : JsonNumber)
  | string (s : List Char)
  | array (elems : List Value)
  | object (members : List (List Char × Value))

/-- The value of the first member of this name. -/
def Value.field? (name : List Char) : Value → Option Value
  | .object members => (members.find? fun m => m.1 = name).map (·.2)
  | _ => none

@[simp] theorem Value.field?_self (name : List Char) (v : Value) (members : List (List Char × Value)) :
    (Value.object ((name, v) :: members)).field? name = some v := by
  simp [Value.field?]

theorem Value.field?_ne {name name' : List Char} (h : name' ≠ name) (v : Value)
    (members : List (List Char × Value)) :
    (Value.object ((name', v) :: members)).field? name = (Value.object members).field? name := by
  simp [Value.field?, h]

def Value.string? : Value → Option (List Char)
  | .string s => some s
  | _ => none

def Value.int? : Value → Option Int
  | .number n => intOfChars? n.chars
  | _ => none

def Value.bool? : Value → Option Bool
  | .bool b => some b
  | _ => none

def Value.array? : Value → Option (List Value)
  | .array elems => some elems
  | _ => none

end ObservableBSD.Json
