import Mathlib.Data.List.DropRight
import ObservableBSD.Base.Characters
import ObservableBSD.Base.Numeral
import ObservableBSD.Export.Event

/-!
# Text of the Swift library

`String` and `CharacterSet` functions over texts, which are lists of Unicode scalars. Trimming and the reading of
numbers look at the scalars. What looks for `Character`s finds a scalar only where a `Character` starts in front of it
and ends behind it.
-/

namespace ObservableBSD.Instruments

open Base Export

/-- `CharacterSet.whitespaces`. -/
def whitespaces (c : Char) : Bool :=
  c = '\t' || [0x20, 0xA0, 0x1680, 0x202F, 0x205F, 0x3000].contains c.toNat ||
    (0x2000 ≤ c.toNat && c.toNat ≤ 0x200A)

/-- `CharacterSet.whitespacesAndNewlines`. -/
def whitespacesAndNewlines (c : Char) : Bool :=
  whitespaces c || (0x0A ≤ c.toNat && c.toNat ≤ 0x0D) || [0x85, 0x2028, 0x2029].contains c.toNat

/-- `Character.isWhitespace`: the Unicode property White_Space of its first scalar. -/
def isWhitespace (c : Char) : Bool := whitespacesAndNewlines c

def trimmingCharacters (set : Char → Bool) (s : Text) : Text := (s.dropWhile set).rdropWhile set

/-- `hasPrefix`: a `Character` of the text ends behind the prefix. -/
def hasPrefix (boundary : CharacterBoundary) (s pre : Text) : Bool :=
  pre.isPrefixOf s && boundary pre (s.drop pre.length)

/-- `split(separator: "\n", omittingEmptySubsequences: false)`. CR LF is one `Character`, and separates nothing. -/
def splitNewlines : Text → List Text
  | [] => [[]]
  | '\r' :: '\n' :: s => (splitNewlines s).modifyHead ('\r' :: '\n' :: ·)
  | c :: s => if c = '\n' then [] :: splitNewlines s else (splitNewlines s).modifyHead (c :: ·)

/-- Tables in which an acute accent joins what stands in front of it, and nothing else joins anything. -/
def accentJoining : Joining where
  combining c := c = '\u0301'
  prepending _ := false
  beyond _ d := d ≠ '\u0301'

def digitsValue? (radix : Nat) : Text → Option Nat
  | [] => none
  | c :: s => (c :: s).foldlM (fun acc d => (digitValue? radix d.toNat).map (acc * radix + ·)) 0

/-- The initializer of an integer type from text: a sign and digits, within the bounds of the type. -/
def integer? (radix : Nat) (low high : Int) (s : Text) : Option Int :=
  let n := match s with
    | '+' :: s => (digitsValue? radix s).map Int.ofNat
    | '-' :: s => (digitsValue? radix s).map fun v => -(v : Int)
    | s => (digitsValue? radix s).map Int.ofNat
  n.filter fun v => low ≤ v ∧ v ≤ high

/-- `UInt64(_:radix:)` with radix 16. -/
def uint64OfHex? (s : Text) : Option UInt64 :=
  (integer? 16 0 18446744073709551615 s).map fun v => UInt64.ofNat v.toNat

def int32? (s : Text) : Option Int32 := (integer? 10 (-2147483648) 2147483647 s).map Int32.ofInt

end ObservableBSD.Instruments
