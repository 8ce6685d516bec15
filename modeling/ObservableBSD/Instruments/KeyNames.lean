import Mathlib.Logic.Function.Basic
import ObservableBSD.Base.Separated
import ObservableBSD.DLang.Lexer
import ObservableBSD.Export.Json
import ObservableBSD.Instruments.Parameters
import ObservableBSD.Instruments.Text

/-!
# Names of aggregation keys

`parseAggregationKeyNames` looks in the rendered source for text of the form `@name[keys]`. It knows neither comments
nor constants, and it takes the first bracket that closes and every comma for those of the keys.
-/

namespace ObservableBSD.Instruments

open Base DLang Export

/-- `\w`, where `beyond` tells for characters outside ASCII. -/
def isWord (beyond : Char → Bool) (c : Char) : Bool := isIdentChar c || (128 ≤ c.toNat && beyond c)

/-- The two groups of a match of `@(\w+)\[([^\]]+)\]`, and where it starts. -/
structure KeyMatch where
  location : Nat
  name : Text
  keys : Text
deriving DecidableEq

namespace KeyMatch

def length (m : KeyMatch) : Nat := m.name.length + m.keys.length + 3

def nameRange (m : KeyMatch) : NSRange := ⟨m.location + 1, m.name.length⟩

def keysRange (m : KeyMatch) : NSRange := ⟨m.location + m.name.length + 2, m.keys.length⟩

end KeyMatch

/-- The match that a text starts with. -/
def keyMatch? (beyond : Char → Bool) (location : Nat) : Text → Option KeyMatch
  | '@' :: s =>
      let name := s.takeWhile (isWord beyond)
      let keys := (s.dropWhile (isWord beyond)).tail.takeWhile (· ≠ ']')
      if name ≠ [] ∧ keys ≠ [] ∧ (s.dropWhile (isWord beyond)).head? = some '[' ∧
          ']' ∈ s.dropWhile (isWord beyond) then
        some { location, name, keys }
      else none
  | _ => none

/-- `matches(in:range:)`, where `skip` scalars of a match are still to be passed over. -/
def keyMatches (beyond : Char → Bool) : Nat → Nat → Text → List KeyMatch
  | _, _, [] => []
  | location, skip + 1, _ :: s => keyMatches beyond (location + 1) skip s
  | location, 0, c :: s => match keyMatch? beyond location (c :: s) with
      | some m => m :: keyMatches beyond (location + 1) (m.length - 1) s
      | none => keyMatches beyond (location + 1) 0 s

/-- The names of builtins that the parser knows. -/
def builtinNames : List (Text × Text) :=
  [(text "execname", text "execname"), (text "pid", text "pid"), (text "tid", text "tid"), (text "cpu", text "cpu"),
    (text "probefunc", text "syscall"), (text "probename", text "probe"), (text "probemod", text "module"),
    (text "probeprov", text "provider")]

def keyN (i : Nat) : Text := text "key." ++ natText i

def keyName (boundary : CharacterBoundary) (i : Nat) (expr : Text) : Text := match builtinNames.lookup expr with
  | some name => name
  | none => if hasPrefix boundary expr (text "\"") then text "label" else keyN i

def keyNames (boundary : CharacterBoundary) (keys : Text) : List Text :=
  ((split (',', true) none (scalars boundary keys)).map fun piece =>
    trimmingCharacters whitespaces (piece.map Prod.fst)).mapIdx (keyName boundary)

/-- One round of the loop over the matches: the first occurrence wins. -/
def addKeyNames (boundary : CharacterBoundary) (source : Text) (result : Text → Option (List Text)) (m : KeyMatch) :
    Text → Option (List Text) :=
  match m.nameRange.cut? boundary source, m.keysRange.cut? boundary source with
  | some (_, name, _), some (_, keys, _) =>
      if result name ≠ none then result else Function.update result name (some (keyNames boundary keys))
  | _, _ => result

def parseAggregationKeyNames (boundary : CharacterBoundary) (beyond : Char → Bool) (source : Text) :
    Text → Option (List Text) :=
  (keyMatches beyond 0 0 source).foldl (addKeyNames boundary source) fun _ => none

/-- The attributes that `aggregateWalkTyped` makes of the keys of a record. -/
def recordAttributes (aggKeyNames : Text → Option (List Text)) (name : Text) (keys : List Text) : List (Text × Text) :=
  keys.mapIdx fun i v => (((aggKeyNames name).bind (·[i]?)).getD (keyN i), v)

/-! ## Keys as they are meant -/

/-- The name that a key should have. -/
def documentedName (i : Nat) (element : Element) : Text := match element.tokens with
  | [.word w] => (builtinNames.lookup w).getD (keyN i)
  | [.literal ('"' :: _)] => text "label"
  | _ => keyN i

/-- The first token `@name` of a source, with the list of keys in brackets behind it. -/
structure FirstUse (source name : Text) where
  front : Text
  gap : Text
  list : Text
  elements : List Element
  rest : Text
  ident : IsIdent name
  source_eq : source = front ++ '@' :: (name ++ (gap ++ '[' :: list))
  first : ∃ toks, LexTo source toks ('@' :: (name ++ (gap ++ '[' :: list))) ∧ .word ('@' :: name) ∉ toks
  token : lexStep ('@' :: (name ++ (gap ++ '[' :: list))) = some ([.word ('@' :: name)], gap ++ '[' :: list)
  blanks : LexTo (gap ++ '[' :: list) [] ('[' :: list)
  keys : Elements list elements rest
  spaces : ∀ element ∈ elements, ∀ c, .word [c] ∈ element.tokens → whitespaces c = false

/-- There is one name for each key, and the attributes of a record have these names. -/
structure KeysLineUp (aggKeyNames : Text → Option (List Text)) (name : Text) (elements : List Element) : Prop where
  names : aggKeyNames name = some (elements.mapIdx documentedName)
  attributes : ∀ values : List Text, values.length = elements.length →
    recordAttributes aggKeyNames name values = (elements.mapIdx documentedName).zip values

/-! ## Where the text can be trusted -/

/-- The bracket stands right behind the name. What looks like a use in front of the first one has another name and is
closed there. -/
structure FirstUse.Reached {source name : Text} (u : FirstUse source name) (beyond : Char → Bool) : Prop where
  adjacent : u.gap = []
  others : ∀ before s m, u.front = before ++ s → s ≠ [] →
    keyMatch? beyond before.length (s ++ '@' :: (name ++ (u.gap ++ '[' :: u.list))) = some m →
      m.name ≠ name ∧ m.length ≤ s.length

/-- What is taken for the text of a key, if the others are. -/
def pieceOf (element : Element) : Text := element.text.takeWhile (· ≠ ']')

/-- No key has a comma in front of a bracket that closes. -/
def FirstUse.Commas {source name : Text} (u : FirstUse source name) : Prop :=
  ∀ element ∈ u.elements, ',' ∉ pieceOf element

/-- Only the last key has a bracket that closes. -/
def FirstUse.Closes {source name : Text} (u : FirstUse source name) : Prop :=
  ∀ element ∈ u.elements.dropLast, ']' ∉ element.text

/-- The text that is taken for the keys starts and ends where a `Character` does, and the commas in it are
`Character`s of their own. -/
structure FirstUse.Unjoined {source name : Text} (u : FirstUse source name) (boundary : CharacterBoundary) : Prop where
  first : boundary (u.front ++ '@' :: (name ++ (u.gap ++ ['[']))) u.list = true
  last : boundary (u.front ++ '@' :: (name ++ (u.gap ++ '[' :: u.list.takeWhile (· ≠ ']')))) [']'] = true
  commas : ∀ e ∈ scalars boundary (u.list.takeWhile (· ≠ ']')), e.1 = ',' → e.2 = true

/-- Behind blanks, a text starts with a quote that is a `Character` of its own. -/
def StartsWithQuote (boundary : CharacterBoundary) (s : Text) : Prop :=
  ∃ before after, s = before ++ '"' :: after ∧ (∀ c ∈ before, whitespaces c = true) ∧
    boundary ['"'] (after.rdropWhile whitespaces) = true

/-- There are only blanks around a builtin and in front of a string constant, and no other key starts with a quote. -/
structure PlainKey (boundary : CharacterBoundary) (element : Element) : Prop where
  builtin : ∀ w, element.tokens = [.word w] → builtinNames.lookup w ≠ none →
    ∃ before after, pieceOf element = before ++ w ++ after ∧ ∀ c ∈ before ++ after, whitespaces c = true
  literal : ∀ s, element.tokens = [.literal ('"' :: s)] → StartsWithQuote boundary (pieceOf element)
  other : (∀ s, element.tokens ≠ [.literal ('"' :: s)]) → ¬ StartsWithQuote boundary (pieceOf element)

end ObservableBSD.Instruments
