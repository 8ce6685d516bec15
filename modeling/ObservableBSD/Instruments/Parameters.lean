import ObservableBSD.Instruments.Render

/-!
# Parameters of a profile

`Profile.render` with its first step, which puts values in the place of `${name}`. The matches are found once, in the
source; the values are put in from the last match to the first, at the offsets that the source has. Here an offset
counts scalars. Several scalars may form one `Character`, and a range that cuts one in two is no range of the text.
-/

namespace ObservableBSD.Instruments

open Base Export

structure NSRange where
  location : Nat
  length : Nat
deriving DecidableEq

/-- `Range(_:in:)`, with the text cut at its ends. -/
def NSRange.cut? (boundary : CharacterBoundary) (r : NSRange) (s : Text) : Option (Text × Text × Text) :=
  let front := s.take r.location
  let inside := (s.drop r.location).take r.length
  let behind := s.drop (r.location + r.length)
  if r.location + r.length ≤ s.length ∧ boundary front (inside ++ behind) ∧ boundary (front ++ inside) behind then
    some (front, inside, behind)
  else none

/-- `[A-Za-z_]`. -/
def isIdentStart (c : Char) : Bool := ('A' ≤ c && c ≤ 'Z') || ('a' ≤ c && c ≤ 'z') || c = '_'

/-- `[A-Za-z0-9_]`. -/
def isIdentChar (c : Char) : Bool := isIdentStart c || ('0' ≤ c && c ≤ '9')

/-- The name, if a text starts with a match of `\$\{([A-Za-z_][A-Za-z0-9_]*)\}`. -/
def placeholderName? : Text → Option Text
  | '$' :: '{' :: c :: s =>
      if isIdentStart c ∧ (s.dropWhile isIdentChar).head? = some '}' then some (c :: s.takeWhile isIdentChar) else none
  | _ => none

structure PlaceholderMatch where
  range : NSRange
  nameRange : NSRange

/-- `matches(in:range:)`, where `skip` characters of a match are still to be passed over. -/
def placeholderMatches : Nat → Nat → Text → List PlaceholderMatch
  | _, _, [] => []
  | location, skip + 1, _ :: s => placeholderMatches (location + 1) skip s
  | location, 0, c :: s => match placeholderName? (c :: s) with
      | some name => ⟨⟨location, name.length + 3⟩, ⟨location + 2, name.length⟩⟩ ::
          placeholderMatches (location + 1) (name.length + 2) s
      | none => placeholderMatches (location + 1) 0 s

inductive ProfileError where
  | missingParameter (name profile : Text)
deriving DecidableEq

/-- The loop over the matches. -/
def replaceMatches (boundary : CharacterBoundary) (parameters : Text → Option Text) (profile : Text) :
    List PlaceholderMatch → Text → Except ProfileError Text
  | [], rendered => .ok rendered
  | m :: ms, rendered => match m.nameRange.cut? boundary rendered, m.range.cut? boundary rendered with
      | some (_, name, _), some (front, _, behind) => match parameters name with
          | none => .error (.missingParameter name profile)
          | some value => replaceMatches boundary parameters profile ms (front ++ value ++ behind)
      | _, _ => replaceMatches boundary parameters profile ms rendered

structure Profile where
  name : Text
  source : Text

/-- `nanos` is the duration, if it is given and positive. -/
def Profile.render (boundary : CharacterBoundary) (p : Profile) (parameters : Text → Option Text) (i : Injection)
    (nanos : Option Nat) : Except ProfileError Text := do
  let rendered ← replaceMatches boundary parameters p.name (placeholderMatches 0 0 p.source).reverse p.source
  let rendered := i.render boundary rendered
  match nanos with
  | none => return rendered
  | some n => return rendered ++ text "\n\ntick-" ++ Nat.toDigits 10 n ++ text "ns \x7b exit(0); \x7d\n"

/-! ## Substitution -/

def IsIdent : Text → Prop
  | [] => False
  | c :: s => isIdentStart c = true ∧ ∀ d ∈ s, isIdentChar d = true

def placeholder (name : Text) : Text := '$' :: '{' :: (name ++ ['}'])

def HasPlaceholder (s name : Text) : Prop := IsIdent name ∧ placeholder name <:+: s

/-- Every placeholder of the text is replaced by its value, and nothing else. -/
inductive Substitutes (parameters : Text → Option Text) : Text → Text → Prop where
  | nil : Substitutes parameters [] []
  | plain {c : Char} {s t : Text} : (∀ name, IsIdent name → ¬ placeholder name <+: c :: s) →
      Substitutes parameters s t → Substitutes parameters (c :: s) (c :: t)
  | placeholder {name value s t : Text} : IsIdent name → parameters name = some value →
      Substitutes parameters s t → Substitutes parameters (placeholder name ++ s) (value ++ t)

/-- What `render` promises about the placeholders. -/
structure ParametersSubstituted (boundary : CharacterBoundary) (p : Profile) (parameters : Text → Option Text) :
    Prop where
  throws : ∀ i nanos, (∃ name, p.render boundary parameters i nanos = .error (.missingParameter name p.name)) ↔
    ∃ name, HasPlaceholder p.source name ∧ parameters name = none
  substitutes : (∀ name, HasPlaceholder p.source name → parameters name ≠ none) →
    ∃ t, (∀ t', Substitutes parameters p.source t' ↔ t' = t) ∧
      ∀ i, (∀ m ∈ markerComments, ¬ m <:+: t) → p.render boundary parameters i none = .ok t

/-- No `Character` reaches over an end of the placeholder or of its name. -/
structure OnBoundaries (boundary : CharacterBoundary) (front name behind : Text) : Prop where
  first : boundary front (placeholder name ++ behind) = true
  nameFirst : boundary (front ++ ['$', '{']) (name ++ '}' :: behind) = true
  nameLast : boundary (front ++ '$' :: '{' :: name) ('}' :: behind) = true
  last : boundary (front ++ placeholder name) behind = true

/-- Every placeholder of `s` behind `front` is on boundaries when the values are put in the place of those behind it. -/
def PlaceholdersOnBoundaries (boundary : CharacterBoundary) (parameters : Text → Option Text) (front s : Text) : Prop :=
  ∀ before name behind t, s = before ++ (placeholder name ++ behind) → IsIdent name →
    Substitutes parameters behind t → OnBoundaries boundary (front ++ before) name t

end ObservableBSD.Instruments
