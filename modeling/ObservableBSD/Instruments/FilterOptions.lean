import Mathlib.Algebra.Group.Even
import Mathlib.Data.List.DropRight
import ObservableBSD.DLang.Literal
import ObservableBSD.DLang.Meaning
import ObservableBSD.DLang.Parser
import ObservableBSD.Instruments.Render
import ObservableBSD.Json.Value

/-!
# Filter flags

The predicate that the filter flags of a command add to a profile's probes.
-/

namespace ObservableBSD.Instruments

open Base DLang Export Json

structure FilterOptions where
  pid : Option Int32 := none
  execname : Option Text := none
  uid : Option UInt32 := none
  gid : Option UInt32 := none
  jail : Option Int32 := none
  wherePredicate : Option Text := none

/-- A comparison with a number. -/
def equalsClause (name : String) (value : Int) : Text := text name ++ text " == " ++ intChars value

/-- The clause of `--execname`, with its double quotes escaped. -/
def execnameClause (boundary : CharacterBoundary) (execname : Text) : Text :=
  text "execname == \"" ++ replacingOccurrences boundary (text "\"") (text "\\\"") execname ++ text "\""

/-- The clause is the comparison with one string constant that denotes the name, whatever stands behind it. -/
def ExecnameKept (boundary : CharacterBoundary) (e : Escapes) (execname : Text) : Prop :=
  ∃ body, e.Denotes body execname ∧ ∀ rest, lex (execnameClause boundary execname ++ rest) =
    (lex rest).map ([.word (text "execname"), .word (text "=="), .literal ('"' :: (body ++ ['"']))] ++ ·)

/-- Each double quote of the name is a `Character` of its own. -/
def QuotesAlone (boundary : CharacterBoundary) (execname : Text) : Prop :=
  ∀ front behind, execname = front ++ '"' :: behind →
    boundary front ('"' :: behind) = true ∧ boundary (front ++ ['"']) behind = true

/-- How many backslashes a text ends in. -/
def backslashes (s : Text) : Nat := (s.rtakeWhile (· = '\\')).length

/-- No newline is in the name. An even number of backslashes stands in front of each double quote that is a `Character`
of its own and at the end, and an odd number in front of each other double quote. -/
structure QuotesPaired (boundary : CharacterBoundary) (execname : Text) : Prop where
  newline : '\n' ∉ execname
  quotes : ∀ front behind, execname = front ++ '"' :: behind →
    (Even (backslashes front) ↔
      boundary front ('"' :: behind) = true ∧ boundary (front ++ ['"']) behind = true)
  last : Even (backslashes execname)

def whereClause (wherePredicate : Text) : Text := text "(" ++ wherePredicate ++ text ")"

def joined (separator : Text) : List Text → Text
  | [] => []
  | [c] => c
  | c :: clauses => c ++ separator ++ joined separator clauses

namespace FilterOptions

/-- The clauses, without slashes or any joining `&&`. -/
def clauseList (opts : FilterOptions) (boundary : CharacterBoundary) : List Text :=
  (opts.pid.map fun pid => equalsClause "pid" pid.toInt).toList ++
  (opts.execname.map (execnameClause boundary)).toList ++
  (opts.uid.map fun uid => equalsClause "uid" uid.toNat).toList ++
  (opts.gid.map fun gid => equalsClause "gid" gid.toNat).toList ++
  (opts.jail.map fun jail => equalsClause "curproc->p_ucred->cr_prison->pr_id" jail.toInt).toList ++
  (opts.wherePredicate.map whereClause).toList

def renderPredicateAnd (opts : FilterOptions) (boundary : CharacterBoundary) : Text :=
  if (opts.clauseList boundary).isEmpty then [] else text " && " ++ joined (text " && ") (opts.clauseList boundary)

end FilterOptions

/-!
## Predicates of profiles

A profile with a predicate of its own places the predicate-and comment at the end of it, inside the slashes.
-/

structure PredicateBlock where
  before : Text
  expr : Text
  after : Text := []
  behind : Text

namespace PredicateBlock

def source (b : PredicateBlock) : Text :=
  b.before ++ '/' :: (b.expr ++ predicateAndComment ++ b.after ++ '/' :: b.behind)

/-- The predicate with the filters in it. -/
def predicate (b : PredicateBlock) (opts : FilterOptions) (boundary : CharacterBoundary) : Text :=
  b.expr ++ opts.renderPredicateAnd boundary ++ b.after

end PredicateBlock

end ObservableBSD.Instruments
