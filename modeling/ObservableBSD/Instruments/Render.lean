import ObservableBSD.Base.Characters
import ObservableBSD.Instruments.Profile

/-!
# Marker comments

The second and the third step of `Profile.render`: four comments of a profile are replaced. Parameters are
substituted before them, and a clause for the duration is put behind the text.
-/

namespace ObservableBSD.Instruments

open Base Export

/-- Replaces from the left, where `front` was passed and `skip` scalars of an occurrence are still to be passed over. -/
def replacing (boundary : CharacterBoundary) (target replacement : Text) : Nat → Text → Text → Text
  | _, _, [] => []
  | skip + 1, front, c :: s => replacing boundary target replacement skip (front ++ [c]) s
  | 0, front, c :: s =>
      if target.isPrefixOf (c :: s) && boundary front (c :: s) &&
          boundary (front ++ target) ((c :: s).drop target.length) then
        replacement ++ replacing boundary target replacement (target.length - 1) (front ++ [c]) s
      else c :: replacing boundary target replacement 0 (front ++ [c]) s

/-- `replacingOccurrences(of:with:)`, which looks for `Character`s. -/
def replacingOccurrences (boundary : CharacterBoundary) (target replacement s : Text) : Text :=
  replacing boundary target replacement 0 [] s

def predicateComment : Text := text "/* @bsdinstruments-predicate */"

def predicateAndComment : Text := text "/* @bsdinstruments-predicate-and */"

def stackComment : Text := text "/* @bsdinstruments-stack */"

def ustackComment : Text := text "/* @bsdinstruments-ustack */"

def markerComments : List Text := [predicateComment, predicateAndComment, stackComment, ustackComment]

/-- The arguments of `Profile.render` that the marker comments are replaced by. -/
structure Injection where
  predicate : Text := []
  predicateAnd : Text := []
  withStack : Bool := false
  withUstack : Bool := false

def Injection.render (i : Injection) (boundary : CharacterBoundary) (source : Text) : Text :=
  let rendered := replacingOccurrences boundary predicateAndComment i.predicateAnd source
  let rendered := replacingOccurrences boundary predicateComment i.predicate rendered
  let rendered := replacingOccurrences boundary stackComment (stackAction i.withStack) rendered
  replacingOccurrences boundary ustackComment (ustackAction i.withStack i.withUstack) rendered

end ObservableBSD.Instruments
