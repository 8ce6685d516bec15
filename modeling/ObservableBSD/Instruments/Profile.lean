import ObservableBSD.Export.Event

/-!
# Stack injection

The third step of `Profile.render`. A profile opts in with the two comments that `render` replaces; the
texts it puts there are D actions.
-/

namespace ObservableBSD.Instruments

open Export

/-- The line that tells user frames from kernel frames. -/
def ustackMarker : Text := text "__BSDINSTRUMENTS_USTACK__"

/-- The replacement of `/* @bsdinstruments-stack */`. -/
def stackAction (withStack : Bool) : Text := if withStack then text "stack();" else []

/-- The replacement of `/* @bsdinstruments-ustack */`. -/
def ustackAction (withStack withUstack : Bool) : Text :=
  if withUstack then
    if withStack then text "printf(\"__BSDINSTRUMENTS_USTACK__\\n\"); ustack();"
    else text "ustack();"
  else []

/-- The D actions among the replacements. -/
inductive Action where
  | stack
  | printLine (line : Text)
  | ustack
deriving DecidableEq

def Action.source : Action → Text
  | .stack => text "stack();"
  | .printLine line => text "printf(\"" ++ line ++ text "\\n\");"
  | .ustack => text "ustack();"

def actionsSource : List Action → Text
  | [] => []
  | [a] => a.source
  | a :: actions => a.source ++ ' ' :: actionsSource actions

/-- The actions that `render` injects for the kernel stack. -/
def stackActions (withStack : Bool) : List Action := if withStack then [.stack] else []

/-- The actions that `render` injects for the user stack. -/
def ustackActions (withStack withUstack : Bool) : List Action :=
  if withUstack then if withStack then [.printLine ustackMarker, .ustack] else [.ustack] else []

theorem stackActions_source (withStack : Bool) : actionsSource (stackActions withStack) = stackAction withStack := by
  cases withStack <;> rfl

theorem ustackActions_source (withStack withUstack : Bool) :
    actionsSource (ustackActions withStack withUstack) = ustackAction withStack withUstack := by
  cases withUstack <;> cases withStack <;>
    simp [ustackActions, ustackAction, actionsSource, Action.source, ustackMarker, text]

def renderedActions (withStack withUstack : Bool) : List Action :=
  stackActions withStack ++ ustackActions withStack withUstack

end ObservableBSD.Instruments
