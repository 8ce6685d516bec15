import ObservableBSD.DLang.Parser

/-! How the parser reads operands of `&&` behind an expression. -/

namespace ObservableBSD.DLang

variable {s s' u : State} {t : Token} {toks toks' : List Token} {stack below : List (Opened × Frame)}
  {f frame : Frame} {x : Opened × Frame} {e : Expr} {items : List Item}

theorem run_cons : run s (t :: toks) = (step s t).bind fun s' => run s' toks := rfl

theorem run_append : run s (toks ++ toks') = (run s toks).bind fun s' => run s' toks' := List.foldlM_append

/-! ## The stack below -/

/-- Nothing but items has been read. -/
structure Frame.Plain (f : Frame) : Prop where
  comma : f.comma = none
  pending : f.pending = []
  or : f.or = none
  xor : f.xor = none
  and : f.and = none

/-- The expression around the operands of `&&`. -/
def Frame.wrap (f : Frame) (x : Expr) : Expr :=
  joinLeft .comma f.comma (f.pending.foldl Pending.close (joinLeft .or f.or (joinLeft .xor f.xor x)))

end ObservableBSD.DLang
