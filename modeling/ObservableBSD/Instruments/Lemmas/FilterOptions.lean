import ObservableBSD.DLang.Lemmas.Conjunction
import ObservableBSD.DLang.Lemmas.Meaning
import ObservableBSD.Instruments.Lemmas.ExecnameClause
import ObservableBSD.Instruments.Lemmas.Render
import ObservableBSD.Json.Lemmas.Number

/-! The clauses of the filter flags as operands, and the texts that join them. -/

namespace ObservableBSD.Instruments

open Base DLang Export Json

variable {boundary : CharacterBoundary} {opts : FilterOptions} {c : Text} {toks : List Token} {e : Expr}
  {fs : List Expr}

/-! ## Numbers -/

theorem joined_cons (c : Text) (clauses : List Text) : joined (text " && ") (c :: clauses) = c ++ conjoin clauses := by
  induction clauses generalizing c with
  | nil => simp [joined, conjoin]
  | cons d clauses ih =>
      rw [joined, ih d]
      · simp [conjoin, text]
      · simp

namespace PredicateBlock

variable {b : PredicateBlock}

end PredicateBlock

end ObservableBSD.Instruments
