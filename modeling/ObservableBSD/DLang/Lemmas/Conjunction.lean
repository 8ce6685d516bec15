import ObservableBSD.DLang.Lemmas.Lexer
import ObservableBSD.DLang.Lemmas.Parser

/-! What is read when operands of `&&` are put behind the text of an expression. -/

namespace ObservableBSD.DLang

variable {cs : List Char} {clauses : List (List Char)} {toks u : List Token} {f : Frame} {e x y : Expr} {fs : List Expr}

/-! ## The parts of a parse -/

/-- Each operand behind its `&&`. -/
def conjoin (clauses : List (List Char)) : List Char := clauses.flatMap fun c => " && ".toList ++ c

/-- The tokens that an operand of `&&` takes as they are. -/
def Token.isWord : Token → Bool
  | .word _ | .literal _ => true
  | _ => false

end ObservableBSD.DLang
