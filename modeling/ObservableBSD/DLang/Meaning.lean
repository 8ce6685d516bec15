import ObservableBSD.DLang.Parser

/-!
# Meaning of D expressions

The operators up to `&&` mean what they mean in C. The operands mean anything, and may change the state
that they are evaluated in.
-/

namespace ObservableBSD.DLang

/-- A meaning of the operands and of storing a value. -/
structure Meaning (σ : Type) where
  operand : List Item → σ → Int × σ
  assign : List Char → List Item → Int → σ → Int × σ

def truth (v : Int) : Int := if v = 0 then 0 else 1

variable {σ : Type} (m : Meaning σ)

/-- The value of an expression and the state behind it. -/
def eval : Expr → σ → Int × σ
  | .operand items, s => m.operand items s
  | .paren e, s => eval e s
  | .and a b, s =>
      let r := eval a s
      if r.1 = 0 then (0, r.2) else (truth (eval b r.2).1, (eval b r.2).2)
  | .xor a b, s =>
      let r := eval a s
      let q := eval b r.2
      (if truth r.1 = truth q.1 then 0 else 1, q.2)
  | .or a b, s =>
      let r := eval a s
      if r.1 = 0 then (truth (eval b r.2).1, (eval b r.2).2) else (1, r.2)
  | .cond c t e, s =>
      let r := eval c s
      if r.1 = 0 then eval e r.2 else eval t r.2
  | .assign op lhs e, s =>
      let r := eval e s
      m.assign op lhs r.1 r.2
  | .comma a b, s => eval b (eval a s).2

variable {m} {s : σ} (a b e : Expr)

@[simp] theorem eval_paren : eval m (.paren e) s = eval m e s := rfl

@[simp] theorem eval_and : eval m (.and a b) s =
    if (eval m a s).1 = 0 then (0, (eval m a s).2)
    else (truth (eval m b (eval m a s).2).1, (eval m b (eval m a s).2).2) := rfl

@[simp] theorem eval_xor : eval m (.xor a b) s =
    (if truth (eval m a s).1 = truth (eval m b (eval m a s).2).1 then 0 else 1, (eval m b (eval m a s).2).2) := rfl

@[simp] theorem eval_or : eval m (.or a b) s =
    if (eval m a s).1 = 0 then (truth (eval m b (eval m a s).2).1, (eval m b (eval m a s).2).2)
    else (1, (eval m a s).2) := rfl

@[simp] theorem eval_cond : eval m (.cond a b e) s =
    if (eval m a s).1 = 0 then eval m e (eval m a s).2 else eval m b (eval m a s).2 := rfl

@[simp] theorem eval_assign (op : List Char) (lhs : List Item) :
    eval m (.assign op lhs e) s = m.assign op lhs (eval m e s).1 (eval m e s).2 := rfl

@[simp] theorem eval_comma : eval m (.comma a b) s = eval m b (eval m a s).2 := rfl

end ObservableBSD.DLang
