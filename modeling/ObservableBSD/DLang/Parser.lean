import ObservableBSD.DLang.Lexer

/-!
# Parsing D expressions

An operator-precedence parser for the operators up to `&&`: from the loosest, `,`, the assignments, `?:`,
`||`, `^^` and `&&`. An operand of `&&` is a list of words, constants and bracketed groups; only one that is
a single group in parentheses is looked into.
-/

namespace ObservableBSD.DLang

mutual

inductive Item where
  | token (t : Token)
  | group (bracket : Char) (inner : Option Expr)

inductive Expr where
  | operand (items : List Item)
  | paren (e : Expr)
  | and (a b : Expr)
  | xor (a b : Expr)
  | or (a b : Expr)
  | cond (c t e : Expr)
  | assign (op : List Char) (lhs : List Item) (rhs : Expr)
  | comma (a b : Expr)

end

/-- A construct that waits for its last operand. -/
inductive Pending where
  | assign (op : List Char) (lhs : List Item)
  | cond (c t : Expr)

/-- What has been read of an expression: the left operands that wait, from the loosest operator on, and
the items of the operand that is read; the innermost pending construct comes first. -/
structure Frame where
  comma : Option Expr := none
  pending : List Pending := []
  or : Option Expr := none
  xor : Option Expr := none
  and : Option Expr := none
  items : List Item := []

/-- What an expression inside of another is read for. -/
inductive Opened where
  | bracket (c : Char)
  | question (c : Expr)

structure State where
  stack : List (Opened × Frame) := []
  frame : Frame := {}

/-! ## Reductions -/

def joinLeft (op : Expr → Expr → Expr) : Option Expr → Expr → Expr
  | none, x => x
  | some a, x => op a x

def Pending.close (x : Expr) : Pending → Expr
  | .assign op lhs => .assign op lhs x
  | .cond c t => .cond c t x

def Frame.operand? (f : Frame) : Option Expr :=
  match f.items with
  | [] => none
  | [.group '(' (some e)] => some (.paren e)
  | items => some (.operand items)

def Frame.andLevel? (f : Frame) : Option Expr := f.operand?.map (joinLeft .and f.and)

def Frame.xorLevel? (f : Frame) : Option Expr := f.andLevel?.map (joinLeft .xor f.xor)

def Frame.orLevel? (f : Frame) : Option Expr := f.xorLevel?.map (joinLeft .or f.or)

def Frame.expr? (f : Frame) : Option Expr :=
  f.orLevel?.map fun x => joinLeft .comma f.comma (f.pending.foldl Pending.close x)

/-! ## Steps -/

def closes (o c : Char) : Bool := (o = '(' && c = ')') || (o = '[' && c = ']')

def Pending.isAssign : Pending → Bool
  | .assign _ _ => true
  | .cond _ _ => false

/-- An assignment can follow: only an operand and other assignments stand in front. -/
def Frame.assignable (f : Frame) : Bool :=
  f.or.isNone && f.xor.isNone && f.and.isNone && f.pending.all Pending.isAssign && !f.items.isEmpty

/-- The content of a bracketed group, which may be empty. -/
def Frame.inner? (f : Frame) : Option (Option Expr) :=
  match f with
  | ⟨none, [], none, none, none, []⟩ => some none
  | f => f.expr?.map some

def step (s : State) : Token → Option State
  | .word w => some { s with frame := { s.frame with items := s.frame.items ++ [.token (.word w)] } }
  | .literal l => some { s with frame := { s.frame with items := s.frame.items ++ [.token (.literal l)] } }
  | .andand => s.frame.andLevel?.map fun x =>
      { s with frame := { s.frame with and := some x, items := [] } }
  | .xorxor => s.frame.xorLevel?.map fun x =>
      { s with frame := { s.frame with xor := some x, and := none, items := [] } }
  | .oror => s.frame.orLevel?.map fun x =>
      { s with frame := { s.frame with or := some x, xor := none, and := none, items := [] } }
  | .assign op =>
      if s.frame.assignable then
        some { s with frame :=
          { s.frame with pending := .assign op s.frame.items :: s.frame.pending, items := [] } }
      else none
  | .comma => s.frame.expr?.map fun x => { s with frame := { comma := some x } }
  | .question => s.frame.orLevel?.map fun c =>
      { stack := (.question c, { s.frame with or := none, xor := none, and := none, items := [] }) :: s.stack
        frame := {} }
  | .colon => match s.stack with
      | (.question c, outer) :: stack => s.frame.expr?.map fun t =>
          { stack, frame := { outer with pending := .cond c t :: outer.pending } }
      | _ => none
  | .opening c => some { stack := (.bracket c, s.frame) :: s.stack, frame := {} }
  | .closing c => match s.stack with
      | (.bracket o, outer) :: stack =>
          if closes o c then s.frame.inner?.map fun inner =>
            { stack, frame := { outer with items := outer.items ++ [.group o inner] } }
          else none
      | _ => none

def run (s : State) (toks : List Token) : Option State := toks.foldlM step s

def parseTokens (toks : List Token) : Option Expr :=
  match run {} toks with
  | some ⟨[], frame⟩ => frame.expr?
  | _ => none

def parse (cs : List Char) : Option Expr := (lex cs).bind parseTokens

/-! ## Shapes -/

end ObservableBSD.DLang
