import Mathlib.Data.List.Basic

/-!
# Tokens of D expressions

The tokens of C and the operator `^^`. What binds more tightly than `&&` is left as words.
-/

namespace ObservableBSD.DLang

inductive Token where
  | word (s : List Char)
  | literal (s : List Char)
  | opening (c : Char)
  | closing (c : Char)
  | comma
  | assign (op : List Char)
  | question
  | colon
  | oror
  | xorxor
  | andand
deriving DecidableEq

def isBlank (c : Char) : Bool := [' ', '\t', '\n', '\r', '\x0b', '\x0c'].contains c

/-- The characters of identifiers, numbers, macro variables and aggregations. -/
def isWordChar (c : Char) : Bool := c.isAlphanum || ['_', '\x60', '$', '@'].contains c

/-- The operators of several characters and those that bind no more tightly than `&&`; a longer one stands
in front of its prefixes. -/
def operators : List (List Char × Token) :=
  (["<<=", ">>=", "+=", "-=", "*=", "/=", "%=", "&=", "|=", "^="].map fun s =>
    (s.toList, Token.assign s.toList)) ++
  [("&&".toList, .andand), ("||".toList, .oror), ("^^".toList, .xorxor)] ++
  (["==", "!=", "<=", ">=", "<<", ">>", "++", "--", "->"].map fun s => (s.toList, Token.word s.toList)) ++
  [("=".toList, .assign "=".toList), (",".toList, .comma), ("?".toList, .question), (":".toList, .colon)]

/-- The text behind the end of a comment. -/
def skipComment : List Char → Option (List Char)
  | [] => none
  | '*' :: '/' :: cs => some cs
  | _ :: cs => skipComment cs

/-- The rest of a constant up to its closing quote `q`; a backslash may stand in front. -/
def readQuoted (q : Char) : Bool → List Char → Option (List Char × List Char)
  | _, [] => none
  | escaped, c :: cs =>
      if c = q ∧ escaped = false then some ([c], cs)
      else if c = '\n' then none
      else (readQuoted q (!escaped && c = '\\') cs).map fun (s, rest) => (c :: s, rest)

/-- The token at the start of a text, if it is not a blank or a comment, and the text behind. -/
def lexStep : List Char → Option (List Token × List Char)
  | [] => none
  | c :: cs =>
      if isBlank c then some ([], cs)
      else if c = '(' ∨ c = '[' then some ([.opening c], cs)
      else if c = ')' ∨ c = ']' then some ([.closing c], cs)
      else if c = '/' ∧ cs.head? = some '*' then (skipComment cs.tail).map fun rest => ([], rest)
      else if c = '"' ∨ c = '\'' then
        (readQuoted c false cs).map fun (s, rest) => ([.literal (c :: s)], rest)
      else if isWordChar c then
        some ([.word (c :: cs.takeWhile isWordChar)], cs.dropWhile isWordChar)
      else match operators.find? fun op => op.1.isPrefixOf (c :: cs) with
        | some op => some ([op.2], (c :: cs).drop op.1.length)
        | none => some ([.word [c]], cs)

def lexFuel : Nat → List Char → Option (List Token)
  | _, [] => some []
  | 0, _ :: _ => none
  | fuel + 1, c :: cs => match lexStep (c :: cs) with
      | none => none
      | some (toks, rest) => (lexFuel fuel rest).map (toks ++ ·)

/-- The tokens of a text; every token has a character. -/
def lex (cs : List Char) : Option (List Token) := lexFuel cs.length cs

/-!
## Lists in brackets

A list of expressions between brackets, cut at the commas that stand in no inner brackets, in no constant and in no
comment.
-/

/-- The tokens between two places of a text. -/
inductive LexTo : List Char → List Token → List Char → Prop where
  | refl (s : List Char) : LexTo s [] s
  | step {s rest rest' : List Char} {toks toks' : List Token} :
      lexStep s = some (toks, rest) → LexTo rest toks' rest' → LexTo s (toks ++ toks') rest'

/-- The brackets that are open behind the tokens. There is no such number when one is closed that is not open, or when a
comma stands outside all brackets. -/
def openBrackets : Nat → List Token → Option Nat
  | depth, [] => some depth
  | depth, .opening _ :: toks => openBrackets (depth + 1) toks
  | 0, .closing _ :: _ | 0, .comma :: _ => none
  | depth + 1, .closing _ :: toks => openBrackets depth toks
  | depth, _ :: toks => openBrackets depth toks

/-- One element of a list, as it is written and as it is read. -/
structure Element where
  text : List Char
  tokens : List Token

/-- The tokens are those of one element. -/
def Element.Whole (element : Element) : Prop := element.tokens ≠ [] ∧ openBrackets 0 element.tokens = some 0

/-- A text starts with a list and the bracket that closes it. -/
inductive Elements : List Char → List Element → List Char → Prop where
  | last {element : Element} {rest : List Char} :
      element.Whole → LexTo (element.text ++ ']' :: rest) element.tokens (']' :: rest) →
      Elements (element.text ++ ']' :: rest) [element] rest
  | cons {element : Element} {s rest : List Char} {elements : List Element} : element.Whole →
      LexTo (element.text ++ ',' :: s) element.tokens (',' :: s) → Elements s elements rest →
      Elements (element.text ++ ',' :: s) (element :: elements) rest

end ObservableBSD.DLang
