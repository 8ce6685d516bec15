import ObservableBSD.Json.Value

/-!
# Reading JSON

A parser of JSON documents (RFC 8259). Each recursive call has less fuel, and the length of the text is
always enough.
-/

namespace ObservableBSD.Json

def isSpace (c : Char) : Bool := c = ' ' || c = '\t' || c = '\n' || c = '\r'

def skipSpaces (cs : List Char) : List Char := cs.dropWhile isSpace

/-! ## Strings -/

def hexValue? (c : Char) : Option Nat :=
  if c.isDigit then some (c.toNat - 48)
  else if 'a' ≤ c ∧ c ≤ 'f' then some (c.toNat - 87)
  else if 'A' ≤ c ∧ c ≤ 'F' then some (c.toNat - 55)
  else none

/-- The code unit behind `\u`. -/
def readHex4 : List Char → Option (Nat × List Char)
  | a :: b :: c :: d :: rest => match hexValue? a, hexValue? b, hexValue? c, hexValue? d with
      | some a, some b, some c, some d => some (((a * 16 + b) * 16 + c) * 16 + d, rest)
      | _, _, _, _ => none
  | _ => none

/-- The character behind `\u`; a high surrogate needs a low one behind it. -/
def readUnicode (cs : List Char) : Option (Char × List Char) :=
  match readHex4 cs with
  | none => none
  | some (unit, rest) =>
      if 0xD800 ≤ unit ∧ unit < 0xDC00 then
        match rest with
        | '\\' :: 'u' :: rest => match readHex4 rest with
            | none => none
            | some (low, rest) =>
                if 0xDC00 ≤ low ∧ low < 0xE000 then
                  some (Char.ofNat (0x10000 + (unit - 0xD800) * 0x400 + (low - 0xDC00)), rest)
                else none
        | _ => none
      else if 0xDC00 ≤ unit ∧ unit < 0xE000 then none
      else some (Char.ofNat unit, rest)

/-- One character of a string; a quotation mark is none. -/
def readChar : List Char → Option (Char × List Char)
  | '\\' :: '"' :: rest => some ('"', rest)
  | '\\' :: '\\' :: rest => some ('\\', rest)
  | '\\' :: '/' :: rest => some ('/', rest)
  | '\\' :: 'b' :: rest => some ('\x08', rest)
  | '\\' :: 'f' :: rest => some ('\x0c', rest)
  | '\\' :: 'n' :: rest => some ('\n', rest)
  | '\\' :: 'r' :: rest => some ('\r', rest)
  | '\\' :: 't' :: rest => some ('\t', rest)
  | '\\' :: 'u' :: rest => readUnicode rest
  | '\\' :: _ => none
  | '"' :: _ => none
  | c :: rest => if c.toNat < 0x20 then none else some (c, rest)
  | [] => none

/-- The characters of a string up to its closing quotation mark. -/
def readString : Nat → List Char → Option (List Char × List Char)
  | 0, _ => none
  | _ + 1, '"' :: rest => some ([], rest)
  | fuel + 1, cs => match readChar cs with
      | none => none
      | some (c, rest) => (readString fuel rest).map fun (s, rest) => (c :: s, rest)

/-! ## Values -/

def isNumberChar (c : Char) : Bool :=
  c.isDigit || c = '-' || c = '+' || c = '.' || c = 'e' || c = 'E'

def readNumber (cs : List Char) : Option (Value × List Char) :=
  if h : isNumber (cs.takeWhile isNumberChar) = true then
    some (.number ⟨cs.takeWhile isNumberChar, h⟩, cs.dropWhile isNumberChar)
  else none

mutual
def parseValue : Nat → List Char → Option (Value × List Char)
  | 0, _ => none
  | fuel + 1, cs => match skipSpaces cs with
      | 'n' :: 'u' :: 'l' :: 'l' :: rest => some (.null, rest)
      | 't' :: 'r' :: 'u' :: 'e' :: rest => some (.bool true, rest)
      | 'f' :: 'a' :: 'l' :: 's' :: 'e' :: rest => some (.bool false, rest)
      | '"' :: rest => (readString fuel rest).map fun (s, rest) => (.string s, rest)
      | '[' :: rest => match skipSpaces rest with
          | ']' :: rest => some (.array [], rest)
          | _ => (parseElements fuel rest).map fun (elems, rest) => (.array elems, rest)
      | '{' :: rest => match skipSpaces rest with
          | '}' :: rest => some (.object [], rest)
          | _ => (parseMembers fuel rest).map fun (members, rest) => (.object members, rest)
      | cs => readNumber cs

/-- The elements of an array that is not empty, up to the closing bracket. -/
def parseElements : Nat → List Char → Option (List Value × List Char)
  | 0, _ => none
  | fuel + 1, cs => match parseValue fuel cs with
      | none => none
      | some (elem, rest) => match skipSpaces rest with
          | ',' :: rest => (parseElements fuel rest).map fun (elems, rest) => (elem :: elems, rest)
          | ']' :: rest => some ([elem], rest)
          | _ => none

/-- The members of an object that is not empty, up to the closing brace. -/
def parseMembers : Nat → List Char → Option (List (List Char × Value) × List Char)
  | 0, _ => none
  | fuel + 1, cs => match skipSpaces cs with
      | '"' :: rest => match readString fuel rest with
          | none => none
          | some (name, rest) => match skipSpaces rest with
              | ':' :: rest => match parseValue fuel rest with
                  | none => none
                  | some (value, rest) => match skipSpaces rest with
                      | ',' :: rest => (parseMembers fuel rest).map fun (members, rest) =>
                          ((name, value) :: members, rest)
                      | '}' :: rest => some ([(name, value)], rest)
                      | _ => none
              | _ => none
      | _ => none
end

/-- One value, and nothing but spaces behind it. -/
def parse (cs : List Char) : Option Value :=
  match parseValue (cs.length + 1) cs with
  | none => none
  | some (value, rest) => if skipSpaces rest = [] then some value else none

/-!
## Writing JSON

A document without spaces, written with any way of escaping characters that a reader undoes.
-/

/-- A way of writing the characters of a string. -/
structure Escaper where
  escape : Char → List Char
  readChar_escape : ∀ (c : Char) (rest : List Char), readChar (escape c ++ rest) = some (c, rest)

variable (E : Escaper)

def Escaper.body (s : List Char) : List Char := s.flatMap E.escape

def Escaper.quote (s : List Char) : List Char := '"' :: (E.body s ++ ['"'])

mutual
def Escaper.render : Value → List Char
  | .null => ['n', 'u', 'l', 'l']
  | .bool true => ['t', 'r', 'u', 'e']
  | .bool false => ['f', 'a', 'l', 's', 'e']
  | .number n => n.chars
  | .string s => E.quote s
  | .array elems => '[' :: (Escaper.renderElements elems ++ [']'])
  | .object members => '{' :: (Escaper.renderMembers members ++ ['}'])

def Escaper.renderElements : List Value → List Char
  | [] => []
  | [elem] => Escaper.render elem
  | elem :: elem' :: elems => Escaper.render elem ++ ',' :: Escaper.renderElements (elem' :: elems)

def Escaper.renderMembers : List (List Char × Value) → List Char
  | [] => []
  | [(name, value)] => E.quote name ++ ':' :: Escaper.render value
  | (name, value) :: member :: members =>
      E.quote name ++ ':' :: (Escaper.render value ++ ',' :: Escaper.renderMembers (member :: members))
end

end ObservableBSD.Json
