import ObservableBSD.Export.Event

/-!
# JSON text

How the exporters write strings, numbers, lists and stack frames.
-/

namespace ObservableBSD.Export

/-- One round of the loop of `escapeJSON`. -/
def escapeScalar (ch : Char) : Text :=
  if ch = '"' then text "\\\""
  else if ch = '\\' then text "\\\\"
  else if ch = '\x08' then text "\\b"
  else if ch = '\x0c' then text "\\f"
  else if ch = '\n' then text "\\n"
  else if ch = '\r' then text "\\r"
  else if ch = '\t' then text "\\t"
  else if ch.toNat < 0x20 then text "\\u" ++ List.leftpad 4 '0' (Nat.toDigits 16 ch.toNat)
  else [ch]

def escapeJSON (s : Text) : Text := s.flatMap escapeScalar

/-- `"\(n)"` of an unsigned integer. -/
def natText (n : Nat) : Text := Nat.toDigits 10 n

/-- `"\(n)"` of a signed integer. -/
def intText (v : Int) : Text := if v < 0 then '-' :: natText v.natAbs else natText v.natAbs

/-- `joined(separator: ",")`. -/
def joined : List Text → Text
  | [] => []
  | [part] => part
  | part :: part' :: parts => part ++ text "," ++ joined (part' :: parts)

/-- The loop that writes a comma in front of every element but the first. -/
def enumerated {α : Type} (write : Nat → α → Text) (elems : List α) : Text :=
  elems.zipIdx.flatMap fun (elem, i) => (if 0 < i then text "," else []) ++ write i elem

/-- An attribute with a string as its value. -/
def stringAttributeJSON (key value : Text) : Text :=
  text "\x7b\"key\":\"" ++ escapeJSON key ++ text "\",\"value\":\x7b\"stringValue\":\"" ++
    escapeJSON value ++ text "\"\x7d\x7d"

def StackFrame.formatted (frame : StackFrame) : Text :=
  match frame.module, frame.symbol with
  | some module, some symbol => match frame.offset with
      | some offset => module ++ text "`" ++ symbol ++ text "+0x" ++ Nat.toDigits 16 offset.toNat
      | none => module ++ text "`" ++ symbol
  | none, some symbol => symbol
  | _, none => text "0x" ++ List.leftpad 16 '0' (Nat.toDigits 16 frame.address.toNat)

/-!
## The JSONL exporter

One JSON object on its own line for each event with a body.
-/

/-- A member with the frames of a stack, when there are any. -/
def stackJSON (name : Text) (stack : Option (List StackFrame)) : Text :=
  match stack with
  | none | some [] => []
  | some stack =>
      text ",\"" ++ name ++ text "\":[" ++
        joined (stack.map fun frame => text "\"" ++ escapeJSON frame.formatted ++ text "\"") ++ text "]"

/-- What `emit(event:)` writes; `timestampFormatter` prints a date. -/
def emitLine (timestampFormatter : Int → Text) (event : ProbeEvent) : Text :=
  let body := event.printfBody.getD []
  if body = [] then []
  else
    text "\x7b" ++
      (text "\"time\":\"" ++ escapeJSON (timestampFormatter event.timestamp) ++ text "\",") ++
      (text "\"profile\":\"" ++ escapeJSON event.profileName ++ text "\",") ++
      (text "\"body\":\"" ++ escapeJSON body ++ text "\"") ++
      stackJSON (text "stack") event.stack ++ stackJSON (text "ustack") event.ustack ++ text "\x7d\n"

def jsonlOutput (timestampFormatter : Int → Text) (events : List ProbeEvent) : Text :=
  events.flatMap (emitLine timestampFormatter)

end ObservableBSD.Export
