import ObservableBSD.Base.Memory
import ObservableBSD.Base.Upsert
import ObservableBSD.Decode.Symbols

/-!
# Collapsed stacks

`collapsed_record` keeps a shadow stack of function names, at most 256 deep, and counts the folded stack
string at every RETURN. Allocation is taken to succeed, and the counts, which are `int`, to stay below 2^31.
-/

namespace ObservableBSD.Decode

open Base

def maxCollapsedStacks : Nat := 4096

def maxStackDepth : Nat := 256

structure CollapsedEntry where
  stack : CString
  count : Nat

/-- `struct collapsed`. `names` is `names[depth - 1]`, ..., `names[0]`. -/
structure Collapsed where
  entries : List CollapsedEntry := []
  names : List StrPtr := []
  prevSym : Option SymEntry := none
  prevClass : PtInsnClass := .unknown

def collapsedInit : Collapsed := {}

def Collapsed.depth (col : Collapsed) : Nat := col.names.length

/-- `sizeof(buf)` in `collapsed_build_stack`. -/
def stackBufSize : Nat := 8192

/-- The loop of `collapsed_build_stack` over `names[i]`, ..., `names[depth - 1]`: the bytes in front of
the NUL in `buf`, and `off`. `snprintf` truncates what it writes, but adds the whole length to `off`. -/
def collapsedBuildLoop (first : Bool) : List StrPtr → CString → Nat → CString × Nat
  | [], buf, off => (buf, off)
  | n :: ns, buf, off =>
      let sep := !first && off < stackBufSize - 1
      let buf := if sep then buf ++ [59] else buf
      let off := if sep then off + 1 else off
      let buf := buf ++ n.text.take (stackBufSize - off - 1)
      let off := off + n.text.length
      if stackBufSize - 1 ≤ off then (buf, off) else collapsedBuildLoop false ns buf off

def collapsedBuildStack (col : Collapsed) : Option CString :=
  if col.depth = 0 then none else some (collapsedBuildLoop true col.names.reverse [] 0).1

/-- `collapsed_count_stack`: new stacks are dropped behind the limit. -/
def collapsedCountStack (col : Collapsed) : Collapsed :=
  match collapsedBuildStack col with
  | none => col
  | some stack =>
      let known := (lookupKey CollapsedEntry.stack stack col.entries).isSome
      if known ∨ col.entries.length < maxCollapsedStacks then
        { col with
          entries := upsert CollapsedEntry.stack stack { stack, count := 0 }
            (fun e => { e with count := e.count + 1 }) col.entries }
      else col

/-- The part of `collapsed_record` that detects a function entry. -/
def collapsedEnter (col : Collapsed) (x : DecodedInsn) : Collapsed :=
  match x.sym with
  | none => col
  | some s =>
      if x.ip = s.addr ∧ col.prevClass.isCall then
        if col.depth < maxStackDepth then { col with names := s.name :: col.names } else col
      else col

def collapsedRecord (col : Collapsed) (x : DecodedInsn) : Collapsed :=
  let entered := collapsedEnter col x
  let left :=
    if x.iclass.isReturn then
      let counted := collapsedCountStack entered
      { counted with names := counted.names.tail }
    else entered
  { left with prevSym := x.sym, prevClass := x.iclass }

def collapsedRun (w : List DecodedInsn) : Collapsed := w.foldl collapsedRecord collapsedInit

/-!
## The buffer of `collapsed_build_stack`

The function once more, with every byte it writes to `char buf[8192]` and with the `int` it counts in.
`none` is an undefined outcome: an overflow of `off`, or a name so long that `snprintf` fails.
-/

def intMax : Nat := 0x7fffffff

/-- `snprintf(buf + off, size, "%s", s)`: its writes, and the length it returns. -/
def snprintfString (off size : Nat) (s : CString) : Option (List ByteWrite × Nat) :=
  if intMax < s.length then none
  else some (if size = 0 then [] else putString off (s.take (size - 1) ++ [0]), s.length)

/-- The loop of `collapsed_build_stack`: its writes, and the last `off`. -/
def buildStackLoop (first : Bool) : List CString → Nat → Option (List ByteWrite × Nat)
  | [], off => some ([], off)
  | n :: ns, off =>
      let sep := !first && off < stackBufSize - 1
      let separator := if sep then [{ index := off, byte := 59 }] else []
      let off := if sep then off + 1 else off
      match snprintfString off (stackBufSize - off) n with
      | none => none
      | some (ws, len) =>
          if intMax < off + len then none
          else if stackBufSize - 1 ≤ off + len then some (separator ++ ws, off + len)
          else
            match buildStackLoop false ns (off + len) with
            | none => none
            | some (rest, last) => some (separator ++ ws ++ rest, last)

/-- All writes of `collapsed_build_stack`, the last one of them `buf[off] = '\0'`. -/
def buildStackWrites (names : List CString) : Option (List ByteWrite) :=
  (buildStackLoop true names 0).map fun (ws, off) => ws ++ [{ index := off, byte := 0 }]

end ObservableBSD.Decode
