import ObservableBSD.Base.Upsert
import ObservableBSD.Decode.Symbols
import ObservableBSD.Trace.Record

/-!
# Profile counters

`profile_record` counts, for each function, the calls, returns and branches and the time between entry
and return. Allocation is taken to succeed, and the counters, which are `int`, to stay below 2^31.
-/

namespace ObservableBSD.Decode

open Base Trace

structure ProfileEntry where
  name : StrPtr
  binary : StrPtr
  calls : Nat := 0
  returns : Nat := 0
  branches : Nat := 0
  cumulativeTsc : UInt64 := 0
  entryTsc : UInt64 := 0
  sourceFile : Option CString := none
  sourceLine : Int := 0

/-- An entry is found by the two pointers. -/
def ProfileEntry.key (e : ProfileEntry) : StrPtr × StrPtr := (e.name, e.binary)

structure Profile where
  entries : List ProfileEntry := []
  prevClass : PtInsnClass := .unknown

def profileInit : Profile := {}

/-- `dwarf_cache_open` on a path with a slide, then `dwarf_addr_to_line` on an address. -/
abbrev DwarfLookup := CString → Int64 → UInt64 → Option (CString × Int)

/-- The source line of a new entry: the first section with the symbol's binary is opened. -/
def profileSourceLine (dwarf : DwarfLookup) (sections : Option (List PtImageInfo)) (s : SymEntry) :
    Option (CString × Int) :=
  match sections with
  | none => none
  | some secs =>
      match secs.find? fun sec => afterLastSlash sec.path = s.binary.text with
      | none => none
      | some sec => dwarf sec.path s.slide s.addr

/-- A fresh entry, with the DWARF lookup made once per function. -/
def profileNewEntry (dwarf : DwarfLookup) (sections : Option (List PtImageInfo)) (s : SymEntry) :
    ProfileEntry :=
  match profileSourceLine dwarf sections s with
  | none => { name := s.name, binary := s.binary }
  | some (file, line) =>
      { name := s.name, binary := s.binary, sourceFile := some file, sourceLine := line }

/-- Entry at offset 0 after a CALL: the function was called. -/
def profileEnter (prevClass : PtInsnClass) (s : SymEntry) (ip tsc : UInt64) (e : ProfileEntry) :
    ProfileEntry :=
  if ip = s.addr ∧ prevClass.isCall then
    { e with calls := e.calls + 1, entryTsc := if 0 < tsc then tsc else e.entryTsc }
  else e

/-- Accumulate per-call time on return, and count returns and branches. -/
def profileLeave (iclass : PtInsnClass) (tsc : UInt64) (e : ProfileEntry) : ProfileEntry :=
  match iclass with
  | .ret | .farReturn =>
      if 0 < tsc ∧ 0 < e.entryTsc ∧ e.entryTsc < tsc then
        { e with returns := e.returns + 1, cumulativeTsc := e.cumulativeTsc + (tsc - e.entryTsc),
                 entryTsc := 0 }
      else { e with returns := e.returns + 1 }
  | .jump | .condJump => { e with branches := e.branches + 1 }
  | _ => e

def profileRecord (dwarf : DwarfLookup) (sections : Option (List PtImageInfo)) (p : Profile)
    (x : DecodedInsn) : Profile :=
  match x.sym with
  | none => p
  | some s =>
      { entries := upsert ProfileEntry.key (s.name, s.binary) (profileNewEntry dwarf sections s)
          (fun e => profileLeave x.iclass x.tsc (profileEnter p.prevClass s x.ip x.tsc e)) p.entries
        prevClass := x.iclass }

def Profile.calls (p : Profile) (name binary : StrPtr) : Nat :=
  ((lookupKey ProfileEntry.key (name, binary) p.entries).map ProfileEntry.calls).getD 0

def Profile.cumulativeTsc (p : Profile) (k : StrPtr × StrPtr) : UInt64 :=
  ((lookupKey ProfileEntry.key k p.entries).map ProfileEntry.cumulativeTsc).getD 0

def profileRun (dwarf : DwarfLookup) (sections : Option (List PtImageInfo)) (w : List DecodedInsn) :
    Profile :=
  w.foldl (profileRecord dwarf sections) profileInit

end ObservableBSD.Decode
