import Mathlib.Algebra.Group.Int.Defs
import Mathlib.Algebra.Group.Nat.Defs
import ObservableBSD.Base.Memory

/-!
# Symbol table and decoded instructions

The symbol table maps runtime addresses to function names. The profile, the call tree and the folded
stacks are fed one decoded instruction after the other, each with the symbol its address resolves to.
-/

namespace ObservableBSD.Decode

open Base

/-- `struct sym_entry`. The name and the binary are never NULL: `sym_table_add` drops such an entry. -/
structure SymEntry where
  addr : UInt64
  size : UInt64
  slide : Int64
  name : StrPtr
  binary : StrPtr
deriving DecidableEq

/-- The binary search of `sym_table_lookup`: the last index whose address is at most `ip`, or `best`. -/
def symTableSearch (entries : List SymEntry) (ip : UInt64) (lo hi best : Int) : Int :=
  if lo ≤ hi then
    let mid := lo + (hi - lo) / 2
    match entries[mid.toNat]? with
    | some e =>
        if e.addr ≤ ip then symTableSearch entries ip (mid + 1) hi mid
        else symTableSearch entries ip lo (mid - 1) best
    | none => best -- outside the table
  else best
termination_by (hi + 1 - lo).toNat

def symTableLookup (entries : List SymEntry) (ip : UInt64) : Option SymEntry :=
  if entries.length = 0 then none
  else
    let best := symTableSearch entries ip 0 (entries.length - 1) (-1)
    if best < 0 then none
    else
      match entries[best.toNat]? with
      | none => none
      | some e =>
          if 0 < e.size then (if e.addr + e.size ≤ ip then none else some e)
          else if 4096 < ip - e.addr then none
          else some e

/-- `enum pt_insn_class` of libipt; `unknown` is the zero value. -/
inductive PtInsnClass where
  | unknown
  | other
  | call
  | ret
  | jump
  | condJump
  | farCall
  | farReturn
  | farJump
  | ptwrite
deriving DecidableEq, Repr

def PtInsnClass.isCall (c : PtInsnClass) : Bool := c = .call || c = .farCall

def PtInsnClass.isReturn (c : PtInsnClass) : Bool := c = .ret || c = .farReturn

structure DecodedInsn where
  sym : Option SymEntry
  ip : UInt64
  iclass : PtInsnClass
  tsc : UInt64
deriving DecidableEq

/-- The instruction is the first one of its symbol: `sym != NULL && ip == sym->addr`. -/
def DecodedInsn.atEntry (x : DecodedInsn) : Bool :=
  match x.sym with
  | none => false
  | some s => x.ip = s.addr

/-!
## The search of `sym_table_lookup`

The function once more, turn by turn, in the `int` that it counts in. `none` is an undefined outcome: an overflow, or
an index outside the table.
-/

/-- `struct sym_table`, whose `count` is an `int`. -/
structure SymTable where
  entries : List SymEntry
  count_lt : entries.length < 2 ^ 31

def int32? (v : Int) : Option Int32 := if -2 ^ 31 ≤ v ∧ v < 2 ^ 31 then some (Int32.ofInt v) else none

structure SearchVars where
  lo : Int32
  hi : Int32
  best : Int32

/-- `lo + (hi - lo) / 2`. -/
def SearchVars.mid? (v : SearchVars) : Option Int32 := do
  let width ← int32? (v.hi.toInt - v.lo.toInt)
  int32? (v.lo.toInt + width.toInt.tdiv 2)

def SymTable.entry? (st : SymTable) (i : Int32) : Option SymEntry :=
  if 0 ≤ i then st.entries[i.toInt.toNat]? else none

/-- The body of the loop. -/
def SymTable.searchTurn (st : SymTable) (ip : UInt64) (v : SearchVars) : Option SearchVars := do
  let mid ← v.mid?
  let e ← st.entry? mid
  if e.addr ≤ ip then
    let lo ← int32? (mid.toInt + 1)
    some { v with lo, best := mid }
  else
    let hi ← int32? (mid.toInt - 1)
    some { v with hi }

/-- The variables in front of a turn. -/
inductive SymTable.Searching (st : SymTable) (ip : UInt64) : SearchVars → Prop where
  | start : st.entries ≠ [] → Searching st ip ⟨0, Int32.ofNat st.entries.length - 1, -1⟩
  | turn {v v'} : Searching st ip v → v.lo ≤ v.hi → st.searchTurn ip v = some v' → Searching st ip v'

/-- What is returned behind the loop: an entry, with its index in the table. -/
def SymTable.found (st : SymTable) (ip : UInt64) (best : Int32) : Option (SymEntry × Nat) :=
  if best < 0 then none
  else do
    let e ← st.entry? best
    if 0 < e.size then (if e.addr + e.size ≤ ip then none else some (e, best.toInt.toNat))
    else if 4096 < ip - e.addr then none
    else some (e, best.toInt.toNat)

inductive SymTable.Returns (st : SymTable) (ip : UInt64) : Option (SymEntry × Nat) → Prop where
  | empty : st.entries = [] → Returns st ip none
  | ended {v} : st.Searching ip v → v.hi < v.lo → Returns st ip (st.found ip v.best)

end ObservableBSD.Decode
