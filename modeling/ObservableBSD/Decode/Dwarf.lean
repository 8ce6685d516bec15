import ObservableBSD.Base.Memory

/-!
# Source lines

`dwarf_addr_to_line` goes through the line rows of all compilation units, as libdwarf delivers them.
-/

namespace ObservableBSD.Decode

open Base

/-- What libdwarf tells of a row: `dwarf_lineaddr`, `dwarf_linesrc` and `dwarf_lineno`, each when it succeeds. -/
structure DwarfLine where
  lineaddr : Option UInt64
  linesrc : Option CString
  lineno : Option UInt64

/-- The `global_best_` variables of `dwarf_addr_to_line`, and `found`. -/
structure BestLine where
  addr : UInt64 := 0
  file : CString := []
  line : Int := 0
  found : Bool := false

/-- `(int)lineno`. -/
def lineInt (lineno : UInt64) : Int := (Int32.ofNat lineno.toNat).toInt

/-- One round of the loop over the rows of a unit. -/
def bestLineStep (fileAddr : UInt64) (best : BestLine) (l : DwarfLine) : BestLine :=
  match l.lineaddr with
  | none => best
  | some lineaddr =>
      if lineaddr ≤ fileAddr ∧ best.addr < lineaddr then
        { addr := lineaddr
          file := match l.linesrc with
            | some src => strlcpy maxPathLen src
            | none => best.file
          line := match l.lineno with
            | some lineno => lineInt lineno
            | none => best.line
          found := true }
      else best

/-- The rows of a unit; `none` when `dwarf_siblingof_b` or `dwarf_srclines` fails. -/
abbrev DwarfUnit := Option (List DwarfLine)

def bestLineUnit (fileAddr : UInt64) (best : BestLine) : DwarfUnit → BestLine
  | none => best
  | some lines => lines.foldl (bestLineStep fileAddr) best

/-- `dwarf_addr_to_line` into a buffer of `filesz` bytes. -/
def dwarfAddrToLine (units : List DwarfUnit) (slide : Int64) (addr : UInt64) (filesz : Nat) : Option (CString × Int) :=
  let fileAddr := addr - slide.toUInt64
  let best := units.foldl (bestLineUnit fileAddr) {}
  if best.found ∧ fileAddr - best.addr < 64 then some (strlcpy filesz best.file, best.line) else none

end ObservableBSD.Decode
