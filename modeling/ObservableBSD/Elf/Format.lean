import ObservableBSD.Base.Memory
import ObservableBSD.Trace.Record

/-!
# ELF files

What libelf reads out of a file. A header or an entry that libelf cannot read is `none`.
-/

namespace ObservableBSD.Elf

open Base Trace

/-- `p_type`. -/
inductive PhdrType where
  | load
  | interp
  | other (code : UInt32)
deriving DecidableEq, Repr

/-- `GElf_Phdr`; `exec` is the flag `PF_X`. -/
structure GElfPhdr where
  type : PhdrType
  exec : Bool
  offset : UInt64
  vaddr : UInt64
  filesz : UInt64
deriving DecidableEq, Repr

inductive ShType where
  | null
  | symtab
  | dynsym
  | other (code : UInt32)
deriving DecidableEq, Repr

/-- `GElf_Sym`, with the name that `elf_strptr` returns; `func` is the type `STT_FUNC`. -/
structure GElfSym where
  name : Option CString
  func : Bool
  value : UInt64
  size : UInt64
deriving DecidableEq, Repr

/-- A section. Each data block is the list of its entries of `entsize` bytes. -/
structure GElfScn where
  type : ShType
  entsize : UInt64
  data : List (List (Option GElfSym))
deriving DecidableEq, Repr

/-- `e_type`. -/
inductive EhdrType where
  | exec
  | dyn
  | other (code : UInt16)
deriving DecidableEq, Repr

structure ElfFile where
  ehdr : Option EhdrType
  phdrs : Option (List (Option GElfPhdr))
  sections : List (Option GElfScn)
deriving DecidableEq, Repr

/-- The files that `open` and `elf_begin` can open. -/
abbrev Files := CString → Option ElfFile

/-!
## Addresses of an ELF file

Where an image lies at run time, from its program headers and from a record of the trace.
-/

def pageSize : UInt64 := 4096

def truncPage (x : UInt64) : UInt64 := x - x % pageSize

/-- The loop of `elf_base_vaddr`. -/
def firstLoad : List (Option GElfPhdr) → Option UInt64
  | [] => none
  | none :: phdrs => firstLoad phdrs
  | some phdr :: phdrs => if phdr.type = .load then some phdr.vaddr else firstLoad phdrs

def elfBaseVaddr (elf : ElfFile) : Option UInt64 :=
  match elf.phdrs with
  | none => none
  | some phdrs => firstLoad phdrs

/-- An executable segment with bytes in the file. -/
def GElfPhdr.execLoad (phdr : GElfPhdr) : Bool := phdr.type = .load && phdr.exec && phdr.filesz ≠ 0

/-- One round of the loop of `elf_exec_map_vaddr`; the state is `best`, once `found`. -/
def execMapStep (best : Option UInt64) : Option GElfPhdr → Option UInt64
  | none => best
  | some phdr =>
      if phdr.execLoad then
        match best with
        | none => some (truncPage phdr.vaddr)
        | some b => if truncPage phdr.vaddr < b then some (truncPage phdr.vaddr) else some b
      else best

def elfExecMapVaddr (elf : ElfFile) : Option UInt64 :=
  match elf.phdrs with
  | none => none
  | some phdrs => phdrs.foldl execMapStep none

def elfEffectiveLoadAddr (elf : ElfFile) (type : HwtRecordType) (recordAddr : UInt64) : Option UInt64 :=
  match elfBaseVaddr elf with
  | none => none
  | some baseVaddr => match type with
      | .executable => some (if recordAddr = 0 then baseVaddr else baseVaddr + recordAddr)
      | .mmap => match elfExecMapVaddr elf with
          | none => none
          | some execMapVaddr =>
              if recordAddr < execMapVaddr then none
              else some (baseVaddr + (recordAddr - execMapVaddr))
      | _ => some recordAddr

/-- `elf_preferred_symtab_type`; `have_dynsym` is kept while no `SHT_SYMTAB` is found. -/
def elfPreferredSymtabType (elf : ElfFile) : ShType :=
  if elf.sections.any fun scn => scn.any fun scn => scn.type = .symtab then .symtab
  else if elf.sections.any fun scn => scn.any fun scn => scn.type = .dynsym then .dynsym
  else .null

/-- The entries that the loops over the sections of a type visit: the function symbols that have a
value. -/
def elfFuncSyms (elf : ElfFile) (type : ShType) : List GElfSym :=
  elf.sections.flatMap fun scn => match scn with
    | none => []
    | some scn =>
        if scn.type = type ∧ scn.entsize ≠ 0 then
          scn.data.flatten.filterMap fun sym => sym.filter fun sym => sym.func ∧ sym.value ≠ 0
        else []

end ObservableBSD.Elf
