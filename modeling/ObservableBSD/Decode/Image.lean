import ObservableBSD.Decode.Symbols
import ObservableBSD.Elf.Ranges

/-!
# The image of the decoder

The file segments and the symbols that `build_pt_image` adds for the sections it uses, with the slide
it derives from each record.
-/

namespace ObservableBSD.Decode

open Base Trace Elf

/-- `sym_table_add`. Each `strdup` gives an address of its own. -/
def symTableAdd (st : List SymEntry) (addr size : UInt64) (name : Option CString) (binary : CString)
    (slide : Int64) : List SymEntry :=
  match name with
  | none => st
  | some name =>
      if name = [] then st
      else st ++ [{ addr, size, slide, name := ⟨2 * st.length + 1, name⟩,
                    binary := ⟨2 * st.length + 2, binary⟩ }]

def symTableAddElf (files : Files) (st : List SymEntry) (path : CString) (slide : Int64) :
    List SymEntry :=
  match files path with
  | none => st
  | some elf =>
      (elfFuncSyms elf (elfPreferredSymtabType elf)).foldl
        (fun st sym => symTableAdd st (slideAddr sym.value slide) sym.size sym.name
          (basename path) slide) st

/-- The slide of a section's symbols in `build_pt_image`. -/
def sectionSlide (files : Files) (sec : PtImageInfo) : Option Int64 :=
  match files sec.path with
  | none => none
  | some elf => match elfEffectiveLoadAddr elf sec.type sec.loadAddr, elfBaseVaddr elf with
      | some loadAddr, some baseVaddr => some (loadAddr.toInt64 - baseVaddr.toInt64)
      | _, _ => none

/-- What `build_pt_image` adds to the symbol table for a section that it uses. -/
def addSectionSyms (files : Files) (st : List SymEntry) (sec : PtImageInfo) : List SymEntry :=
  match sectionSlide files sec with
  | none => st
  | some slide => symTableAddElf files st sec.path slide

/-- A part of a file in libipt's image. -/
structure ImageSegment where
  path : CString
  offset : UInt64
  filesz : UInt64
  vaddr : UInt64

/-- libipt's image with the symbols found so far; `total` counts the segments added. -/
structure PtImage where
  segments : List ImageSegment := []
  total : Nat := 0
  syms : List SymEntry := []

/-- One round of the loop of `add_elf_to_image`. -/
def addSegment (path : CString) (slide : Int64) (image : PtImage) : Option GElfPhdr → PtImage
  | none => image
  | some phdr =>
      if phdr.execLoad then
        { image with
          segments := image.segments ++
            [{ path, offset := phdr.offset, filesz := phdr.filesz, vaddr := slideAddr phdr.vaddr slide }]
          total := image.total + 1 }
      else image

def addElfToImage (files : Files) (image : PtImage) (path : CString) (loadAddr : UInt64) : PtImage :=
  match files path with
  | none => image
  | some elf => match elfBaseVaddr elf, elf.phdrs with
      | some baseVaddr, some phdrs =>
          phdrs.foldl (addSegment path (loadAddr.toInt64 - baseVaddr.toInt64)) image
      | _, _ => image

/-- The symbols of the interpreter, loaded at `baseAddr`. -/
def addInterpSyms (files : Files) (st : List SymEntry) (interp : CString) (baseAddr : UInt64) :
    List SymEntry :=
  match files interp with
  | none => st
  | some elf => match elfBaseVaddr elf with
      | none => st
      | some baseVaddr => symTableAddElf files st interp (baseAddr.toInt64 - baseVaddr.toInt64)

/-- One round of the loop of `build_pt_image`, for a section that is used. -/
def ptImageSection (files : Files) (bytes : FileBytes) (sections : List PtImageInfo) (image : PtImage)
    (sec : PtImageInfo) : PtImage :=
  match (files sec.path).bind fun elf => elfEffectiveLoadAddr elf sec.type sec.loadAddr with
  | none => image
  | some loadAddr =>
      let image := addElfToImage files image sec.path loadAddr
      let image := { image with syms := addSectionSyms files image.syms sec }
      if sec.type = .executable ∧ isUserAddr sec.baseAddr ∧ sec.baseAddr ≠ loadAddr then
        match elfGetInterp files bytes sec.path 1024 with
        | none => image
        | some interp =>
            if sections.any (sectionIs .mmap interp) then image
            else
              let image := addElfToImage files image interp sec.baseAddr
              { image with syms := addInterpSyms files image.syms interp sec.baseAddr }
      else image

def ptImageLoop (files : Files) (bytes : FileBytes) (sections : List PtImageInfo) :
    List Nat → PtImage → PtImage
  | [], image => image
  | i :: idxs, image => match sections[i]? with
      | none => image -- no such index
      | some sec =>
          if sectionShouldUse sections i then
            ptImageLoop files bytes sections idxs (ptImageSection files bytes sections image sec)
          else ptImageLoop files bytes sections idxs image

def SortedByAddr (table : List SymEntry) : Prop := table.Pairwise fun a b => a.addr ≤ b.addr

/-- A table that `sym_table_sort` may leave: `qsort` says nothing about symbols at one address. -/
def SortOf (st table : List SymEntry) : Prop := table.Perm st ∧ SortedByAddr table

/-- `qsort` with `sym_entry_cmp`. -/
structure SymSort where
  sort : List SymEntry → List SymEntry
  sorts : ∀ st, SortOf st (sort st)

/-- `sym_table_sort`. -/
def symTableSort (qsort : SymSort) (st : List SymEntry) : List SymEntry :=
  if 1 < st.length then qsort.sort st else st

/-- `build_pt_image`: no image when no segment was added. -/
def buildPtImage (qsort : SymSort) (files : Files) (bytes : FileBytes) (sections : List PtImageInfo) :
    Option PtImage :=
  let image := ptImageLoop files bytes sections (List.range sections.length) {}
  let image := { image with syms := symTableSort qsort image.syms }
  if image.total = 0 then none else some image

end ObservableBSD.Decode
