import ObservableBSD.Base.Outline
import ObservableBSD.Decode.Callers
import ObservableBSD.Decode.Speedscope

/-!
# Printing profiles and call trees

`profile_print`, `calltree_print` and `callers_print`, line by line, and what `decode_pt_insn` prints once its loop is
over. `qsort` may leave entries that compare equal in any order; here they stay as they are.
-/

namespace ObservableBSD.Decode

open Base

def printLines (lines : List CString) : CString := lines.flatMap (· ++ [10])

/-- `%s:%s  (%d`. -/
def entryText (binary name : CString) (count : Nat) : CString :=
  binary ++ (cstr ":" ++ (name ++ (cstr "  (" ++ numeral 10 count)))

/-! ## `calltree_print` -/

def ctCmpCount (na nb : CtData) : Bool := nb.count ≤ na.count

/-- The calls of `qsort` in `ct_print_node`, on a whole tree. -/
def ctSort (root : CtNode) : CtNode := root.sortBy ctCmpCount

def ctLine (indent : Nat) (d : CtData) : CString :=
  List.replicate (indent * 2) 32 ++ (entryText d.binary.text d.name.text d.count ++
    if 0 < d.totalTsc then cstr ") [" ++ (numeral 10 d.totalTsc.toNat ++ cstr " tsc]") else cstr ")")

mutual
/-- What `ct_print_node` prints for the node's children. -/
def ctPrintNode (indent : Nat) : CtNode → List CString
  | .node _ cs => ctPrintChildren indent cs

def ctPrintChildren (indent : Nat) : List CtNode → List CString
  | [] => []
  | c :: cs => ctLine indent c.value :: (ctPrintNode (indent + 1) c ++ ctPrintChildren indent cs)
end

def calltreePrint (ct : Calltree) : List CString := ctPrintNode 0 (ctSort ct.root)

/-! ## `callers_print` -/

def callersCmp (fa fb : FuncSummary) : Bool := fb.totalCalls ≤ fa.totalCalls

def edgeCmp (ea eb : CallerEdge) : Bool := eb.count ≤ ea.count

def edgeLine (e : CallerEdge) : CString := cstr "    " ++ (entryText e.binary.text e.name.text e.count ++ cstr ")")

/-- The edges below a heading; no heading without edges. -/
def edgeLines (heading : CString) (edges : List CallerEdge) : List CString :=
  if edges = [] then [] else heading :: (edges.mergeSort edgeCmp).map edgeLine

def funcLine (f : FuncSummary) : CString :=
  cstr "--- " ++ (entryText f.binary.text f.name.text f.totalCalls ++
    if 0 < f.totalTsc then cstr " calls, " ++ (numeral 10 f.totalTsc.toNat ++ cstr " tsc)") else cstr " calls)")

def funcLines (f : FuncSummary) : List CString :=
  funcLine f :: (edgeLines (cstr "  called by:") f.callers ++ (edgeLines (cstr "  calls:") f.callees ++ [[]]))

/-- The functions that `callers_print` prints. -/
def callersListed (funcs : List FuncSummary) (opts : Option PtDecodeOpts) : List FuncSummary :=
  (funcs.mergeSort callersCmp).filter fun f => filterMatches opts (some f.name.text)

def callersPrint (ct : Calltree) (opts : Option PtDecodeOpts) : List CString :=
  (callersListed (callersView ct) opts).flatMap funcLines

/-! ## `profile_print` -/

def profileCmpCalls (ea eb : ProfileEntry) : Bool := eb.calls ≤ ea.calls

/-- `%-*s`. -/
def leftAligned (width : Nat) (s : CString) : CString := s.rightpad width 32

/-- The columns of a line; the time is left out of a table without times. -/
def profileColumns (haveTsc : Bool) (calls returns branches time binary name : CString) : CString :=
  leftAligned 8 calls ++ (cstr " " ++ (leftAligned 8 returns ++ (cstr " " ++ (leftAligned 8 branches ++ (cstr "  " ++
    ((if haveTsc then leftAligned 14 time ++ cstr "  " else []) ++ (leftAligned 20 binary ++ (cstr "  " ++ name))))))))

def profileHead (haveTsc : Bool) : List CString :=
  [profileColumns haveTsc (cstr "CALLS") (cstr "RETURNS") (cstr "BRANCHES") (cstr "TIME(tsc)") (cstr "BINARY")
      (cstr "FUNCTION"),
    profileColumns haveTsc (cstr "--------") (cstr "--------") (cstr "--------") (cstr "--------------")
      (cstr "--------------------") (cstr "--------------------")]

def sourceText (e : ProfileEntry) : CString :=
  match e.sourceFile with
  | none => []
  | some file => cstr "  (" ++ (file ++ (cstr ":" ++ (intNumeral e.sourceLine ++ cstr ")")))

def profileRow (haveTsc : Bool) (e : ProfileEntry) : CString :=
  profileColumns haveTsc (numeral 10 e.calls) (numeral 10 e.returns) (numeral 10 e.branches)
    (numeral 10 e.cumulativeTsc.toNat) e.binary.text (e.name.text ++ sourceText e)

/-- The entries that `profile_print` prints. -/
def profileListed (p : Profile) (opts : Option PtDecodeOpts) : List ProfileEntry :=
  (p.entries.mergeSort profileCmpCalls).filter fun e =>
    ¬ (e.calls = 0 ∧ e.returns = 0 ∧ e.branches = 0) ∧ filterMatches opts (some e.name.text)

def profilePrint (p : Profile) (opts : Option PtDecodeOpts) : List CString :=
  let haveTsc := p.entries.any fun e => 0 < e.cumulativeTsc
  profileHead haveTsc ++ (profileListed p opts).map (profileRow haveTsc)

/-! ## The end of `decode_pt_insn` -/

def threadLines (opts : Option PtDecodeOpts) : List CString :=
  match opts with
  | none => []
  | some o => if 0 ≤ o.tid then [cstr "Thread " ++ (intNumeral o.tid ++ cstr ":")] else []

/-- What is printed behind the loop. -/
def decodeReport (env : DecodeEnv) (st : DecodeState) : CString :=
  match env.fmt with
  | .profile => printLines (threadLines env.opts ++ profilePrint st.prof env.opts)
  | .tree => printLines (threadLines env.opts ++ calltreePrint st.ct)
  | .callers => printLines (threadLines env.opts ++ callersPrint st.ct env.opts)
  | .collapsed => collapsedPrint st.col.entries env.opts
  | .speedscope => speedscopePrint st.col.entries
  | .text | .json => []

end ObservableBSD.Decode
