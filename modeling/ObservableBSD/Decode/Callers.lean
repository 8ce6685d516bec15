import ObservableBSD.Base.Upsert
import ObservableBSD.Decode.CallTree

/-!
# Caller/callee view

`ct_collect_edges` walks the call tree and adds up, for each function by its name and binary strings,
the calls, the time and the edges to its callers and callees. Allocation is taken to succeed, and the
counts, which are `int`, to stay below 2^31.
-/

namespace ObservableBSD.Decode

open Base

structure CallerEdge where
  name : StrPtr
  binary : StrPtr
  count : Nat
  tsc : UInt64

structure FuncSummary where
  name : StrPtr
  binary : StrPtr
  totalCalls : Nat := 0
  totalTsc : UInt64 := 0
  callers : List CallerEdge := []
  callees : List CallerEdge := []

/-- Edges are found with `strcmp`. -/
def CallerEdge.key (e : CallerEdge) : CString × CString := (e.name.text, e.binary.text)

/-- Functions are found with `strcmp`. -/
def FuncSummary.key (f : FuncSummary) : CString × CString := (f.name.text, f.binary.text)

def callersAddEdge (edges : List CallerEdge) (name binary : StrPtr) (count : Nat) (tsc : UInt64) :
    List CallerEdge :=
  upsert CallerEdge.key (name.text, binary.text) { name, binary, count := 0, tsc := 0 }
    (fun e => { e with count := e.count + count, tsc := e.tsc + tsc }) edges

/-- `callers_find_or_add`, and an update of the function found. -/
def callersFindOrAdd (funcs : List FuncSummary) (name binary : StrPtr)
    (update : FuncSummary → FuncSummary) : List FuncSummary :=
  upsert FuncSummary.key (name.text, binary.text) { name, binary } update funcs

/-- What `ct_collect_edges` adds for the node itself. -/
def ctCollectNode (parent : Option CtData) (d : CtData) (funcs : List FuncSummary) :
    List FuncSummary :=
  callersFindOrAdd funcs d.name d.binary fun f =>
    { f with
      totalCalls := f.totalCalls + d.count
      totalTsc := f.totalTsc + d.totalTsc
      callers := match parent with
        | none => f.callers
        | some p => callersAddEdge f.callers p.name p.binary d.count d.totalTsc }

/-- What `ct_collect_edges` adds for the edge to a child. -/
def ctCollectCallee (d child : CtData) (funcs : List FuncSummary) : List FuncSummary :=
  callersFindOrAdd funcs d.name d.binary fun pf =>
    { pf with callees := callersAddEdge pf.callees child.name child.binary child.count child.totalTsc }

mutual
def ctCollectEdges (parent : Option CtData) : CtNode → List FuncSummary → List FuncSummary
  | .node d cs, funcs => ctCollectChildren d cs (ctCollectNode parent d funcs)

/-- Its loop over the children of the node `d`. -/
def ctCollectChildren (d : CtData) : List CtNode → List FuncSummary → List FuncSummary
  | [], funcs => funcs
  | c :: cs, funcs =>
      ctCollectChildren d cs (ctCollectEdges (some d) c (ctCollectCallee d c.value funcs))
end

def callersView (ct : Calltree) : List FuncSummary := ctCollectEdges none ct.root []

/-- `total_calls` of the function with this name and binary; 0 when the view does not list it. -/
def totalCallsOf (funcs : List FuncSummary) (name binary : CString) : Nat :=
  ((lookupKey FuncSummary.key (name, binary) funcs).map FuncSummary.totalCalls).getD 0

end ObservableBSD.Decode
