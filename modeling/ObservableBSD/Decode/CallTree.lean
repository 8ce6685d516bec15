import ObservableBSD.Base.RoseTree
import ObservableBSD.Decode.Symbols

/-!
# Call tree

`calltree_record` keeps a tree of call paths and a shadow call stack of pointers into it. Child arrays
only grow at their end, so a pointer to a node is the list of child indices from the root. Allocation
is taken to succeed, and the counters, which are `int`, to stay below 2^31.
-/

namespace ObservableBSD.Decode

open Base

/-- The fields of `struct ct_node` but for the children: name, binary, times called at this position,
accumulated TSC ticks, TSC at the push. -/
structure CtData where
  name : StrPtr
  binary : StrPtr
  count : Nat := 0
  totalTsc : UInt64 := 0
  entryTsc : UInt64 := 0
deriving DecidableEq

abbrev CtNode := RoseTree CtData

def ctNodeInit (name binary : StrPtr) : CtNode := .node { name, binary } []

def CtNode.update (f : CtData → CtData) : CtNode → CtNode
  | .node a cs => .node (f a) cs

/-- `ct_find_or_add_child`: the parent, with the child added when it had none, and the child's index. -/
def ctFindOrAddChild (parent : CtNode) (name binary : StrPtr) : CtNode × Nat :=
  match parent.children.findIdx? fun c => c.value.name = name ∧ c.value.binary = binary with
  | some i => (parent, i)
  | none => (.node parent.value (parent.children ++ [ctNodeInit name binary]), parent.children.length)

/-- `struct calltree`. `stack` is `stack[depth]`, ..., `stack[0]`. -/
structure Calltree where
  root : CtNode
  stack : List NodePtr
  prevSym : Option SymEntry
  prevClass : PtInsnClass

def Calltree.depth (ct : Calltree) : Nat := ct.stack.length - 1

def calltreeInit : Calltree where
  root := ctNodeInit ⟨0, cstr "<root>"⟩ ⟨0, cstr ""⟩
  stack := [[]]
  prevSym := none
  prevClass := .unknown

def ctEnter (tsc : UInt64) (d : CtData) : CtData := { d with count := d.count + 1, entryTsc := tsc }

def ctLeave (tsc : UInt64) (d : CtData) : CtData :=
  { d with
    totalTsc := if 0 < tsc ∧ 0 < d.entryTsc ∧ d.entryTsc < tsc then d.totalTsc + (tsc - d.entryTsc)
      else d.totalTsc
    entryTsc := 0 }

def calltreePush (ct : Calltree) (sym : Option SymEntry) (tsc : UInt64) : Calltree :=
  match sym with
  | none => ct
  | some s =>
      let parentPtr := ct.stack.headD []
      match ct.root.get? parentPtr with
      | none => ct -- a dangling pointer
      | some parent =>
          let found := ctFindOrAddChild parent s.name s.binary
          let childPtr := parentPtr ++ [found.2]
          { ct with
            root := (ct.root.modifyAt (fun _ => found.1) parentPtr).modifyAt
              (CtNode.update (ctEnter tsc)) childPtr
            stack := childPtr :: ct.stack }

def calltreePop (ct : Calltree) (tsc : UInt64) : Calltree :=
  if 0 < ct.depth then
    { ct with
      root := ct.root.modifyAt (CtNode.update (ctLeave tsc)) (ct.stack.headD [])
      stack := ct.stack.tail }
  else ct

/-- The part of `calltree_record` that detects a function entry: the previous instruction was a CALL
and this one is at offset 0 of a symbol. -/
def calltreeEnter (ct : Calltree) (x : DecodedInsn) : Calltree :=
  if x.atEntry ∧ ct.prevClass.isCall then calltreePush ct x.sym x.tsc else ct

def calltreeRecord (ct : Calltree) (x : DecodedInsn) : Calltree :=
  let entered := calltreeEnter ct x
  let left := if x.iclass.isReturn then calltreePop entered x.tsc else entered
  { left with prevSym := x.sym, prevClass := x.iclass }

/-- The calls counted at a node, when its name and binary are the ones asked for. -/
def ctCalls (key : StrPtr → StrPtr → Bool) (d : CtData) : Nat :=
  if key d.name d.binary then d.count else 0

/-- The sum of `count` over all nodes with the name and binary asked for. -/
def CtNode.sumCount (key : StrPtr → StrPtr → Bool) (n : CtNode) : Nat := RoseTree.sumBy (ctCalls key) n

def calltreeRun (w : List DecodedInsn) : Calltree := w.foldl calltreeRecord calltreeInit

end ObservableBSD.Decode
