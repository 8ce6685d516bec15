import ObservableBSD.Base.Reading
import ObservableBSD.Base.Separated
import ObservableBSD.Decode.Listing

/-!
# Reading the listings back

The lines of the call tree, of the callers and of the profile, each with the entry that it shows.
-/

namespace ObservableBSD.Decode

open Base

/-! ## Entries -/

structure ListedEntry where
  binary : CString
  name : CString
  count : Nat
deriving DecidableEq

def readListed? (s : CString) : Option ListedEntry := do
  let (s, count) ← readNumeralBack? s
  let s ← stripSuffix? (cstr "  (") s
  match s.dropWhile (· ≠ 58) with
  | [] => none
  | _ :: name => some ⟨s.takeWhile (· ≠ 58), name, count⟩

/-- An entry and a time; `timed` and `close` stand around the time, `plain` in place of the three. -/
def readTimed? (timed close plain : CString) (s : CString) : Option (ListedEntry × Nat) :=
  match stripSuffix? close s with
  | some s => do
      let (s, tsc) ← readNumeralBack? s
      let s ← stripSuffix? timed s
      let entry ← readListed? s
      some (entry, tsc)
  | none => do
      let s ← stripSuffix? plain s
      let entry ← readListed? s
      some (entry, 0)

theorem readListed?_entryText {binary : CString} (h : 58 ∉ binary) (name : CString) (count : Nat) :
    readListed? (entryText binary name count) = some ⟨binary, name, count⟩ := by
  have hcolon : ∀ d ∈ binary, decide (d ≠ 58) = true := fun d hd => decide_eq_true fun heq => h (heq ▸ hd)
  have hparts : entryText binary name count = (binary ++ 58 :: name) ++ cstr "  (" ++ numeral 10 count := by
    have hone : cstr ":" = [58] := by decide
    simp [entryText, hone]
  have hlast : ∀ c, ((binary ++ 58 :: name) ++ cstr "  (").getLast? = some c → isDigit 10 c = false := by
    have hparen : cstr "  (" = [32, 32] ++ [40] := by decide
    intro c hc
    rw [hparen, ← List.append_assoc, List.getLast?_concat] at hc
    cases hc
    decide
  have hstop : ∀ c, (58 :: name).head? = some c → decide (c ≠ 58) = false := by
    intro c hc
    cases hc
    rfl
  rw [hparts]
  simp only [readListed?, readNumeralBack?_numeral count hlast, stripSuffix?_append, takeWhile_field hcolon hstop,
    dropWhile_field hcolon hstop, Option.bind_eq_bind, Option.bind_some]

theorem readTimed?_entryText {binary : CString} (timed close plain : CString) (h : 58 ∉ binary)
    (hdigit : timed.getLast?.all (!isDigit 10 ·) = true) (hne : timed ≠ []) (happart : EndsApart close plain)
    (name : CString) (count : Nat) (tsc : UInt64) :
    readTimed? timed close plain (entryText binary name count ++
        if 0 < tsc then timed ++ (numeral 10 tsc.toNat ++ close) else plain) =
      some (⟨binary, name, count⟩, tsc.toNat) := by
  unfold readTimed?
  by_cases hpos : 0 < tsc
  · have hlast : ∀ c, (entryText binary name count ++ timed).getLast? = some c → isDigit 10 c = false := by
      intro c hc
      rw [List.getLast?_append_of_ne_nil _ hne] at hc
      simpa [hc] using hdigit
    have hparts : entryText binary name count ++ (timed ++ (numeral 10 tsc.toNat ++ close)) =
        ((entryText binary name count ++ timed) ++ numeral 10 tsc.toNat) ++ close := by simp
    simp only [if_pos hpos, hparts, stripSuffix?_append, readNumeralBack?_numeral _ hlast, readListed?_entryText h,
      Option.bind_eq_bind, Option.bind_some]
  · have hzero : tsc.toNat = 0 := by
      rw [UInt64.lt_iff_toNat_lt] at hpos
      exact Nat.eq_zero_of_not_pos hpos
    simp only [if_neg hpos, happart.stripSuffix?, stripSuffix?_append, readListed?_entryText h, Option.bind_eq_bind,
      Option.bind_some, hzero]

/-! ## Names -/

/-- A name and a binary that can be told apart in a line. -/
structure Legible (name binary : StrPtr) : Prop where
  colon : 58 ∉ binary.text
  indent : binary.text.head? ≠ some 32
  name : 10 ∉ name.text
  binary : 10 ∉ binary.text

theorem notMem_entryText {name binary : StrPtr} (h : Legible name binary) (count : Nat) :
    10 ∉ entryText binary.text name.text count := by
  have hdigits := (printable_numeral (by omega : 2 ≤ 10) (by omega) count).not_newline
  have hcolon : (10 : UInt8) ∉ cstr ":" := by decide
  have hparen : (10 : UInt8) ∉ cstr "  (" := by decide
  simp [entryText, h.name, h.binary, hdigits, hcolon, hparen]

/-! ## The call tree -/

abbrev ListedCall := ListedEntry × Nat

def readTreeLine? (line : CString) : Option (Nat × ListedCall) := do
  let call ← readTimed? (cstr ") [") (cstr " tsc]") (cstr ")") (line.dropWhile (· = 32))
  some ((line.takeWhile (· = 32)).length / 2, call)

/-- The forest that a listing shows. -/
def readCalltree (lines : List CString) : Option (List (RoseTree ListedCall)) :=
  (lines.mapM readTreeLine?).map RoseTree.ofOutline

def ctShown (d : CtData) : ListedCall := (⟨d.binary.text, d.name.text, d.count⟩, d.totalTsc.toNat)

theorem readTreeLine?_ctLine {d : CtData} (h : Legible d.name d.binary) (indent : Nat) :
    readTreeLine? (ctLine indent d) = some (indent, ctShown d) := by
  have hspaces : ∀ c ∈ List.replicate (indent * 2) (32 : UInt8), decide (c = 32) = true := fun c hc =>
    decide_eq_true (List.eq_of_mem_replicate hc)
  have hstop : ∀ (u : CString) c, (entryText d.binary.text d.name.text d.count ++ u).head? = some c →
      decide (c = 32) = false := by
    intro u c hc
    refine decide_eq_false fun heq => ?_
    have hcolon : cstr ":" = [58] := by decide
    unfold entryText at hc
    cases hbinary : d.binary.text with
    | nil =>
        rw [hbinary, hcolon] at hc
        cases hc
        cases heq
    | cons b bs =>
        rw [hbinary] at hc
        refine h.indent ?_
        rw [hbinary, ← heq]
        exact hc
  have hcall := readTimed?_entryText (cstr ") [") (cstr " tsc]") (cstr ")") h.colon (by decide) (by decide) (by decide)
    d.name.text d.count d.totalTsc
  unfold readTreeLine? ctLine
  rw [dropWhile_field hspaces (hstop _), takeWhile_field hspaces (hstop _), hcall, List.length_replicate]
  simp [ctShown]

theorem notMem_ctLine {d : CtData} (h : Legible d.name d.binary) (indent : Nat) : 10 ∉ ctLine indent d := by
  have hspaces : (10 : UInt8) ∉ List.replicate (indent * 2) 32 := fun hmem => by cases List.eq_of_mem_replicate hmem
  have hdigits := (printable_numeral (by omega : 2 ≤ 10) (by omega) d.totalTsc.toNat).not_newline
  have hfixed : (10 : UInt8) ∉ cstr ") [" ∧ (10 : UInt8) ∉ cstr " tsc]" ∧ (10 : UInt8) ∉ cstr ")" := by decide
  rw [ctLine, List.mem_append, List.mem_append, not_or, not_or]
  refine ⟨hspaces, notMem_entryText h d.count, ?_⟩
  split
  · simp [hfixed, hdigits]
  · exact hfixed.2.2

mutual
theorem ctPrintNode_eq (indent : Nat) (n : CtNode) :
    ctPrintNode indent n = (RoseTree.outlineList indent n.children).map fun line => ctLine line.1 line.2 := by
  cases n with
  | node d cs => exact ctPrintChildren_eq indent cs

theorem ctPrintChildren_eq (indent : Nat) (cs : List CtNode) :
    ctPrintChildren indent cs = (RoseTree.outlineList indent cs).map fun line => ctLine line.1 line.2 := by
  cases cs with
  | nil => rfl
  | cons c cs =>
      have hnode := ctPrintNode_eq (indent + 1) c
      have hrest := ctPrintChildren_eq indent cs
      cases c with
      | node d ds =>
          rw [RoseTree.children_node] at hnode
          rw [ctPrintChildren, hnode, hrest, RoseTree.outlineList, RoseTree.outline, List.map_append, List.map_cons]
          rfl
end

theorem mapM_of_forall {α β γ : Type} {f : α → β} {g : β → Option γ} {k : α → γ} {l : List α}
    (h : ∀ a ∈ l, g (f a) = some (k a)) : (l.map f).mapM g = some (l.map k) := by
  induction l with
  | nil => rfl
  | cons a l ih =>
      rw [List.map_cons, List.mapM_cons, h a List.mem_cons_self, ih fun b hb => h b (List.mem_cons_of_mem _ hb)]
      rfl

section

variable {n : CtNode} (h : ∀ c ∈ n.children, RoseTree.Forall (fun d => Legible d.name d.binary) c)

include h

theorem notMem_ctPrintNode (indent : Nat) : ∀ line ∈ ctPrintNode indent n, (10 : UInt8) ∉ line := by
  intro line hline
  rw [ctPrintNode_eq] at hline
  obtain ⟨entry, hentry, rfl⟩ := List.mem_map.mp hline
  exact notMem_ctLine (RoseTree.forall_outlineList h indent entry hentry) entry.1

theorem readCalltree_printNode : readCalltree (ctPrintNode 0 n) = some (RoseTree.mapList ctShown n.children) := by
  have hread : (ctPrintNode 0 n).mapM readTreeLine? =
      some ((RoseTree.outlineList 0 n.children).map (Prod.map id ctShown)) := by
    rw [ctPrintNode_eq]
    exact mapM_of_forall fun entry hentry => readTreeLine?_ctLine (RoseTree.forall_outlineList h 0 entry hentry) entry.1
  rw [readCalltree, hread, Option.map_some, RoseTree.map_outlineList, RoseTree.ofOutline_outlineList]

end

/-! ## Names along a run -/

/-- The names that the nodes below the root get. -/
def LegibleSyms (w : List DecodedInsn) : Prop := ∀ x ∈ w, ∀ s, x.sym = some s → Legible s.name s.binary

/-- A tree whose nodes have legible names. -/
abbrev LegibleTree (t : CtNode) : Prop := RoseTree.Forall (fun d => Legible d.name d.binary) t

theorem LegibleTree.update {t : CtNode} (h : LegibleTree t) {f : CtData → CtData}
    (hf : ∀ d, (f d).name = d.name ∧ (f d).binary = d.binary) : LegibleTree (t.update f) := by
  cases h with
  | node ha hcs =>
      refine .node ?_ hcs
      obtain ⟨hname, hbinary⟩ := hf _
      rwa [hname, hbinary]

theorem LegibleTree.findOrAdd {t : CtNode} (h : LegibleTree t) {name binary : StrPtr} (hnew : Legible name binary) :
    LegibleTree (ctFindOrAddChild t name binary).1 := by
  unfold ctFindOrAddChild
  split
  · exact h
  · refine .node h.value fun c hc => ?_
    rcases List.mem_append.mp hc with hc | hc
    · exact h.children c hc
    · obtain rfl := List.mem_singleton.mp hc
      exact .node hnew fun c hc => absurd hc List.not_mem_nil

theorem calltreePush_legible {ct : Calltree} (h : LegibleTree ct.root) {sym : Option SymEntry} {tsc : UInt64}
    (hsym : ∀ s, sym = some s → Legible s.name s.binary) : LegibleTree (calltreePush ct sym tsc).root := by
  unfold calltreePush
  cases sym with
  | none => exact h
  | some s =>
      dsimp only
      split
      · exact h
      · rename_i parent hparent
        have hadded := LegibleTree.findOrAdd (h.get? hparent) (hsym s rfl)
        exact (h.modifyAt (fun _ _ => hadded) _).modifyAt
          (fun n hn => LegibleTree.update hn (f := ctEnter tsc) fun d => ⟨rfl, rfl⟩) _

theorem calltreeRecord_legible {ct : Calltree} (h : LegibleTree ct.root) {x : DecodedInsn}
    (hsym : ∀ s, x.sym = some s → Legible s.name s.binary) : LegibleTree (calltreeRecord ct x).root := by
  have hentered : LegibleTree (calltreeEnter ct x).root := by
    unfold calltreeEnter
    split
    · exact calltreePush_legible h hsym
    · exact h
  unfold calltreeRecord
  dsimp only
  split
  · unfold calltreePop
    split
    · exact hentered.modifyAt (fun n hn => LegibleTree.update hn (f := ctLeave x.tsc) fun d => ⟨rfl, rfl⟩) _
    · exact hentered
  · exact hentered

theorem calltreeRun_legible {w : List DecodedInsn} (h : LegibleSyms w) : LegibleTree (calltreeRun w).root := by
  have hfold : ∀ (ct : Calltree), LegibleTree ct.root → LegibleTree (w.foldl calltreeRecord ct).root := by
    induction w with
    | nil => exact fun ct hct => hct
    | cons x w ih =>
        intro ct hct
        exact ih (fun y hy => h y (List.mem_cons_of_mem _ hy)) _
          (calltreeRecord_legible hct fun s hs => h x List.mem_cons_self s hs)
  refine hfold calltreeInit (.node ⟨?_, ?_, ?_, ?_⟩ fun c hc => absurd hc List.not_mem_nil) <;> decide

/-! ## The callers -/

def edgeShown (e : CallerEdge) : ListedEntry := ⟨e.binary.text, e.name.text, e.count⟩

structure ListedFunc where
  call : ListedCall
  callers : List ListedEntry
  callees : List ListedEntry
deriving DecidableEq

def funcShown (f : FuncSummary) : ListedFunc where
  call := (⟨f.binary.text, f.name.text, f.totalCalls⟩, f.totalTsc.toNat)
  callers := (f.callers.mergeSort edgeCmp).map edgeShown
  callees := (f.callees.mergeSort edgeCmp).map edgeShown

/-- What has been read from the end of a listing: the functions, and of the one above them the edges. -/
structure CallersBlock where
  entries : List ListedEntry := []
  callers : List ListedEntry := []
  callees : List ListedEntry := []
  funcs : List ListedFunc := []

def readCallersLine (line : CString) (st : CallersBlock) : Option CallersBlock :=
  if line = [] then some st
  else if line = cstr "  calls:" then some { st with callees := st.entries, entries := [] }
  else if line = cstr "  called by:" then some { st with callers := st.entries, entries := [] }
  else match stripPrefix? (cstr "    ") line with
    | some edge => do
        let edge ← stripSuffix? (cstr ")") edge
        let entry ← readListed? edge
        some { st with entries := entry :: st.entries }
    | none => do
        let func ← stripPrefix? (cstr "--- ") line
        let call ← readTimed? (cstr " calls, ") (cstr " tsc)") (cstr " calls)") func
        some { funcs := ⟨call, st.callers, st.callees⟩ :: st.funcs }

/-- The functions that a listing shows. -/
def readCallers (lines : List CString) : Option (List ListedFunc) :=
  (lines.foldrM readCallersLine {}).map CallersBlock.funcs

theorem readCallersLine_edge {e : CallerEdge} (h : 58 ∉ e.binary.text) (st : CallersBlock) :
    readCallersLine (edgeLine e) st = some { st with entries := edgeShown e :: st.entries } := by
  have hfront : edgeLine e = 32 :: 32 :: 32 :: 32 :: (entryText e.binary.text e.name.text e.count ++ cstr ")") := by
    have hindent : cstr "    " = [32, 32, 32, 32] := by decide
    rw [edgeLine, hindent]
    rfl
  have hcalls : cstr "  calls:" = 32 :: 32 :: 99 :: (cstr "  calls:").drop 3 := by decide
  have hcalled : cstr "  called by:" = 32 :: 32 :: 99 :: (cstr "  called by:").drop 3 := by decide
  have hnil : edgeLine e ≠ [] := by rw [hfront]; exact List.cons_ne_nil _ _
  have hnotCalls : edgeLine e ≠ cstr "  calls:" := by
    rw [hfront, hcalls]
    intro heq
    cases heq
  have hnotCalled : edgeLine e ≠ cstr "  called by:" := by
    rw [hfront, hcalled]
    intro heq
    cases heq
  rw [readCallersLine, if_neg hnil, if_neg hnotCalls, if_neg hnotCalled, edgeLine, stripPrefix?_append]
  simp only [stripSuffix?_append, readListed?_entryText h, Option.bind_eq_bind, Option.bind_some]
  rfl

theorem readCallersLine_func {f : FuncSummary} (h : 58 ∉ f.binary.text) (st : CallersBlock) :
    readCallersLine (funcLine f) st =
      some { funcs := ⟨(funcShown f).call, st.callers, st.callees⟩ :: st.funcs } := by
  have hcall := readTimed?_entryText (cstr " calls, ") (cstr " tsc)") (cstr " calls)") h (by decide) (by decide)
    (by decide) f.name.text f.totalCalls f.totalTsc
  obtain ⟨rest, hfront⟩ : ∃ rest, funcLine f = 45 :: rest := ⟨_, rfl⟩
  have hnil : funcLine f ≠ [] := by rw [hfront]; exact List.cons_ne_nil _ _
  have hnotCalls : funcLine f ≠ cstr "  calls:" := by
    rw [hfront]
    intro heq
    cases heq
  have hnotCalled : funcLine f ≠ cstr "  called by:" := by
    rw [hfront]
    intro heq
    cases heq
  have hnotEdge : stripPrefix? (cstr "    ") (funcLine f) = none := by
    refine if_neg fun hpre => ?_
    rw [hfront] at hpre
    exact absurd (List.cons_prefix_cons.mp hpre).1 (by decide)
  rw [readCallersLine, if_neg hnil, if_neg hnotCalls, if_neg hnotCalled, hnotEdge, funcLine]
  simp only [stripPrefix?_append, hcall, Option.bind_eq_bind, Option.bind_some]
  rfl

theorem foldrM_edges {edges : List CallerEdge} (h : ∀ e ∈ edges, 58 ∉ e.binary.text) (st : CallersBlock) :
    (edges.map edgeLine).foldrM readCallersLine st =
      some { st with entries := edges.map edgeShown ++ st.entries } := by
  induction edges with
  | nil => rfl
  | cons e edges ih =>
      rw [List.map_cons, List.foldrM_cons, ih fun d hd => h d (List.mem_cons_of_mem _ hd)]
      exact readCallersLine_edge (h e List.mem_cons_self) _

/-- The edges below a heading, in front of what has no edges pending. -/
theorem foldrM_edgeLines {edges : List CallerEdge} (h : ∀ e ∈ edges, 58 ∉ e.binary.text) (heading : CString)
    (put : List ListedEntry → CallersBlock → CallersBlock) (st : CallersBlock) (hst : st.entries = [])
    (hnone : put [] st = st)
    (hheading : ∀ entries, readCallersLine heading { st with entries } = some (put entries st)) :
    (edgeLines heading edges).foldrM readCallersLine st = some (put ((edges.mergeSort edgeCmp).map edgeShown) st) := by
  unfold edgeLines
  split
  · rename_i hempty
    rw [hempty, List.mergeSort_nil, List.map_nil, hnone]
    rfl
  · have hsorted : ∀ e ∈ edges.mergeSort edgeCmp, 58 ∉ e.binary.text := fun e he => h e (List.mem_mergeSort.mp he)
    rw [List.foldrM_cons, foldrM_edges hsorted, hst, List.append_nil]
    exact hheading _

/-- A function's lines have legible names. -/
structure LegibleFunc (f : FuncSummary) : Prop where
  func : Legible f.name f.binary
  callers : ∀ e ∈ f.callers, Legible e.name e.binary
  callees : ∀ e ∈ f.callees, Legible e.name e.binary

theorem foldrM_funcLines {f : FuncSummary} (h : LegibleFunc f) (funcs : List ListedFunc) :
    (funcLines f).foldrM readCallersLine { funcs } = some { funcs := funcShown f :: funcs } := by
  have hcallees := foldrM_edgeLines (fun e he => (h.callees e he).colon) (cstr "  calls:")
    (fun entries st => { st with callees := entries }) { funcs } rfl rfl fun entries => rfl
  have hcallers := foldrM_edgeLines (fun e he => (h.callers e he).colon) (cstr "  called by:")
    (fun entries st => { st with callers := entries })
    { funcs, callees := (f.callees.mergeSort edgeCmp).map edgeShown } rfl rfl fun entries => rfl
  have hblank : readCallersLine [] { funcs } = some { funcs } := rfl
  rw [funcLines, List.foldrM_cons, List.foldrM_append, List.foldrM_append, List.foldrM_cons, List.foldrM_nil]
  simp only [Option.pure_def, Option.bind_eq_bind, Option.bind_some, hblank, hcallees, hcallers,
    readCallersLine_func h.func.colon]
  rfl

theorem foldrM_allFuncLines {funcs : List FuncSummary} (h : ∀ f ∈ funcs, LegibleFunc f) :
    (funcs.flatMap funcLines).foldrM readCallersLine {} = some { funcs := funcs.map funcShown } := by
  induction funcs with
  | nil => rfl
  | cons f funcs ih =>
      rw [List.flatMap_cons, List.foldrM_append, ih fun g hg => h g (List.mem_cons_of_mem _ hg)]
      exact foldrM_funcLines (h f List.mem_cons_self) _

theorem notMem_edgeLines {edges : List CallerEdge} (h : ∀ e ∈ edges, Legible e.name e.binary) {heading : CString}
    (hheading : 10 ∉ heading) : ∀ line ∈ edgeLines heading edges, (10 : UInt8) ∉ line := by
  unfold edgeLines
  split
  · exact fun line hline => absurd hline List.not_mem_nil
  · refine List.forall_mem_cons.mpr ⟨hheading, fun line hline => ?_⟩
    obtain ⟨e, he, rfl⟩ := List.mem_map.mp hline
    have hentry := notMem_entryText (h e (List.mem_mergeSort.mp he)) e.count
    have hfixed : (10 : UInt8) ∉ cstr "    " ∧ (10 : UInt8) ∉ cstr ")" := by decide
    simp [edgeLine, hentry, hfixed]

theorem notMem_funcLines {f : FuncSummary} (h : LegibleFunc f) : ∀ line ∈ funcLines f, (10 : UInt8) ∉ line := by
  refine List.forall_mem_cons.mpr ⟨?_, List.forall_mem_append.mpr ⟨notMem_edgeLines h.callers (by decide),
    List.forall_mem_append.mpr ⟨notMem_edgeLines h.callees (by decide), by simp⟩⟩⟩
  have hentry := notMem_entryText h.func f.totalCalls
  have hdigits := (printable_numeral (by omega : 2 ≤ 10) (by omega) f.totalTsc.toNat).not_newline
  have hfixed : (10 : UInt8) ∉ cstr "--- " ∧ (10 : UInt8) ∉ cstr " calls, " ∧ (10 : UInt8) ∉ cstr " tsc)" ∧
      (10 : UInt8) ∉ cstr " calls)" := by decide
  rw [funcLine, List.mem_append, List.mem_append, not_or, not_or]
  refine ⟨hfixed.1, hentry, ?_⟩
  split
  · simp [hfixed, hdigits]
  · exact hfixed.2.2.2

theorem readCallers_funcLines {funcs : List FuncSummary} (h : ∀ f ∈ funcs, LegibleFunc f) :
    readCallers (funcs.flatMap funcLines) = some (funcs.map funcShown) := by
  rw [readCallers, foldrM_allFuncLines h]
  rfl

theorem callersAddEdge_legible {edges : List CallerEdge} (h : ∀ e ∈ edges, Legible e.name e.binary)
    {name binary : StrPtr} (hnew : Legible name binary) (count : Nat) (tsc : UInt64) :
    ∀ e ∈ callersAddEdge edges name binary count tsc, Legible e.name e.binary := by
  refine forall_mem_upsert ?_ ?_ h
  · exact hnew
  · exact fun e he => he

theorem ctCollectNode_legible {parent : Option CtData} {d : CtData} {funcs : List FuncSummary}
    (hparent : ∀ p ∈ parent, Legible p.name p.binary) (hd : Legible d.name d.binary)
    (h : ∀ f ∈ funcs, LegibleFunc f) : ∀ f ∈ ctCollectNode parent d funcs, LegibleFunc f := by
  have hnone : ∀ e ∈ ([] : List CallerEdge), Legible e.name e.binary := fun e he => absurd he List.not_mem_nil
  cases parent with
  | none => exact forall_mem_upsert ⟨hd, hnone, hnone⟩ (fun f hf => ⟨hf.func, hf.callers, hf.callees⟩) h
  | some p =>
      have hadd := fun {edges : List CallerEdge} (hedges : ∀ e ∈ edges, Legible e.name e.binary) =>
        callersAddEdge_legible hedges (hparent p rfl) d.count d.totalTsc
      exact forall_mem_upsert ⟨hd, hadd hnone, hnone⟩ (fun f hf => ⟨hf.func, hadd hf.callers, hf.callees⟩) h

theorem ctCollectCallee_legible {d child : CtData} {funcs : List FuncSummary} (hd : Legible d.name d.binary)
    (hchild : Legible child.name child.binary) (h : ∀ f ∈ funcs, LegibleFunc f) :
    ∀ f ∈ ctCollectCallee d child funcs, LegibleFunc f := by
  have hnone : ∀ e ∈ ([] : List CallerEdge), Legible e.name e.binary := fun e he => absurd he List.not_mem_nil
  refine forall_mem_upsert ?_ ?_ h
  · exact ⟨hd, hnone, callersAddEdge_legible hnone hchild _ _⟩
  · exact fun f hf => ⟨hf.func, hf.callers, callersAddEdge_legible hf.callees hchild _ _⟩

mutual
theorem ctCollectEdges_legible {parent : Option CtData} {n : CtNode} {funcs : List FuncSummary}
    (hparent : ∀ p ∈ parent, Legible p.name p.binary) (hn : LegibleTree n) (h : ∀ f ∈ funcs, LegibleFunc f) :
    ∀ f ∈ ctCollectEdges parent n funcs, LegibleFunc f := by
  cases hn with
  | node hd hcs => exact ctCollectChildren_legible hd hcs (ctCollectNode_legible hparent hd h)

theorem ctCollectChildren_legible {d : CtData} {cs : List CtNode} {funcs : List FuncSummary}
    (hd : Legible d.name d.binary) (hcs : ∀ c ∈ cs, LegibleTree c) (h : ∀ f ∈ funcs, LegibleFunc f) :
    ∀ f ∈ ctCollectChildren d cs funcs, LegibleFunc f := by
  cases cs with
  | nil => exact h
  | cons c cs =>
      obtain ⟨hc, hrest⟩ := List.forall_mem_cons.mp hcs
      rw [ctCollectChildren]
      exact ctCollectChildren_legible hd hrest (ctCollectEdges_legible (fun p hp => Option.some.inj hp ▸ hd) hc
        (ctCollectCallee_legible hd hc.value h))
end

/-! ## The profile -/

structure ListedProfile where
  calls : Nat
  returns : Nat
  branches : Nat
  time : Nat
  binary : CString
  name : CString
  source : CString
deriving DecidableEq

def skipBlanks (s : CString) : CString := s.dropWhile (· = 32)

/-- A number, and what stands behind the blanks behind it. -/
def readColumn? (s : CString) : Option (Nat × CString) := (readNumeral? s).map (Prod.map id skipBlanks)

def textColumn (s : CString) : CString × CString := (s.takeWhile (· ≠ 32), skipBlanks (s.dropWhile (· ≠ 32)))

def readProfileRow? (haveTsc : Bool) (line : CString) : Option ListedProfile := do
  let (calls, s) ← readColumn? line
  let (returns, s) ← readColumn? s
  let (branches, s) ← readColumn? s
  let (time, s) ← if haveTsc then readColumn? s else some (0, s)
  let (binary, s) := textColumn s
  let (name, source) := textColumn s
  some { calls, returns, branches, time, binary, name, source }

/-- The entries that a table shows. -/
def readProfile (lines : List CString) : Option (List ListedProfile) :=
  (lines.drop 2).mapM (readProfileRow? (decide (lines.take 2 = profileHead true)))

def profileShown (e : ProfileEntry) : ListedProfile where
  calls := e.calls
  returns := e.returns
  branches := e.branches
  time := e.cumulativeTsc.toNat
  binary := e.binary.text
  name := e.name.text
  source := skipBlanks (sourceText e)

/-- Text that ends at the first blank. -/
structure Column (s : CString) : Prop where
  ne_nil : s ≠ []
  blank : 32 ∉ s
  newline : 10 ∉ s

structure LegibleEntry (e : ProfileEntry) : Prop where
  name : Column e.name.text
  binary : Column e.binary.text
  source : ∀ file ∈ e.sourceFile, 10 ∉ file

theorem skipBlanks_eq {gap s : CString} (hgap : ∀ c ∈ gap, c = 32) (hs : s.head? ≠ some 32) :
    skipBlanks (gap ++ s) = s := by
  refine dropWhile_field (fun c hc => decide_eq_true (hgap c hc)) fun c hc => decide_eq_false ?_
  rintro rfl
  exact hs hc

theorem Column.head? {s : CString} (h : Column s) (t : CString) : (s ++ t).head? ≠ some 32 := by
  cases s with
  | nil => exact absurd rfl h.ne_nil
  | cons c s =>
      intro heq
      exact h.blank (Option.some.inj heq ▸ List.mem_cons_self)

theorem column_numeral (n : Nat) : Column (numeral 10 n) := by
  have hdigits : ∀ d ∈ numeral 10 n, isDigit 10 d = true := fun d hd => isDigit_of_mem_numeral (by omega) (by omega) hd
  refine ⟨numeral_ne_nil 10 n, fun hmem => ?_, fun hmem => ?_⟩
  · exact absurd (hdigits 32 hmem) (by decide)
  · exact absurd (hdigits 10 hmem) (by decide)

/-- The blanks behind a column, and in front of the next. -/
theorem leftAligned_append (width : Nat) (s gap rest : CString) : leftAligned width s ++ (gap ++ rest) =
    s ++ ((List.replicate (width - s.length) 32 ++ gap) ++ rest) := by
  simp [leftAligned, List.rightpad]

theorem blanks_append {k : Nat} {gap : CString} (hgap : ∀ c ∈ gap, c = 32) :
    ∀ c ∈ List.replicate k (32 : UInt8) ++ gap, c = 32 :=
  List.forall_mem_append.mpr ⟨fun _ hc => List.eq_of_mem_replicate hc, hgap⟩

/-- The first character of what follows a column. -/
theorem head?_blanks {k : Nat} {gap rest : CString} (hgap : ∀ c ∈ gap, c = 32) (hne : gap ≠ []) :
    ∀ c, ((List.replicate k 32 ++ gap) ++ rest).head? = some c → c = 32 := by
  have hblanks := blanks_append (k := k) hgap
  obtain ⟨d, u, hcons⟩ := List.exists_cons_of_ne_nil (List.append_ne_nil_of_right_ne_nil (List.replicate k 32) hne)
  rw [hcons] at hblanks ⊢
  rintro c ⟨⟩
  exact hblanks d List.mem_cons_self

theorem readColumn?_numeral (width n : Nat) {gap rest : CString} (hgap : ∀ c ∈ gap, c = 32) (hne : gap ≠ [])
    (hrest : rest.head? ≠ some 32) :
    readColumn? (leftAligned width (numeral 10 n) ++ (gap ++ rest)) = some (n, rest) := by
  have hstop : ∀ c, ((List.replicate (width - (numeral 10 n).length) 32 ++ gap) ++ rest).head? = some c →
      isDigit 10 c = false := by
    intro c hc
    rw [head?_blanks hgap hne c hc]
    decide
  rw [readColumn?, leftAligned_append, readNumeral?_numeral n hstop, Option.map_some, Prod.map_apply,
    skipBlanks_eq (blanks_append hgap) hrest]
  rfl

theorem textColumn_column {s : CString} (h : Column s) {gap rest : CString} (hgap : ∀ c ∈ gap, c = 32) (hne : gap ≠ [])
    (width : Nat) (hrest : rest.head? ≠ some 32) : textColumn (leftAligned width s ++ (gap ++ rest)) = (s, rest) := by
  have htext : ∀ c ∈ s, decide (c ≠ 32) = true := fun c hc => decide_eq_true fun heq => h.blank (heq ▸ hc)
  have hstop : ∀ c, ((List.replicate (width - s.length) 32 ++ gap) ++ rest).head? = some c → decide (c ≠ 32) = false := by
    intro c hc
    rw [head?_blanks hgap hne c hc]
    rfl
  rw [textColumn, leftAligned_append, takeWhile_field htext hstop, dropWhile_field htext hstop,
    skipBlanks_eq (blanks_append hgap) hrest]

theorem textColumn_name {e : ProfileEntry} (h : LegibleEntry e) :
    textColumn (e.name.text ++ sourceText e) = (e.name.text, skipBlanks (sourceText e)) := by
  have htext : ∀ c ∈ e.name.text, decide (c ≠ 32) = true := fun c hc =>
    decide_eq_true fun heq => h.name.blank (heq ▸ hc)
  have hstop : ∀ c, (sourceText e).head? = some c → decide (c ≠ 32) = false := by
    intro c hc
    unfold sourceText at hc
    split at hc <;> cases hc
    rfl
  rw [textColumn, takeWhile_field htext hstop, dropWhile_field htext hstop]

theorem readProfileRow?_profileRow {e : ProfileEntry} (h : LegibleEntry e) {haveTsc : Bool}
    (htsc : haveTsc = false → e.cumulativeTsc = 0) :
    readProfileRow? haveTsc (profileRow haveTsc e) = some (profileShown e) := by
  have hone : ∀ c ∈ cstr " ", c = 32 := List.forall_mem_singleton.mpr rfl
  have htwo : ∀ c ∈ cstr "  ", c = 32 := List.forall_mem_cons.mpr ⟨rfl, hone⟩
  have hgaps : cstr " " ≠ [] ∧ cstr "  " ≠ [] := by decide
  have hname : (e.name.text ++ sourceText e).head? ≠ some 32 := h.name.head? _
  have hcolumn : ∀ {s : CString}, Column s → ∀ width gap rest,
      (leftAligned width s ++ (gap ++ rest)).head? ≠ some 32 := by
    intro s hs width gap rest
    rw [leftAligned_append]
    exact hs.head? _
  have hnumber : ∀ width n gap rest, (leftAligned width (numeral 10 n) ++ (gap ++ rest)).head? ≠ some 32 :=
    fun width n => hcolumn (column_numeral n) width
  unfold readProfileRow? profileRow profileColumns
  cases haveTsc with
  | false =>
      have hzero : e.cumulativeTsc.toNat = 0 := by rw [htsc rfl]; rfl
      simp only [Bool.false_eq_true, if_false, List.nil_append, Option.bind_eq_bind, Option.bind_some,
        readColumn?_numeral 8 _ hone hgaps.1 (hnumber _ _ _ _),
        readColumn?_numeral 8 _ htwo hgaps.2 (hcolumn h.binary _ _ _),
        textColumn_column h.binary htwo hgaps.2 20 hname, textColumn_name h, profileShown, hzero]
  | true =>
      simp only [if_true, List.append_assoc, Option.bind_eq_bind, Option.bind_some,
        readColumn?_numeral 8 _ hone hgaps.1 (hnumber _ _ _ _), readColumn?_numeral 8 _ htwo hgaps.2 (hnumber _ _ _ _),
        readColumn?_numeral 14 _ htwo hgaps.2 (hcolumn h.binary _ _ _),
        textColumn_column h.binary htwo hgaps.2 20 hname, textColumn_name h, profileShown]

theorem notMem_profileRow {e : ProfileEntry} (h : LegibleEntry e) (haveTsc : Bool) : 10 ∉ profileRow haveTsc e := by
  have hnumeral : ∀ n, (10 : UInt8) ∉ numeral 10 n := fun n => (column_numeral n).newline
  have haligned : ∀ width {s : CString}, (10 : UInt8) ∉ s → 10 ∉ leftAligned width s := by
    intro width s hs hmem
    rcases List.mem_append.mp hmem with hmem | hmem
    · exact hs hmem
    · cases List.eq_of_mem_replicate hmem
  have hsource : (10 : UInt8) ∉ sourceText e := by
    have hline := (printable_intNumeral e.sourceLine).not_newline
    have hfixed : (10 : UInt8) ∉ cstr "  (" ∧ (10 : UInt8) ∉ cstr ":" ∧ (10 : UInt8) ∉ cstr ")" := by decide
    unfold sourceText
    split
    · exact List.not_mem_nil
    · rename_i file hfile
      simp [hline, hfixed, h.source file hfile]
  have hone : (10 : UInt8) ∉ cstr " " ∧ (10 : UInt8) ∉ cstr "  " := by decide
  have htime : (10 : UInt8) ∉ if haveTsc then leftAligned 14 (numeral 10 e.cumulativeTsc.toNat) ++ cstr "  " else [] := by
    split
    · simp [haligned 14 (hnumeral _), hone]
    · exact List.not_mem_nil
  simp only [profileRow, profileColumns, List.mem_append, not_or]
  exact ⟨haligned 8 (hnumeral _), hone.1, haligned 8 (hnumeral _), hone.1, haligned 8 (hnumeral _), hone.2, htime,
    haligned 20 h.binary.newline, hone.2, h.name.newline, hsource⟩

section

variable {p : Profile} (h : ∀ e ∈ p.entries, LegibleEntry e) (opts : Option PtDecodeOpts)

include h

theorem mem_of_profileListed {e : ProfileEntry} (he : e ∈ profileListed p opts) : LegibleEntry e :=
  h e (List.mem_mergeSort.mp (List.mem_of_mem_filter he))

theorem notMem_profilePrint : ∀ line ∈ profilePrint p opts, (10 : UInt8) ∉ line := by
  have hhead : ∀ b, ∀ line ∈ profileHead b, (10 : UInt8) ∉ line := by decide
  refine List.forall_mem_append.mpr ⟨hhead _, fun line hline => ?_⟩
  obtain ⟨e, he, rfl⟩ := List.mem_map.mp hline
  exact notMem_profileRow (mem_of_profileListed h opts he) _

theorem readProfile_profilePrint : readProfile (profilePrint p opts) = some ((profileListed p opts).map profileShown) := by
  have htwo : ∀ b, (profileHead b).length = 2 ∧ decide (profileHead b = profileHead true) = b := by decide
  have hrow : ∀ e ∈ profileListed p opts, readProfileRow? (p.entries.any fun e => 0 < e.cumulativeTsc)
      (profileRow (p.entries.any fun e => 0 < e.cumulativeTsc) e) = some (profileShown e) := by
    intro e he
    refine readProfileRow?_profileRow (mem_of_profileListed h opts he) fun hnone => ?_
    have hzero := List.any_eq_false.mp hnone e (List.mem_mergeSort.mp (List.mem_of_mem_filter he))
    rw [decide_eq_true_eq, UInt64.lt_iff_toNat_lt] at hzero
    exact UInt64.toNat_inj.mp (Nat.eq_zero_of_not_pos hzero)
  unfold readProfile profilePrint
  dsimp only
  rw [List.take_left' (htwo _).1, List.drop_left' (htwo _).1, (htwo _).2]
  exact mapM_of_forall hrow

end

/-- The names and files that the entries get. -/
structure LegibleRun (dwarf : DwarfLookup) (w : List DecodedInsn) : Prop where
  names : ∀ x ∈ w, ∀ s, x.sym = some s → Column s.name.text ∧ Column s.binary.text
  files : ∀ path slide addr file line, dwarf path slide addr = some (file, line) → 10 ∉ file

theorem profileRun_legible {dwarf : DwarfLookup} {w : List DecodedInsn} (h : LegibleRun dwarf w)
    (sections : Option (List Trace.PtImageInfo)) : ∀ e ∈ (profileRun dwarf sections w).entries, LegibleEntry e := by
  have hkept : ∀ (x : DecodedInsn) (prev : PtInsnClass) (s : SymEntry) (e : ProfileEntry), LegibleEntry e →
      LegibleEntry (profileLeave x.iclass x.tsc (profileEnter prev s x.ip x.tsc e)) := by
    intro x prev s e he
    have hentered : LegibleEntry (profileEnter prev s x.ip x.tsc e) := by
      unfold profileEnter
      split <;> exact ⟨he.name, he.binary, he.source⟩
    unfold profileLeave
    split
    · split <;> exact ⟨hentered.name, hentered.binary, hentered.source⟩
    · split <;> exact ⟨hentered.name, hentered.binary, hentered.source⟩
    all_goals exact ⟨hentered.name, hentered.binary, hentered.source⟩
  have hstep : ∀ (p : Profile) (x : DecodedInsn), x ∈ w → (∀ e ∈ p.entries, LegibleEntry e) →
      ∀ e ∈ (profileRecord dwarf sections p x).entries, LegibleEntry e := by
    intro p x hx hp
    unfold profileRecord
    cases hsym : x.sym with
    | none => exact hp
    | some s =>
        obtain ⟨hname, hbinary⟩ := h.names x hx s hsym
        have hnew : LegibleEntry (profileNewEntry dwarf sections s) := by
          unfold profileNewEntry
          split
          · exact ⟨hname, hbinary, fun file hfile => by cases hfile⟩
          · rename_i file line hsource
            refine ⟨hname, hbinary, fun file' hfile => ?_⟩
            obtain rfl := Option.some.inj hfile
            unfold profileSourceLine at hsource
            split at hsource
            · cases hsource
            · split at hsource
              · cases hsource
              · exact h.files _ _ _ _ _ hsource
        refine forall_mem_upsert ?_ ?_ hp
        · exact hkept x p.prevClass s _ hnew
        · exact hkept x p.prevClass s
  unfold profileRun
  have hfold : ∀ (v : List DecodedInsn), (∀ x ∈ v, x ∈ w) → ∀ (p : Profile), (∀ e ∈ p.entries, LegibleEntry e) →
      ∀ e ∈ (v.foldl (profileRecord dwarf sections) p).entries, LegibleEntry e := by
    intro v
    induction v with
    | nil => exact fun _ p hp => hp
    | cons x v ih =>
        intro hv p hp
        exact ih (fun y hy => hv y (List.mem_cons_of_mem _ hy)) _ (hstep p x (hv x List.mem_cons_self) hp)
  exact hfold w (fun x hx => hx) profileInit fun e he => absurd he List.not_mem_nil

/-! ## The line of the thread -/

def IsThreadLine (line : CString) : Prop := cstr "Thread " <+: line ∧ line.getLast? = some 58

instance (line : CString) : Decidable (IsThreadLine line) := inferInstanceAs (Decidable (_ ∧ _))

def dropThread : List CString → List CString
  | [] => []
  | line :: lines => if IsThreadLine line then lines else line :: lines

/-- The lines of a listing, without that of the thread. -/
def listingLines (s : CString) : List CString := dropThread (linesOf 10 s)

theorem listingLines_printLines (opts : Option PtDecodeOpts) (lines : List CString) (h : ∀ line ∈ lines, 10 ∉ line)
    (hfirst : ∀ line ∈ lines.head?, ¬ IsThreadLine line) :
    listingLines (printLines (threadLines opts ++ lines)) = lines := by
  have hthread : ∀ tid, IsThreadLine (cstr "Thread " ++ (intNumeral tid ++ cstr ":")) := by
    intro tid
    refine ⟨List.prefix_append _ _, ?_⟩
    rw [List.getLast?_append_of_ne_nil _ (List.append_ne_nil_of_right_ne_nil _ (by decide)),
      List.getLast?_append_of_ne_nil _ (by decide)]
    decide
  have hnone : dropThread lines = lines := by
    cases lines with
    | nil => rfl
    | cons line lines => exact if_neg (hfirst line rfl)
  have hnewline : ∀ line ∈ threadLines opts, (10 : UInt8) ∉ line := by
    intro line hline
    unfold threadLines at hline
    split at hline
    · cases hline
    · split at hline
      · obtain rfl := List.mem_singleton.mp hline
        have hnumeral := (printable_intNumeral (PtDecodeOpts.tid ‹_›)).not_newline
        have hfixed : (10 : UInt8) ∉ cstr "Thread " ∧ (10 : UInt8) ∉ cstr ":" := by decide
        simp [hnumeral, hfixed]
      · cases hline
  rw [listingLines, printLines, linesOf_flatMap (List.forall_mem_append.mpr ⟨hnewline, h⟩)]
  unfold threadLines
  split
  · exact hnone
  · split
    · exact if_pos (hthread _)
    · exact hnone

theorem not_isThreadLine_ctLine (indent : Nat) (d : CtData) : ¬ IsThreadLine (ctLine indent d) := by
  rintro ⟨-, hlast⟩
  have hends : cstr " tsc]" ≠ [] ∧ cstr ")" ≠ [] ∧ (cstr " tsc]").getLast? ≠ some 58 ∧ (cstr ")").getLast? ≠ some 58 := by
    decide
  unfold ctLine at hlast
  split at hlast
  · rw [← List.append_assoc, ← List.append_assoc, ← List.append_assoc,
      List.getLast?_append_of_ne_nil _ hends.1] at hlast
    exact hends.2.2.1 hlast
  · rw [← List.append_assoc, List.getLast?_append_of_ne_nil _ hends.2.1] at hlast
    exact hends.2.2.2 hlast

theorem not_isThreadLine_of_head {line : CString} (h : line.head? ≠ some 84) : ¬ IsThreadLine line := by
  rintro ⟨hpre, -⟩
  obtain ⟨rest, rfl⟩ := hpre
  exact h rfl

end ObservableBSD.Decode
