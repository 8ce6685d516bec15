import ObservableBSD.Decode.Lemmas.Gaps
import ObservableBSD.Decode.Lemmas.Listing

/-!
# Results about the listings
-/

namespace ObservableBSD.Decode

open Base

theorem symTableLookup_mem {entries : List SymEntry} {ip : UInt64} {s : SymEntry}
    (h : symTableLookup entries ip = some s) : s ∈ entries := by
  unfold symTableLookup at h
  split at h
  · cases h
  · dsimp only at h
    split at h
    · cases h
    · split at h
      · cases h
      · rename_i e he
        have hmem := List.mem_of_getElem? he
        split at h
        · split at h
          · cases h
          · cases h; exact hmem
        · split at h
          · cases h
          · cases h; exact hmem

/-- The names in a stream are those of the symbol table. -/
theorem mem_symbols_of_stream {env : DecodeEnv} {calls : List PtCall} {x : DecodedInsn} (hx : x ∈ env.stream calls)
    {s : SymEntry} (hs : x.sym = some s) : s ∈ env.symbols := by
  obtain ⟨r, -, rfl⟩ := List.mem_map.mp hx
  exact symTableLookup_mem hs

/-- What the loop has fed its accumulator. -/
def DecodeEnv.decodedBy (env : DecodeEnv) (trace : List PtSegment) : List DecodedInsn :=
  env.stream (decodePtInsnLoop env trace).1.calls

theorem decodePtInsnLoop_accumulates (env : DecodeEnv) (trace : List PtSegment) :
    Accumulates env (env.decodedBy trace) (decodePtInsnLoop env trace).2 := by
  have hcalls := decodeTrace_calls (decodePtInsnBody env) trace {}
  have hacc := decodeTrace_acc (decodePtInsnBody env) trace {}
  rw [← hcalls] at hacc
  have hafter : (decodePtInsnLoop env trace).2 = decodeAfter env (decodePtInsnLoop env trace).1.calls := hacc
  rw [hafter]
  exact decodeAfter_accumulates env _

/-! ## The call tree and the callers -/

/-- The listing shows the tree, with the children of each node in the order of their counts. -/
def ListsTree (root : CtNode) (s : CString) : Prop :=
  ∃ t, RoseTree.Reordered root t ∧ RoseTree.Ordered (fun a b => b.count ≤ a.count) t ∧
    readCalltree (listingLines s) = some (RoseTree.mapList ctShown t.children)

/-- The listing shows the functions that pass the filter, in the order of their calls. -/
def ListsCallers (view : List FuncSummary) (opts : Option PtDecodeOpts) (s : CString) : Prop :=
  ∃ funcs : List FuncSummary, funcs.Perm (view.filter fun f => filterMatches opts (some f.name.text)) ∧
    funcs.Pairwise (fun f g => g.totalCalls ≤ f.totalCalls) ∧ readCallers (listingLines s) = some (funcs.map funcShown)

theorem ctCmpCount_sorts : RoseTree.Sorts ctCmpCount where
  trans a b c hab hbc := by
    simp only [ctCmpCount, decide_eq_true_eq] at hab hbc ⊢
    exact Nat.le_trans hbc hab
  total a b := by
    simp only [ctCmpCount, Bool.or_eq_true, decide_eq_true_eq]
    exact Nat.le_total b.count a.count

theorem calltreePrint_listsTree {ct : Calltree} (h : LegibleTree ct.root) (opts : Option PtDecodeOpts) :
    ListsTree ct.root (printLines (threadLines opts ++ calltreePrint ct)) := by
  have hsorted : LegibleTree (ctSort ct.root) := h.sortBy
  have hlines := listingLines_printLines opts _ (notMem_ctPrintNode hsorted.children 0) (by
    intro line hline
    have hmem := List.mem_of_mem_head? hline
    rw [ctPrintNode_eq] at hmem
    obtain ⟨entry, -, rfl⟩ := List.mem_map.mp hmem
    exact not_isThreadLine_ctLine _ _)
  refine ⟨ctSort ct.root, RoseTree.reordered_sortBy _ _, ?_, ?_⟩
  · have hordered := RoseTree.ordered_sortBy ctCmpCount_sorts ct.root
    simp only [ctCmpCount, decide_eq_true_eq] at hordered
    exact hordered
  · rw [calltreePrint, hlines]
    exact readCalltree_printNode hsorted.children

/-- A list sorted by descending numbers, then filtered. -/
theorem sorted_filter {α : Type} (count : α → Nat) (p : α → Bool) (l : List α) :
    ((l.mergeSort fun a b => count b ≤ count a).filter p).Perm (l.filter p) ∧
      ((l.mergeSort fun a b => count b ≤ count a).filter p).Pairwise fun a b => count b ≤ count a := by
  refine ⟨(List.mergeSort_perm l _).filter p, .filter p ?_⟩
  have htrans : ∀ a b c : α, decide (count b ≤ count a) = true → decide (count c ≤ count b) = true →
      decide (count c ≤ count a) = true := by
    intro a b c hab hbc
    exact decide_eq_true (Nat.le_trans (of_decide_eq_true hbc) (of_decide_eq_true hab))
  have htotal : ∀ a b : α, (decide (count b ≤ count a) || decide (count a ≤ count b)) = true := by
    intro a b
    rw [Bool.or_eq_true, decide_eq_true_eq, decide_eq_true_eq]
    exact Nat.le_total (count b) (count a)
  simpa only [decide_eq_true_eq] using List.pairwise_mergeSort htrans htotal l

theorem callersPrint_listsCallers {ct : Calltree} (h : LegibleTree ct.root) (opts : Option PtDecodeOpts) :
    ListsCallers (callersView ct) opts (printLines (threadLines opts ++ callersPrint ct opts)) := by
  have hview : ∀ f ∈ callersView ct, LegibleFunc f :=
    ctCollectEdges_legible (fun p hp => by cases hp) h fun f hf => absurd hf List.not_mem_nil
  obtain ⟨hperm, hsorted⟩ := sorted_filter FuncSummary.totalCalls (fun f => filterMatches opts (some f.name.text))
    (callersView ct)
  have hlisted : ∀ f ∈ callersListed (callersView ct) opts, LegibleFunc f := fun f hf =>
    hview f (List.mem_of_mem_filter (hperm.mem_iff.mp hf))
  have hlines := listingLines_printLines opts ((callersListed (callersView ct) opts).flatMap funcLines)
    (fun line hline => by
      obtain ⟨f, hf, hmem⟩ := List.mem_flatMap.mp hline
      exact notMem_funcLines (hlisted f hf) line hmem)
    (fun line hline => by
      cases hfuncs : callersListed (callersView ct) opts with
      | nil => rw [hfuncs] at hline; cases hline
      | cons f funcs =>
          rw [hfuncs] at hline
          obtain rfl := Option.some.inj hline
          exact not_isThreadLine_of_head (by rintro ⟨⟩))
  refine ⟨_, hperm, hsorted, ?_⟩
  rw [callersPrint, hlines]
  exact readCallers_funcLines hlisted

/-- Where binaries and names can be told apart in a line, the call tree and the callers of a trace are read back from
what is printed. -/
theorem callListings_readBack (env : DecodeEnv) (trace : List PtSegment)
    (h : ∀ s ∈ env.symbols, Legible s.name s.binary) :
    (env.fmt = .tree → ListsTree (calltreeRun (env.decodedBy trace)).root
      (decodeReport env (decodePtInsnLoop env trace).2)) ∧
    (env.fmt = .callers → ListsCallers (callersView (calltreeRun (env.decodedBy trace))) env.opts
      (decodeReport env (decodePtInsnLoop env trace).2)) := by
  have hlegible : LegibleTree (calltreeRun (env.decodedBy trace)).root :=
    calltreeRun_legible fun x hx s hs => h s (mem_symbols_of_stream hx hs)
  have haccumulates := decodePtInsnLoop_accumulates env trace
  unfold Accumulates at haccumulates
  constructor
  · intro hfmt
    rw [hfmt] at haccumulates
    rw [decodeReport, hfmt, ← haccumulates]
    exact calltreePrint_listsTree (haccumulates ▸ hlegible) env.opts
  · intro hfmt
    rw [hfmt] at haccumulates
    rw [decodeReport, hfmt, ← haccumulates]
    exact callersPrint_listsCallers (haccumulates ▸ hlegible) env.opts

private def workSymbols : List SymEntry := [⟨0x1000, 16, 0, ⟨1, cstr "work"⟩, ⟨2, cstr "a.out"⟩⟩]

/-- `work` is called by code without a symbol, and returns. -/
private def workTrace : List PtSegment :=
  [{ items := [.insn ⟨0x10, .call⟩ {}, .insn ⟨0x1000, .other⟩ {}, .insn ⟨0x1004, .ret⟩ {}] }]

private def workEnv (fmt : BsdtraceFmt) : DecodeEnv where
  fmt
  opts := some { tid := 3 }
  sections := []
  symbols := workSymbols
  ranges := []
  dwarf _ _ _ := none

theorem callListings_readBack_work :
    ListsTree (calltreeRun ((workEnv .tree).decodedBy workTrace)).root
        (decodeReport (workEnv .tree) (decodePtInsnLoop (workEnv .tree) workTrace).2) ∧
      ListsCallers (callersView (calltreeRun ((workEnv .callers).decodedBy workTrace))) (some { tid := 3 })
        (decodeReport (workEnv .callers) (decodePtInsnLoop (workEnv .callers) workTrace).2) := by
  have hlegible : ∀ fmt, ∀ s ∈ (workEnv fmt).symbols, Legible s.name s.binary := by
    intro fmt s hs
    obtain rfl := List.mem_singleton.mp hs
    exact ⟨by decide, by decide, by decide, by decide⟩
  exact ⟨(callListings_readBack (workEnv .tree) workTrace (hlegible .tree)).1 rfl,
    (callListings_readBack (workEnv .callers) workTrace (hlegible .callers)).2 rfl⟩

/-! ## The profile -/

/-- The table shows the entries with activity that pass the filter, in the order of their calls. -/
def ListsProfile (entries : List ProfileEntry) (opts : Option PtDecodeOpts) (s : CString) : Prop :=
  ∃ listed : List ProfileEntry, listed.Perm (entries.filter fun e =>
      ¬ (e.calls = 0 ∧ e.returns = 0 ∧ e.branches = 0) ∧ filterMatches opts (some e.name.text)) ∧
    listed.Pairwise (fun d e => e.calls ≤ d.calls) ∧ readProfile (listingLines s) = some (listed.map profileShown)

/-- Where binaries and names have no blanks, the profile of a trace is read back from what is printed. -/
theorem profileListing_readBack (env : DecodeEnv) (trace : List PtSegment)
    (hnames : ∀ s ∈ env.symbols, Column s.name.text ∧ Column s.binary.text)
    (hfiles : ∀ path slide addr file line, env.dwarf path slide addr = some (file, line) → 10 ∉ file)
    (hfmt : env.fmt = .profile) :
    ListsProfile (profileRun env.dwarf (some env.sections) (env.decodedBy trace)).entries env.opts
      (decodeReport env (decodePtInsnLoop env trace).2) := by
  have haccumulates := decodePtInsnLoop_accumulates env trace
  unfold Accumulates at haccumulates
  rw [hfmt] at haccumulates
  have hrun : LegibleRun env.dwarf (env.decodedBy trace) :=
    ⟨fun x hx s hs => hnames s (mem_symbols_of_stream hx hs), hfiles⟩
  have hlegible := profileRun_legible hrun (some env.sections)
  rw [decodeReport, hfmt, ← haccumulates]
  rw [← haccumulates] at hlegible
  have hhead : ∀ haveTsc, (profileColumns haveTsc (cstr "CALLS") (cstr "RETURNS") (cstr "BRANCHES") (cstr "TIME(tsc)")
      (cstr "BINARY") (cstr "FUNCTION")).head? ≠ some 84 := by decide
  have hlines := listingLines_printLines env.opts _ (notMem_profilePrint hlegible env.opts) (by
    intro line hline
    obtain rfl := Option.some.inj hline
    exact not_isThreadLine_of_head (hhead _))
  obtain ⟨hperm, hsorted⟩ := sorted_filter ProfileEntry.calls (fun e =>
    ¬ (e.calls = 0 ∧ e.returns = 0 ∧ e.branches = 0) ∧ filterMatches env.opts (some e.name.text))
    (decodePtInsnLoop env trace).2.prof.entries
  refine ⟨_, hperm, hsorted, ?_⟩
  rw [hlines]
  exact readProfile_profilePrint hlegible env.opts

theorem profileListing_readBack_work :
    ListsProfile (profileRun (fun _ _ _ => none) (some []) ((workEnv .profile).decodedBy workTrace)).entries
      (some { tid := 3 }) (decodeReport (workEnv .profile) (decodePtInsnLoop (workEnv .profile) workTrace).2) := by
  refine profileListing_readBack (workEnv .profile) workTrace (fun s hs => ?_) (fun _ _ _ _ _ h => by cases h) rfl
  obtain rfl := List.mem_singleton.mp hs
  exact ⟨⟨by decide, by decide, by decide⟩, by decide, by decide, by decide⟩

end ObservableBSD.Decode
