import ObservableBSD.Decode.Lemmas.Collapsed
import ObservableBSD.Decode.Lemmas.Speedscope

/-!
# Results about the stack outputs
-/

namespace ObservableBSD.Decode

open Base

/-! ## The buffer of a stack string -/

theorem buildsInBuffer_iff (col : Collapsed) (hdepth : col.depth ≠ 0)
    (hnul : ∀ n ∈ col.names, (0 : UInt8) ∉ n.text) (init : Memory) :
    BuildsInBuffer init col.stack ↔
      (joinNames col.stack).length ≤ stackBufSize - 1 ∨
        ∃ k, (joinNames (col.stack.take k)).length = stackBufSize - 1 := by
  have hnul' : ∀ n ∈ col.stack, (0 : UInt8) ∉ n := by
    intro n hn
    obtain ⟨s, hs, rfl⟩ := List.mem_map.1 hn
    exact hnul s (List.mem_reverse.1 hs)
  have hstop := stopLength_le_iff true col.stack 0 (by decide)
  simp only [joinRest_true, Nat.zero_add] at hstop
  rw [buildsInBuffer_iff_stopLength (Collapsed.stack_ne_nil hdepth) hnul' init, hstop]

private def stackOf (names : List StrPtr) : Collapsed := { names := names.reverse }

theorem mainStack_inBuffer :
    BuildsInBuffer (fun _ => 0) (stackOf [⟨1, cstr "main"⟩, ⟨2, cstr "foo"⟩, ⟨3, cstr "bar"⟩]).stack :=
  (buildsInBuffer_iff _ (by decide) (by decide) _).2 (.inl (by decide))

private def longName : CString := List.replicate stackBufSize 97

private theorem nul_notMem_longName : (0 : UInt8) ∉ longName := by
  simp [longName]

/-- One function with a name of 8192 bytes: the last NUL goes to `buf[8192]`. -/
theorem longName_outside : ¬ ∀ (col : Collapsed) (init : Memory), col.depth ≠ 0 → col.depth ≤ maxStackDepth →
    (∀ n ∈ col.names, (0 : UInt8) ∉ n.text) → BuildsInBuffer init col.stack := by
  intro h
  have hin : BuildsInBuffer (fun _ => 0) [longName] :=
    h (stackOf [⟨1, longName⟩]) _ (by decide) (by decide) (by simpa [stackOf] using nul_notMem_longName)
  have hstop := (buildsInBuffer_iff_stopLength (List.cons_ne_nil longName [])
    (by simpa using nul_notMem_longName) _).1 hin
  have hlength : stopLength true [longName] 0 = stackBufSize := by
    rw [stopLength_singleton, longName, List.length_replicate]
  rw [hlength] at hstop
  exact absurd hstop (by decide)

/-! ## The counts of the collapsed stacks -/

/-- The call path of a completed activation as the output writes it. -/
def Completion.stack (d : Completion) : CString := joinNames (d.path.reverse.map StrPtr.text)

theorem Completion.text_eq {d : Completion} (h : d.stack.length ≤ stackBufSize - 1) : d.text = d.stack :=
  List.take_of_length_le h

/-- The count of each stack string is the number of completed activations with that call path. -/
theorem stackCount_collapsedRun {cut : Bool} {w : List DecodedInsn} {f : List Activation} (h : Runs cut w f)
    (hdepth : Activation.depthList f ≤ maxStackDepth)
    (hroom : ((completionsList [] f).map Completion.stack).toFinset.card ≤ maxCollapsedStacks)
    (hfits : ∀ d ∈ completionsList [] f, d.stack.length ≤ stackBufSize - 1) (s : CString) :
    stackCount (collapsedRun w).entries s = ((completionsList [] f).map Completion.stack).count s := by
  have htexts : (completionsList [] f).map Completion.text = (completionsList [] f).map Completion.stack :=
    List.map_congr_left fun d hd => Completion.text_eq (hfits d hd)
  rw [collapsedRun_entries h hdepth, htexts]
  exact (tallies_foldl hroom).count s

/-- The leaves are all of the activations with a path if none of the others has it. -/
theorem count_leaves_eq_iff (ds : List Completion) (s : CString) :
    (ds.map Completion.stack).count s = ((ds.filter Completion.leaf).map Completion.stack).count s ↔
      ∀ d ∈ ds, d.stack = s → d.leaf = true := by
  induction ds with
  | nil => simp
  | cons d ds ih =>
      have hle : ((ds.filter Completion.leaf).map Completion.stack).count s ≤ (ds.map Completion.stack).count s :=
        (List.filter_sublist.map Completion.stack).count_le s
      rw [List.forall_mem_cons, ← ih, List.map_cons, List.count_cons]
      by_cases hleaf : d.leaf = true
      · rw [List.filter_cons_of_pos hleaf, List.map_cons, List.count_cons]
        simp [hleaf]
      · rw [List.filter_cons_of_neg hleaf]
        by_cases hs : d.stack = s
        · simp only [hs, beq_self_eq_true, if_true, hleaf, true_imp_iff, Bool.false_eq_true, false_and, iff_false]
          omega
        · simp [hs]

theorem countsLeaves_iff (cut : Bool) (w : List DecodedInsn) (f : List Activation) (h : Runs cut w f)
    (hdepth : Activation.depthList f ≤ maxStackDepth)
    (hroom : ((completionsList [] f).map Completion.stack).toFinset.card ≤ maxCollapsedStacks)
    (hfits : ∀ d ∈ completionsList [] f, d.stack.length ≤ stackBufSize - 1) (s : CString) :
    stackCount (collapsedRun w).entries s =
        (((completionsList [] f).filter Completion.leaf).map Completion.stack).count s ↔
      ∀ d ∈ completionsList [] f, d.stack = s → d.leaf = true := by
  rw [stackCount_collapsedRun h hdepth hroom hfits]
  exact count_leaves_eq_iff _ s

private def codeSym (n : Nat) (addr : UInt64) (name : String) : SymEntry :=
  ⟨addr, 16, 0, ⟨n, cstr name⟩, ⟨0, cstr "a.out"⟩⟩

private def mainSym : SymEntry := codeSym 1 0x1000 "main"

private def workSym : SymEntry := codeSym 2 0x2000 "foo"

private def leafSym : SymEntry := codeSym 3 0x3000 "bar"

private def enterInsn (s : SymEntry) (tsc : UInt64) : DecodedInsn := ⟨some s, s.addr, .other, tsc⟩

private def callInsn (s : SymEntry) (tsc : UInt64) : DecodedInsn := ⟨some s, s.addr + 4, .call, tsc⟩

private def retInsn (s : SymEntry) (tsc : UInt64) : DecodedInsn := ⟨some s, s.addr + 8, .ret, tsc⟩

private def activation (s : SymEntry) (entry exit : UInt64) : ActData where
  fn := s
  entry := enterInsn s entry
  exit := some (retInsn s exit)
  enters := ⟨rfl, rfl⟩
  returns := by rintro r ⟨⟩; rfl

/-- `main` is called and returns. -/
private def singleTrace : List DecodedInsn := [⟨none, 0x10, .call, 1⟩, enterInsn mainSym 2, retInsn mainSym 3]

private def singleCalls : List Activation := [.node (activation mainSym 2 3) []]

private theorem single_runs : Runs false singleTrace singleCalls :=
  .call (u := [_]) rfl (.other rfl .nil) rfl rfl .nil

theorem single_countsLeaves : stackCount (collapsedRun singleTrace).entries (cstr "main") =
    (((completionsList [] singleCalls).filter Completion.leaf).map Completion.stack).count (cstr "main") :=
  (countsLeaves_iff false singleTrace singleCalls single_runs (by decide)
    (Nat.le_trans (List.toFinset_card_le _) (by decide)) (by decide) (cstr "main")).2 (by decide)

/-- `main` calls `foo`, which calls `bar`. -/
private def chainTrace : List DecodedInsn :=
  [⟨none, 0x10, .call, 1⟩, enterInsn mainSym 2, callInsn mainSym 3, enterInsn workSym 4, callInsn workSym 5,
    enterInsn leafSym 6, retInsn leafSym 7, retInsn workSym 8, retInsn mainSym 9]

private def chainCalls : List Activation :=
  [.node (activation mainSym 2 9) [.node (activation workSym 4 8) [.node (activation leafSym 6 7) []]]]

private theorem chain_runs : Runs false chainTrace chainCalls :=
  .call (u := [_, _, _, _, _, _, _]) rfl
    (.other rfl (.call (u := [_, _, _, _]) rfl
      (.other rfl (.call (u := [_]) rfl (.other rfl .nil) rfl rfl .nil)) rfl rfl .nil)) rfl rfl .nil

/-- The chain gets samples at `main` and at `main;foo` too. -/
theorem chain_counts_prefixes : ¬ ∀ (cut : Bool) (w : List DecodedInsn) (f : List Activation), Runs cut w f →
    Activation.depthList f ≤ maxStackDepth →
    ((completionsList [] f).map Completion.stack).toFinset.card < maxCollapsedStacks →
    (∀ d ∈ completionsList [] f, d.stack.length ≤ stackBufSize - 1) → ∀ s,
    stackCount (collapsedRun w).entries s =
      (((completionsList [] f).filter Completion.leaf).map Completion.stack).count s := by
  intro h
  have hroom : ((completionsList [] chainCalls).map Completion.stack).toFinset.card < maxCollapsedStacks :=
    Nat.lt_of_le_of_lt (List.toFinset_card_le _) (by decide)
  have hfits : ∀ d ∈ completionsList [] chainCalls, d.stack.length ≤ stackBufSize - 1 := by decide
  have hcount := h false chainTrace chainCalls chain_runs (by decide) hroom hfits (cstr "main;foo")
  rw [stackCount_collapsedRun chain_runs (by decide) (Nat.le_of_lt hroom) hfits] at hcount
  exact absurd hcount (by decide)

/-! ## The speedscope document -/

theorem speedscopeAgrees_iff (entries : List CollapsedEntry) (opts : Option PtDecodeOpts) :
    SpeedscopeAgrees entries opts ↔
      ∀ e ∈ entries, collapsedStackMatches e.stack opts = true ∧ StackShown e.stack := by
  rw [speedscopeAgrees_iff_perm, exists_names_iff]
  constructor
  · rintro ⟨hutf8, hperm⟩ e he
    have hmatch := matches_of_length (by simpa using hperm.length_eq)
    have hlen := length_shownStack_of_perm (hperm.trans ((collapsedLines_perm hmatch).map _)) e he
    refine ⟨hmatch e he, ((shownStack_length_le e.stack).2 hlen).imp_right fun hnames name hname => ?_⟩
    obtain ⟨hne, hwhole⟩ := hnames name hname
    obtain ⟨cs, hcs⟩ := hutf8 e he name (mem_strtok.2 ⟨hname, hne⟩)
    have hfits := (escapedPart_eq_iff hne).1 hwhole
    exact ⟨hne, by rwa [Nat.zero_add] at hfits, cs, (hcs.trans hwhole).symm⟩
  · intro h
    constructor
    · intro e he tok htok
      obtain ⟨hname, hne⟩ := mem_strtok.1 htok
      rcases (h e he).2 with hnil | hshown
      · rw [hnil] at htok
        cases htok
      · obtain ⟨cs, rfl⟩ := (hshown tok hname).utf8
        exact ⟨cs, (hshown _ hname).shownName_eq.symm⟩
    · have hstacks : (entries.map fun e => (shownStack e.stack, e.count)) = entries.map fun e => (e.stack, e.count) :=
        List.map_congr_left fun e he => by rw [shownStack_eq (h e he).2]
      rw [hstacks]
      exact ((collapsedLines_perm fun e he => (h e he).1).map _).symm

/-- The filter leaves out the only stack, and speedscope is shown it. -/
theorem filteredOut_not_speedscopeAgrees :
    ¬ SpeedscopeAgrees [{ stack := cstr "main", count := 1 }] (some { filterFuncs := [cstr "work"] }) := by
  rw [speedscopeAgrees_iff_perm]
  rintro ⟨-, hperm⟩
  have hmatch := matches_of_length (by simpa using hperm.length_eq) _ (List.mem_singleton_self _)
  exact absurd hmatch (by decide)
end ObservableBSD.Decode
