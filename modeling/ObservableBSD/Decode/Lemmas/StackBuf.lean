import ObservableBSD.Decode.Collapsed

/-!
# What `collapsed_build_stack` writes

The loop stops at the first prefix of the joined names that has at least 8191 bytes. The buffer then holds
the first 8191 bytes of the join, and `off` is the length of that prefix.
-/

namespace ObservableBSD.Decode

open Base

/-! ## The join -/

def sepBytes (first : Bool) : CString := if first then [] else [59]

/-- What the names add to the join; the first of them has no separator in front of it. -/
def joinRest (first : Bool) : List CString → CString
  | [] => []
  | n :: ns => sepBytes first ++ n ++ joinRest false ns

/-- The names of a stack joined with `;`. -/
def joinNames (names : List CString) : CString := [59].intercalate names

theorem joinRest_true (names : List CString) : joinRest true names = joinNames names := by
  have hrest : ∀ (n : CString) ns, n ++ joinRest false ns = joinNames (n :: ns) := by
    intro n ns
    induction ns generalizing n with
    | nil => simp [joinNames, joinRest]
    | cons m ns ih =>
        rw [joinRest, sepBytes, List.append_assoc, ih m]
        simp [joinNames, List.intercalate_cons_cons]
  cases names with
  | nil => simp [joinNames, joinRest]
  | cons n ns =>
      rw [← hrest n ns]
      rfl

/-- The last `off`: the length of the join where the loop stops. -/
def stopLength (first : Bool) : List CString → Nat → Nat
  | [], off => off
  | n :: ns, off =>
      let off := off + (sepBytes first).length + n.length
      if stackBufSize - 1 ≤ off then off else stopLength false ns off

theorem stopLength_singleton (n : CString) : stopLength true [n] 0 = n.length := by
  simp [stopLength, sepBytes]

theorem le_stopLength (first : Bool) (names : List CString) (off : Nat) : off ≤ stopLength first names off := by
  induction names generalizing first off with
  | nil => exact Nat.le_refl off
  | cons n ns ih =>
      rw [stopLength]
      split
      · omega
      · have := ih false (off + (sepBytes first).length + n.length)
        omega

theorem stopLength_le_iff (first : Bool) (names : List CString) (off : Nat) (hoff : off < stackBufSize - 1) :
    stopLength first names off ≤ stackBufSize - 1 ↔
      off + (joinRest first names).length ≤ stackBufSize - 1 ∨
        ∃ k, off + (joinRest first (names.take k)).length = stackBufSize - 1 := by
  induction names generalizing first off with
  | nil =>
      simp only [stopLength, joinRest, List.take_nil, List.length_nil, exists_const]
      omega
  | cons n ns ih =>
      have hlen : ∀ l, off + (joinRest first (n :: l)).length =
          off + (sepBytes first).length + n.length + (joinRest false l).length := by
        intro l
        simp [joinRest, Nat.add_assoc]
      -- the empty prefix is too short to fill the buffer
      have hfront : (∃ k, off + (joinRest first ((n :: ns).take k)).length = stackBufSize - 1) ↔
          ∃ k, off + (sepBytes first).length + n.length + (joinRest false (ns.take k)).length =
            stackBufSize - 1 := by
        constructor
        · rintro ⟨k, hk⟩
          cases k with
          | zero => simp [joinRest] at hk; omega
          | succ k => exact ⟨k, by rw [← hk, List.take_succ_cons, hlen]⟩
        · rintro ⟨k, hk⟩
          exact ⟨k + 1, by rw [List.take_succ_cons, hlen, hk]⟩
      rw [hlen, hfront, stopLength]
      split
      · constructor
        · intro hle
          exact .inr ⟨0, by simp [joinRest]; omega⟩
        · rintro (hle | ⟨k, hk⟩) <;> omega
      · exact ih false _ (by omega)

/-! ## The loop -/

theorem snprintfString_of_le {off size : Nat} {s : CString} (hs : s.length ≤ intMax) (hsize : size ≠ 0) :
    snprintfString off size s = some (putString off (s.take (size - 1) ++ [0]), s.length) := by
  rw [snprintfString, if_neg (by omega), if_neg hsize]

/-- The writes of one round of the loop: the separator, what fits of the name, and the NUL of `snprintf`. -/
def roundWrites (first : Bool) (off : Nat) (n : CString) : List ByteWrite :=
  let start := off + (sepBytes first).length
  putString off (sepBytes first) ++ putString start (n.take (stackBufSize - start - 1) ++ [0])

theorem length_sepBytes_le (first : Bool) : (sepBytes first).length ≤ 1 := by
  cases first <;> simp [sepBytes]

theorem buildStackLoop_cons (first : Bool) (n : CString) (ns : List CString) {off : Nat}
    (hoff : off < stackBufSize - 1) :
    buildStackLoop first (n :: ns) off =
      let last := off + (sepBytes first).length + n.length
      if intMax < last then none
      else if stackBufSize - 1 ≤ last then some (roundWrites first off n, last)
      else (buildStackLoop false ns last).map fun (ws, last) => (roundWrites first off n ++ ws, last) := by
  have hsep : (!first && decide (off < stackBufSize - 1)) = !first := by simp [hoff]
  have hstart : (if !first then off + 1 else off) = off + (sepBytes first).length := by cases first <;> rfl
  have hws : (if !first then [({ index := off, byte := 59 } : ByteWrite)] else []) =
      putString off (sepBytes first) := by cases first <;> rfl
  rw [buildStackLoop]
  simp only [hsep, hstart, hws]
  by_cases hn : intMax < n.length
  · have hsum : intMax < off + (sepBytes first).length + n.length := by omega
    simp only [snprintfString, if_pos hn, if_pos hsum]
  · have hsize : stackBufSize - (off + (sepBytes first).length) ≠ 0 := by
      have := length_sepBytes_le first
      omega
    rw [snprintfString_of_le (by omega) hsize]
    simp only
    split
    · rfl
    · split
      · rfl
      · cases buildStackLoop false ns (off + (sepBytes first).length + n.length) <;> rfl

theorem index_of_mem_roundWrites {first : Bool} {off : Nat} {n : CString} (hoff : off < stackBufSize - 1)
    {w : ByteWrite} (hw : w ∈ roundWrites first off n) : off ≤ w.index ∧ w.index < stackBufSize := by
  have hsep := length_sepBytes_le first
  rcases List.mem_append.1 hw with hw | hw
  · have := index_of_mem_putString hw
    omega
  · have := index_of_mem_putString hw
    simp only [List.length_append, List.length_take, List.length_cons, List.length_nil] at this
    omega

theorem holdsAt_roundWrites {mem : Memory} {pre : CString} (h : HoldsAt mem 0 pre) (first : Bool)
    (n : CString) :
    HoldsAt (writeAll mem (roundWrites first pre.length n)) 0
      ((pre ++ sepBytes first) ++ n.take (stackBufSize - (pre ++ sepBytes first).length - 1) ++ [0]) := by
  have hsep := h.putString (sepBytes first)
  have hname := hsep.putString (n.take (stackBufSize - (pre ++ sepBytes first).length - 1) ++ [0])
  rw [← writeAll_append, Nat.zero_add, Nat.zero_add, ← List.append_assoc] at hname
  rw [roundWrites, ← List.length_append]
  exact hname

/-- A name that reaches the end of the buffer is cut there. -/
theorem take_join_of_full {first : Bool} {pre n : CString} {ns : List CString}
    (hpre : (pre ++ sepBytes first).length ≤ stackBufSize - 1)
    (hfull : stackBufSize - 1 ≤ (pre ++ sepBytes first).length + n.length) :
    (pre ++ joinRest first (n :: ns)).take (stackBufSize - 1) =
      (pre ++ sepBytes first) ++ n.take (stackBufSize - (pre ++ sepBytes first).length - 1) := by
  have hsplit : pre ++ joinRest first (n :: ns) = (pre ++ sepBytes first) ++ (n ++ joinRest false ns) := by
    simp [joinRest]
  have hroom : stackBufSize - 1 - (pre ++ sepBytes first).length =
      stackBufSize - (pre ++ sepBytes first).length - 1 := by omega
  rw [hsplit, List.take_append, List.take_of_length_le hpre, hroom, List.take_append_of_le_length (by omega)]

/-- What the loop does from a buffer that holds `pre`: it stays behind `pre` and inside the buffer, which then
holds what fits of the join. -/
structure FillsBuffer (first : Bool) (names : List CString) (pre : CString) (ws : List ByteWrite) : Prop where
  bounds : ∀ w ∈ ws, pre.length ≤ w.index ∧ w.index < stackBufSize
  holds : ∀ mem, HoldsAt mem 0 pre → (names = [] → HoldsAt mem 0 (pre ++ [0])) →
    HoldsAt (writeAll mem ws) 0 ((pre ++ joinRest first names).take (stackBufSize - 1) ++ [0])

theorem buildStackLoop_of_le (first : Bool) (names : List CString) (pre : CString)
    (hpre : pre.length < stackBufSize - 1) (hstop : stopLength first names pre.length ≤ intMax) :
    ∃ ws, buildStackLoop first names pre.length = some (ws, stopLength first names pre.length) ∧
      FillsBuffer first names pre ws := by
  induction names generalizing first pre with
  | nil =>
      refine ⟨[], rfl, nofun, fun mem _ hnul => ?_⟩
      rw [joinRest, List.append_nil, List.take_of_length_le (Nat.le_of_lt hpre)]
      exact hnul rfl
  | cons n ns ih =>
      have hsep := length_sepBytes_le first
      have hlen : (pre ++ sepBytes first).length = pre.length + (sepBytes first).length := List.length_append
      have hround := fun mem (hmem : HoldsAt mem 0 pre) => holdsAt_roundWrites hmem first n
      have hbounds : ∀ w ∈ roundWrites first pre.length n, pre.length ≤ w.index ∧ w.index < stackBufSize :=
        fun w hw => index_of_mem_roundWrites hpre hw
      by_cases hfull : stackBufSize - 1 ≤ pre.length + (sepBytes first).length + n.length
      · rw [stopLength, if_pos hfull] at hstop ⊢
        refine ⟨roundWrites first pre.length n, ?_, hbounds, fun mem hmem _ => ?_⟩
        · rw [buildStackLoop_cons first n ns hpre]
          simp only [if_neg (Nat.not_lt.2 hstop), if_pos hfull]
        · rw [take_join_of_full (by omega) (by omega)]
          exact hround mem hmem
      · rw [stopLength, if_neg hfull] at hstop ⊢
        have hnext : (pre ++ sepBytes first ++ n).length = pre.length + (sepBytes first).length + n.length := by
          simp [Nat.add_assoc]
        rw [← hnext] at hstop hfull ⊢
        obtain ⟨ws, hloop, hfills⟩ := ih false _ (by omega) hstop
        have hle := le_stopLength false ns (pre ++ sepBytes first ++ n).length
        refine ⟨roundWrites first pre.length n ++ ws, ?_, ?_, ?_⟩
        · rw [buildStackLoop_cons first n ns hpre]
          simp only [← hnext, if_neg (Nat.not_lt.2 (Nat.le_trans hle hstop)), if_neg hfull, hloop, Option.map_some]
        · intro w hw
          rcases List.mem_append.1 hw with hw | hw
          · exact hbounds w hw
          · have := hfills.bounds w hw
            omega
        · intro mem hmem _
          have hjoin : pre ++ joinRest first (n :: ns) = (pre ++ sepBytes first ++ n) ++ joinRest false ns := by
            simp [joinRest]
          have hmem' := hround mem hmem
          rw [List.take_of_length_le (by omega)] at hmem'
          rw [hjoin, writeAll_append]
          exact hfills.holds _ (holdsAt_append.1 hmem').1 fun _ => hmem'

theorem buildStackLoop_of_lt {first : Bool} {names : List CString} {off : Nat} (hoff : off < stackBufSize - 1)
    (hstop : intMax < stopLength first names off) : buildStackLoop first names off = none := by
  induction names generalizing first off with
  | nil =>
      have hlimit : stackBufSize - 1 ≤ intMax := by decide
      rw [stopLength] at hstop
      omega
  | cons n ns ih =>
      rw [buildStackLoop_cons first n ns hoff]
      by_cases hfull : stackBufSize - 1 ≤ off + (sepBytes first).length + n.length
      · rw [stopLength, if_pos hfull] at hstop
        simp only [if_pos hstop]
      · rw [stopLength, if_neg hfull] at hstop
        simp only [if_neg hfull, ih (Nat.lt_of_not_le hfull) hstop, Option.map_none, ite_self]

/-! ## The whole function -/

theorem nul_notMem_joinRest (first : Bool) {names : List CString} (h : ∀ n ∈ names, (0 : UInt8) ∉ n) :
    (0 : UInt8) ∉ joinRest first names := by
  induction names generalizing first with
  | nil => exact List.not_mem_nil
  | cons n ns ih =>
      have hsep : (0 : UInt8) ∉ sepBytes first := by cases first <;> decide
      have hn := h n List.mem_cons_self
      have hns := ih false fun m hm => h m (List.mem_cons_of_mem n hm)
      simp [joinRest, hsep, hn, hns]

theorem min_stopLength (first : Bool) (names : List CString) {off : Nat} (hoff : off < stackBufSize - 1) :
    min (stopLength first names off) (stackBufSize - 1) =
      min (off + (joinRest first names).length) (stackBufSize - 1) := by
  induction names generalizing first off with
  | nil => rfl
  | cons n ns ih =>
      have hlen : off + (joinRest first (n :: ns)).length =
          off + (sepBytes first).length + n.length + (joinRest false ns).length := by
        simp [joinRest, Nat.add_assoc]
      rw [hlen, stopLength]
      split
      · omega
      · exact ih false (by omega)

theorem buildStackWrites_of_le {names : List CString} (hnames : names ≠ [])
    (hnul : ∀ n ∈ names, (0 : UInt8) ∉ n) (hstop : stopLength true names 0 ≤ intMax) (init : Memory) :
    ∃ ws, buildStackWrites names = some (ws ++ [{ index := stopLength true names 0, byte := 0 }]) ∧
      (∀ w ∈ ws, w.index < stackBufSize) ∧
      readString (writeAll init (ws ++ [{ index := stopLength true names 0, byte := 0 }])) 0 stackBufSize =
        some ((joinNames names).take (stackBufSize - 1)) := by
  have hpos : 0 < stackBufSize - 1 := by decide
  obtain ⟨ws, hloop, hfills⟩ := buildStackLoop_of_le true names [] hpos hstop
  rw [List.length_nil] at hloop
  have hholds := hfills.holds init trivial fun h => absurd h hnames
  rw [List.nil_append, joinRest_true] at hholds
  have hlen : ((joinNames names).take (stackBufSize - 1)).length ≤ stopLength true names 0 := by
    have hmin := min_stopLength true names hpos
    rw [joinRest_true] at hmin
    rw [List.length_take]
    omega
  refine ⟨ws, ?_, fun w hw => (hfills.bounds w hw).2, ?_⟩
  · rw [buildStackWrites, hloop, Option.map_some]
  · rw [writeAll_append]
    refine readString_of_holdsAt (hholds.writeNul hlen) ?_ ?_
    · have hjoin := nul_notMem_joinRest true hnul
      rw [joinRest_true] at hjoin
      exact fun hmem => hjoin (List.mem_of_mem_take hmem)
    · rw [List.length_take]
      omega

theorem buildStackWrites_of_lt {names : List CString} (hstop : intMax < stopLength true names 0) :
    buildStackWrites names = none := by
  have hpos : 0 < stackBufSize - 1 := by decide
  rw [buildStackWrites, buildStackLoop_of_lt hpos hstop, Option.map_none]

/-- Outcome of `collapsed_build_stack` on a buffer with the contents `init`: every write is inside the buffer,
and the string copied from it is a prefix of the join. -/
def BuildsInBuffer (init : Memory) (names : List CString) : Prop :=
  ∃ ws text, buildStackWrites names = some ws ∧ (∀ w ∈ ws, w.index < stackBufSize) ∧
    readString (writeAll init ws) 0 stackBufSize = some text ∧ text <+: joinNames names

theorem buildsInBuffer_iff_stopLength {names : List CString} (hnames : names ≠ [])
    (hnul : ∀ n ∈ names, (0 : UInt8) ∉ n) (init : Memory) :
    BuildsInBuffer init names ↔ stopLength true names 0 ≤ stackBufSize - 1 := by
  constructor
  · rintro ⟨ws, text, hws, hbounds, -, -⟩
    by_cases hstop : stopLength true names 0 ≤ intMax
    · obtain ⟨ws', hws', -, -⟩ := buildStackWrites_of_le hnames hnul hstop init
      cases hws.symm.trans hws'
      have hlast := hbounds { index := stopLength true names 0, byte := 0 } (by simp)
      exact Nat.le_sub_one_of_lt hlast
    · rw [buildStackWrites_of_lt (Nat.lt_of_not_le hstop)] at hws
      cases hws
  · intro hstop
    have hlimit : stackBufSize - 1 ≤ intMax := by decide
    obtain ⟨ws, hws, hbounds, hread⟩ := buildStackWrites_of_le hnames hnul (Nat.le_trans hstop hlimit) init
    refine ⟨_, _, hws, ?_, hread, List.take_prefix _ _⟩
    intro w hw
    rcases List.mem_append.1 hw with hw | hw
    · exact hbounds w hw
    · rw [List.mem_singleton.1 hw]
      exact Nat.lt_of_le_of_lt hstop (by decide)

/-! ## The text that is counted -/

/-- `names[0]`, ..., `names[depth - 1]` -/
def Collapsed.stack (col : Collapsed) : List CString := col.names.reverse.map StrPtr.text

theorem collapsedBuildLoop_fst (first : Bool) (names : List StrPtr) (buf : CString)
    (hbuf : buf.length < stackBufSize - 1) :
    (collapsedBuildLoop first names buf buf.length).1 =
      (buf ++ joinRest first (names.map StrPtr.text)).take (stackBufSize - 1) := by
  induction names generalizing first buf with
  | nil =>
      rw [collapsedBuildLoop, List.map_nil, joinRest, List.append_nil,
        List.take_of_length_le (Nat.le_of_lt hbuf)]
  | cons n ns ih =>
      have hsep := length_sepBytes_le first
      have hlen : (buf ++ sepBytes first).length = buf.length + (sepBytes first).length := List.length_append
      have hcond : (!first && decide (buf.length < stackBufSize - 1)) = !first := by simp [hbuf]
      have hbuf' : (if !first then buf ++ [59] else buf) = buf ++ sepBytes first := by
        cases first <;> simp [sepBytes]
      have hoff : (if !first then buf.length + 1 else buf.length) = (buf ++ sepBytes first).length := by
        cases first <;> simp [sepBytes]
      rw [collapsedBuildLoop, List.map_cons]
      simp only [hcond, hbuf', hoff]
      split
      · rename_i hfull
        rw [take_join_of_full (by omega) hfull]
      · rename_i hfits
        have htake : n.text.take (stackBufSize - (buf ++ sepBytes first).length - 1) = n.text :=
          List.take_of_length_le (by omega)
        have hnext : (buf ++ sepBytes first).length + n.text.length =
            (buf ++ sepBytes first ++ n.text).length := List.length_append.symm
        have hjoin : buf ++ joinRest first (n.text :: ns.map StrPtr.text) =
            (buf ++ sepBytes first ++ n.text) ++ joinRest false (ns.map StrPtr.text) := by simp [joinRest]
        rw [htake, hnext, hjoin]
        exact ih false _ (by omega)

theorem collapsedBuildStack_eq {col : Collapsed} (h : col.depth ≠ 0) :
    collapsedBuildStack col = some ((joinNames col.stack).take (stackBufSize - 1)) := by
  have hloop := collapsedBuildLoop_fst true col.names.reverse [] (by decide)
  rw [joinRest_true, List.nil_append] at hloop
  rw [collapsedBuildStack, if_neg h, Option.some_inj]
  exact hloop

theorem Collapsed.stack_ne_nil {col : Collapsed} (h : col.depth ≠ 0) : col.stack ≠ [] := by
  simpa [Collapsed.stack, Collapsed.depth] using h

/-- Unless the outcome is undefined, the buffer holds the text that is counted. -/
theorem readString_buildStackWrites {col : Collapsed} (h : col.depth ≠ 0)
    (hnul : ∀ n ∈ col.stack, (0 : UInt8) ∉ n) {ws : List ByteWrite}
    (hws : buildStackWrites col.stack = some ws) (init : Memory) :
    readString (writeAll init ws) 0 stackBufSize = collapsedBuildStack col := by
  by_cases hstop : stopLength true col.stack 0 ≤ intMax
  · obtain ⟨ws', hws', -, hread⟩ := buildStackWrites_of_le (Collapsed.stack_ne_nil h) hnul hstop init
    cases hws.symm.trans hws'
    rw [hread, collapsedBuildStack_eq h]
  · rw [buildStackWrites_of_lt (Nat.lt_of_not_le hstop)] at hws
    cases hws

end ObservableBSD.Decode
