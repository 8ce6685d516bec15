import ObservableBSD.Instruments.Lemmas.Text
import ObservableBSD.Instruments.WatchRunner

/-!
# The texts of bodies and frames

What `parseMetadata` and `parseStackFrame` read from texts of the form that the profiles and `formatted` write.
-/

namespace ObservableBSD.Instruments

open Base Export

variable {j : Joining} {s module symbol rest : Text}

/-! ## Marks -/

/-- The tables join what is equal to a mark in ASCII, if at all, by the scalar next to it. -/
theorem plain_of_canonical {c d : Char} (hd : isAscii d = true ∧ isControl d = false) (hc : canonical c = d) :
    Joining.plain c = true := by
  subst hc
  refine Bool.and_eq_true_iff.2 ⟨hd.1, ?_⟩
  cases hcontrol : isControl c with
  | false => rfl
  | true =>
      rw [Joining.canonical_of_isAscii (Joining.isAscii_of_isControl hcontrol), hcontrol] at hd
      cases hd.2

theorem canonical_eq_plus {c : Char} : canonical c = '+' ↔ c = '+' := by
  constructor
  · intro h
    unfold canonical at h
    split at h
    · cases h
    split at h
    · cases h
    split at h
    · cases h
    · exact h
  · rintro rfl
    rfl

theorem isAscii_of_mem_toDigits {b n : Nat} {c : Char} (h1 : 1 < b) (h16 : b ≤ 16) (hc : c ∈ Nat.toDigits b n) :
    isAscii c = true := by
  have hall : ∀ d < 16, isAscii d.digitChar = true := by decide
  obtain ⟨d, hd, rfl⟩ := digit_of_mem_toDigits h1 h16 hc
  exact hall d (Nat.lt_of_lt_of_le hd h16)

/-- Digits join nothing that stands in front of them. -/
theorem head?_toDigits_all {b n : Nat} (h1 : 1 < b) (h16 : b ≤ 16) (t : Text) :
    ((Nat.toDigits b n ++ t).head?.all fun d => !j.joinsFront d) = true := by
  obtain ⟨d, digits, heq⟩ := List.exists_cons_of_ne_nil (Nat.toDigits_ne_nil (b := b) (n := n))
  have hd : isAscii d = true := isAscii_of_mem_toDigits h1 h16 (heq ▸ List.mem_cons_self)
  rw [heq]
  simp [Joining.joinsFront_of_isAscii hd]

/-! ## Names and pids -/

/-- The loop stops where a number is followed by a `Character` that is none. -/
theorem leadingNumbers_append {boundary : CharacterBoundary} {isNumber : Char → Bool} {front digits t : Text} {c : Char}
    (hdigits : ∀ d ∈ digits, isNumber d = true) (hboundary : boundary (front ++ digits) (c :: t) = true)
    (hc : isNumber c = false) : leadingNumbers boundary isNumber front (digits ++ c :: t) = digits := by
  induction digits generalizing front with
  | nil =>
      rw [List.append_nil] at hboundary
      rw [List.nil_append, leadingNumbers, if_pos (by rw [hboundary, hc]; rfl)]
  | cons d digits ih =>
      obtain ⟨hd, hrest⟩ := List.forall_mem_cons.1 hdigits
      rw [List.cons_append, leadingNumbers, if_neg (by rw [hd]; simp), ih hrest]
      rwa [List.append_assoc]

theorem cutFirst?_bracket_iff (execname : Text) (pid : Nat) (suffix : Text) :
    cutFirst? j.boundary (canonical · = '[') (execname ++ '[' :: (Nat.toDigits 10 pid ++ suffix)) =
        some (execname, Nat.toDigits 10 pid ++ suffix) ↔ BracketEnds j.boundary execname := by
  have hbehind : j.boundary (execname ++ ['[']) (Nat.toDigits 10 pid ++ suffix) = true :=
    (Joining.boundary_concat_plain (by decide) _ _).trans (head?_toDigits_all (by decide) (by decide) _)
  rw [cutFirst?_eq_some_iff]
  constructor
  · rintro ⟨c, heq, -, hfront, -, hnone⟩
    obtain rfl : '[' = c := (List.cons.inj (List.append_cancel_left heq)).1
    rw [Joining.scalarsIn_of_boundary hfront] at hnone
    exact ⟨hnone, (Joining.boundary_cons _ _ _).symm.trans hfront⟩
  · rintro ⟨hnone, hfront⟩
    have hfront : j.boundary execname ('[' :: (Nat.toDigits 10 pid ++ suffix)) = true :=
      (Joining.boundary_cons _ _ _).trans hfront
    refine ⟨'[', rfl, by decide, hfront, hbehind, ?_⟩
    rwa [Joining.scalarsIn_of_boundary hfront]

/-- The name ends at the first bracket, and the pid where the digits end. -/
theorem parseMetadata_append {isNumber : Char → Bool} (hnumber : ∀ c : Char, c.toNat < 128 → isNumber c = c.isDigit)
    {execname suffix : Text} (hname : BracketEnds j.boundary execname) {pid : Int32} (hpid : 0 ≤ pid)
    (hsuffix : suffix.head? = some ']' ∨ suffix.head? = some '/') :
    parseMetadata j.boundary isNumber (execname ++ '[' :: (Nat.toDigits 10 pid.toInt.toNat ++ suffix)) =
      (execname, pid) := by
  have hdigits : ∀ c ∈ Nat.toDigits 10 pid.toInt.toNat, isNumber c = true := by
    intro c hc
    have hdigit := Nat.isDigit_of_mem_toDigits (by decide) (by decide) hc
    have hrange : c.toNat ≤ 57 := (Char.isDigit_iff_toNat.1 hdigit).2
    rw [hnumber c (by omega), hdigit]
  obtain ⟨c, rest, rfl, hc⟩ : ∃ c rest, suffix = c :: rest ∧ (c = ']' ∨ c = '/') := by
    cases suffix with
    | nil => simp at hsuffix
    | cons c rest => exact ⟨c, rest, rfl, by simpa using hsuffix⟩
  have hplain : Joining.plain c = true ∧ isNumber c = false := by
    rcases hc with rfl | rfl
    · exact ⟨by decide, hnumber ']' (by decide)⟩
    · exact ⟨by decide, hnumber '/' (by decide)⟩
  have hend : j.boundary ([] ++ Nat.toDigits 10 pid.toInt.toNat) (c :: rest) = true := by
    have hlast := isAscii_of_mem_toDigits (by decide) (by decide)
      (List.getLast_mem (Nat.toDigits_ne_nil (b := 10) (n := pid.toInt.toNat)))
    rw [Joining.boundary_plain hplain.1, List.nil_append, List.getLast?_eq_some_getLast Nat.toDigits_ne_nil,
      Option.all_some, Joining.joinsBehind_of_isAscii hlast, Bool.not_false]
  rw [parseMetadata, (cutFirst?_bracket_iff _ _ _).2 hname]
  dsimp only
  rw [leadingNumbers_append hdigits hend hplain.2, int32?_toDigits hpid]
  rfl

/-- No other name is read back. -/
theorem bracketEnds_of_parseMetadata {isNumber : Char → Bool} {execname suffix : Text} {pid : Nat} {n : Int32}
    (h : parseMetadata j.boundary isNumber (execname ++ '[' :: (Nat.toDigits 10 pid ++ suffix)) = (execname, n)) :
    BracketEnds j.boundary execname := by
  unfold parseMetadata at h
  cases hcut : cutFirst? j.boundary (canonical · = '[') (execname ++ '[' :: (Nat.toDigits 10 pid ++ suffix)) with
  | none =>
      rw [hcut] at h
      obtain ⟨rfl, -⟩ := Prod.mk.inj h
      exact ⟨rfl, rfl⟩
  | some cut =>
      obtain ⟨front, behind⟩ := cut
      rw [hcut] at h
      obtain ⟨rfl, -⟩ := Prod.mk.inj h
      obtain ⟨c, heq, -⟩ := cutFirst?_eq_some_iff.1 hcut
      obtain ⟨-, rfl⟩ := List.cons.inj (List.append_cancel_left heq)
      exact (cutFirst?_bracket_iff _ _ _).1 hcut

/-! ## Frames -/

theorem cutFirst?_module_iff : cutFirst? j.boundary (canonical · = '`') (module ++ '`' :: rest) =
    some (module, rest) ↔ ModuleEnds j.boundary module rest := by
  rw [cutFirst?_eq_some_iff]
  constructor
  · rintro ⟨c, heq, -, hfront, hbehind, hnone⟩
    obtain rfl : '`' = c := (List.cons.inj (List.append_cancel_left heq)).1
    rw [Joining.scalarsIn_of_boundary hfront] at hnone
    exact ⟨hnone, (Joining.boundary_cons _ _ _).symm.trans hfront, hbehind⟩
  · rintro ⟨hnone, hfront, hbehind⟩
    have hfront : j.boundary module ('`' :: rest) = true := (Joining.boundary_cons _ _ _).trans hfront
    refine ⟨'`', rfl, by decide, hfront, hbehind, ?_⟩
    rwa [Joining.scalarsIn_of_boundary hfront]

/-- What a module is cut from shows where it ends, also when the backtick is the other scalar for it. -/
theorem moduleEnds_of_cutFirst? (h : cutFirst? j.boundary (canonical · = '`') s = some (module, rest)) :
    ModuleEnds j.boundary module rest := by
  obtain ⟨c, -, hc, hfront, hbehind, hnone⟩ := cutFirst?_eq_some_iff.1 h
  have htick : Joining.plain '`' = true := by decide
  have hplain : Joining.plain c = true := plain_of_canonical (by decide) (of_decide_eq_true hc)
  refine ⟨?_, ?_, ?_⟩
  · rwa [Joining.scalarsIn_of_boundary hfront] at hnone
  · rwa [Joining.boundary_plain hplain, ← Joining.boundary_plain htick] at hfront
  · rwa [Joining.boundary_concat_plain hplain, ← Joining.boundary_concat_plain htick] at hbehind

theorem ModuleEnds.congr {rest' : Text} (h : ModuleEnds j.boundary module rest) (hhead : rest'.head? = rest.head?) :
    ModuleEnds j.boundary module rest' := ⟨h.first, h.front, (Joining.boundary_congr hhead _).trans h.behind⟩

theorem cutLast?_plus_iff {tail : Text} (htail : tail.head?.all (fun d => !j.joinsFront d) = true)
    (hplus : ∀ c ∈ tail, c ≠ '+') :
    cutLast? j.boundary (canonical · = '+') (symbol ++ '+' :: tail) = some (symbol, tail) ↔
      j.boundary symbol ['+'] = true := by
  rw [cutLast?_eq_some_iff]
  constructor
  · rintro ⟨c, heq, -, hfront, -⟩
    obtain rfl : '+' = c := (List.cons.inj (List.append_cancel_left heq)).1
    exact (Joining.boundary_cons _ _ _).symm.trans hfront
  · intro hfront
    refine ⟨'+', rfl, by decide, (Joining.boundary_cons _ _ _).trans hfront, ?_, standsIn_eq_false fun c hc => ?_⟩
    · rwa [Joining.boundary_concat_plain (by decide)]
    · exact decide_eq_false fun h => hplus c hc (canonical_eq_plus.1 h)

/-- Of a line that `parseStackFrame` reads, a module with or without an offset, an address or a name is left. -/
theorem parseStackFrame_cases (j : Joining) (line : Text) :
    (∃ module symbol d tail offset,
      cutFirst? j.boundary (canonical · = '`') (trimmingCharacters whitespaces line) =
          some (module, symbol ++ d :: tail) ∧
        cutLast? j.boundary (canonical · = '+') (symbol ++ d :: tail) = some (symbol, tail) ∧
        parseStackFrame j.boundary line = { address := 0, module, symbol, offset := some offset }) ∨
    (∃ module rest, cutFirst? j.boundary (canonical · = '`') (trimmingCharacters whitespaces line) =
        some (module, rest) ∧ ¬ HasOffset j.boundary rest ∧
      parseStackFrame j.boundary line = { address := 0, module, symbol := rest }) ∨
    (∃ address, parseStackFrame j.boundary line = { address }) ∨
    parseStackFrame j.boundary line = { address := 0, symbol := trimmingCharacters whitespaces line } := by
  unfold parseStackFrame
  generalize trimmingCharacters whitespaces line = s
  dsimp only
  cases hcut : cutFirst? j.boundary (canonical · = '`') s with
  | some cut =>
      obtain ⟨module, rest⟩ := cut
      dsimp only
      cases hlast : cutLast? j.boundary (canonical · = '+') rest with
      | some cut =>
          obtain ⟨symbol, tail⟩ := cut
          obtain ⟨d, rfl, -⟩ := cutLast?_eq_some_iff.1 hlast
          dsimp only
          split
          · exact .inl ⟨module, symbol, d, tail, _, rfl, hlast, rfl⟩
          · rename_i hfront
            refine .inr (.inl ⟨module, _, rfl, ?_, rfl⟩)
            rintro ⟨front, tail', heq, hfront'⟩
            rw [hlast] at heq
            cases heq
            exact hfront hfront'
      | none =>
          refine .inr (.inl ⟨module, rest, rfl, ?_, rfl⟩)
          rintro ⟨front, tail, heq, -⟩
          rw [hlast] at heq
          cases heq
  | none =>
      dsimp only
      split
      · exact .inr (.inr (.inl ⟨_, rfl⟩))
      · exact .inr (.inr (.inr rfl))

theorem parseStackFrame_offset {line tail : Text}
    (hcut : cutFirst? j.boundary (canonical · = '`') (trimmingCharacters whitespaces line) = some (module, rest))
    (hlast : cutLast? j.boundary (canonical · = '+') rest = some (symbol, tail))
    (hfront : hasPrefix j.boundary tail ['0', 'x'] = true) : parseStackFrame j.boundary line =
      { address := 0, module, symbol, offset := (uint64OfHex? (tail.drop 2)).getD 0 } := by
  simp only [parseStackFrame, hcut, hlast, hfront, if_true]

theorem parseStackFrame_symbol {line : Text}
    (hcut : cutFirst? j.boundary (canonical · = '`') (trimmingCharacters whitespaces line) = some (module, rest))
    (hnot : ¬ HasOffset j.boundary rest) :
    parseStackFrame j.boundary line = { address := 0, module, symbol := rest } := by
  simp only [parseStackFrame, hcut]
  cases hlast : cutLast? j.boundary (canonical · = '+') rest with
  | none => rfl
  | some cut => exact if_neg fun hfront => hnot ⟨cut.1, cut.2, hlast, hfront⟩

/-! ## Formatted frames -/

theorem formatted_offset (module symbol : Text) (offset : UInt64) :
    ({ address := 0, module, symbol, offset } : StackFrame).formatted =
      module ++ '`' :: (symbol ++ '+' :: '0' :: 'x' :: Nat.toDigits 16 offset.toNat) := by
  simp [StackFrame.formatted, text]

theorem formatted_symbol (module symbol : Text) :
    ({ address := 0, module, symbol } : StackFrame).formatted = module ++ '`' :: symbol := by
  simp [StackFrame.formatted, text]

theorem formatted_address (address : UInt64) : ({ address } : StackFrame).formatted = '0' :: 'x' ::
    (List.replicate (16 - (Nat.toDigits 16 address.toNat).length) '0' ++ Nat.toDigits 16 address.toNat) := rfl

theorem head?_append_backtick (h : ∀ d ∈ module.head?, whitespaces d = false) (rest : Text) :
    ∀ d ∈ (module ++ '`' :: rest).head?, whitespaces d = false := by
  cases module with
  | nil =>
      intro d hd
      cases hd
      rfl
  | cons c module => exact h

theorem getLast?_toDigits (s : Text) (n : Nat) : ∀ d ∈ (s ++ Nat.toDigits 16 n).getLast?, whitespaces d = false := by
  intro d hd
  obtain ⟨e, he⟩ := Option.ne_none_iff_exists'.1 fun h => Nat.toDigits_ne_nil (List.getLast?_eq_none_iff.1 h)
  rw [List.getLast?_append, he] at hd
  cases hd
  exact (plain_of_mem_toDigits (by decide) (by decide) (List.mem_of_getLast? he)).2.2.2

theorem hasPrefix_hex {digits : Text} (h : ∀ d ∈ digits, isAscii d = true) :
    hasPrefix j.boundary ('0' :: 'x' :: digits) ['0', 'x'] = true := by
  have hboundary : j.boundary (['0'] ++ ['x']) digits = true := by
    rw [Joining.boundary_concat_plain (by decide)]
    cases digits with
    | nil => rfl
    | cons d digits => simp [Joining.joinsFront_of_isAscii (h d List.mem_cons_self)]
  exact Bool.and_eq_true_iff.2 ⟨List.isPrefixOf_iff_prefix.2 ⟨digits, rfl⟩, hboundary⟩

theorem parseStackFrame_offset_iff (offset : UInt64) (hhead : ∀ d ∈ module.head?, whitespaces d = false) :
    parseStackFrame j.boundary ({ address := 0, module, symbol, offset } : StackFrame).formatted =
        { address := 0, module, symbol, offset } ↔
      ModuleEnds j.boundary module (symbol ++ ['+']) ∧ j.boundary symbol ['+'] = true := by
  rw [formatted_offset]
  generalize hdigits : Nat.toDigits 16 offset.toNat = digits
  have hascii : ∀ d ∈ digits, isAscii d = true := fun d hd =>
    isAscii_of_mem_toDigits (by decide) (by decide) (hdigits ▸ hd)
  have hvalue : uint64OfHex? digits = some offset :=
    uint64OfHex?_of_digits (hdigits ▸ digitsValue?_toDigits (by decide) (by decide) _) fun d hd =>
      have hd := plain_of_mem_toDigits (by decide) (by decide) (hdigits ▸ hd)
      ⟨hd.1, hd.2.1⟩
  have htrim : trimmingCharacters whitespaces (module ++ '`' :: (symbol ++ '+' :: '0' :: 'x' :: digits)) =
      module ++ '`' :: (symbol ++ '+' :: '0' :: 'x' :: digits) := by
    refine trimmingCharacters_eq_self (head?_append_backtick hhead _) ?_
    have hsplit : module ++ '`' :: (symbol ++ '+' :: '0' :: 'x' :: digits) =
        module ++ '`' :: (symbol ++ ['+', '0', 'x']) ++ digits := by simp
    rw [hsplit, ← hdigits]
    exact getLast?_toDigits _ _
  have hplus : cutLast? j.boundary (canonical · = '+') (symbol ++ '+' :: '0' :: 'x' :: digits) =
      some (symbol, '0' :: 'x' :: digits) ↔ j.boundary symbol ['+'] = true := by
    refine cutLast?_plus_iff ?_ (List.forall_mem_cons.2 ⟨by decide, List.forall_mem_cons.2 ⟨by decide, fun d hd => ?_⟩⟩)
    · rw [List.head?_cons, Option.all_some, Joining.joinsFront_of_isAscii (by decide), Bool.not_false]
    · exact (plain_of_mem_toDigits (by decide) (by decide) (hdigits ▸ hd)).1
  have hsame : (symbol ++ '+' :: '0' :: 'x' :: digits).head? = (symbol ++ ['+']).head? := by cases symbol <;> rfl
  constructor
  · intro h
    rcases parseStackFrame_cases j (module ++ '`' :: (symbol ++ '+' :: '0' :: 'x' :: digits)) with
      ⟨module', symbol', d, tail, offset', hcut, hlast, heq⟩ | ⟨module', rest, -, -, heq⟩ | ⟨address, heq⟩ | heq
    · rw [h] at heq
      cases heq
      rw [htrim] at hcut
      obtain ⟨c, hs, -⟩ := cutFirst?_eq_some_iff.1 hcut
      obtain ⟨-, hrest⟩ := List.cons.inj (List.append_cancel_left hs)
      obtain ⟨rfl, rfl⟩ := List.cons.inj (List.append_cancel_left hrest)
      exact ⟨(cutFirst?_module_iff.1 hcut).congr hsame.symm, hplus.1 hlast⟩
    · rw [h] at heq
      cases heq
    · rw [h] at heq
      cases heq
    · rw [h] at heq
      cases heq
  · rintro ⟨hmodule, hsymbol⟩
    have hcut := cutFirst?_module_iff.2 (hmodule.congr hsame)
    rw [← htrim] at hcut
    rw [parseStackFrame_offset hcut (hplus.2 hsymbol) (hasPrefix_hex hascii)]
    simp [hvalue]

theorem parseStackFrame_symbol_iff (hhead : ∀ d ∈ module.head?, whitespaces d = false)
    (hlast : ∀ d ∈ symbol.getLast?, whitespaces d = false) :
    parseStackFrame j.boundary ({ address := 0, module, symbol } : StackFrame).formatted =
        { address := 0, module, symbol } ↔
      ModuleEnds j.boundary module symbol ∧ ¬ HasOffset j.boundary symbol := by
  rw [formatted_symbol]
  have htrim : trimmingCharacters whitespaces (module ++ '`' :: symbol) = module ++ '`' :: symbol := by
    refine trimmingCharacters_eq_self (head?_append_backtick hhead _) ?_
    cases symbol with
    | nil =>
        intro d hd
        rw [List.getLast?_concat] at hd
        cases hd
        rfl
    | cons c symbol =>
        intro d hd
        rw [List.getLast?_append_cons, List.getLast?_cons_cons] at hd
        exact hlast d hd
  constructor
  · intro h
    rcases parseStackFrame_cases j (module ++ '`' :: symbol) with
      ⟨module', symbol', d, tail, offset', -, -, heq⟩ | ⟨module', rest, hcut, hnot, heq⟩ | ⟨address, heq⟩ | heq
    · rw [h] at heq
      cases heq
    · rw [h] at heq
      cases heq
      rw [htrim] at hcut
      exact ⟨cutFirst?_module_iff.1 hcut, hnot⟩
    · rw [h] at heq
      cases heq
    · rw [h] at heq
      cases heq
  · rintro ⟨hmodule, hnot⟩
    have hcut := cutFirst?_module_iff.2 hmodule
    rw [← htrim] at hcut
    exact parseStackFrame_symbol hcut hnot

theorem parseStackFrame_address (address : UInt64) :
    parseStackFrame j.boundary ({ address } : StackFrame).formatted = { address } := by
  rw [formatted_address]
  have hne : Nat.toDigits 16 address.toNat ≠ [] := Nat.toDigits_ne_nil
  generalize hz : 16 - (Nat.toDigits 16 address.toNat).length = zeros
  have hmem : ∀ d ∈ List.replicate zeros '0' ++ Nat.toDigits 16 address.toNat,
      isAscii d = true ∧ d ≠ '+' ∧ d ≠ '-' ∧ d ≠ '`' := by
    intro d hd
    rcases List.mem_append.1 hd with hd | hd
    · rw [List.eq_of_mem_replicate hd]
      decide
    · have hplain := plain_of_mem_toDigits (by decide) (by decide) hd
      exact ⟨isAscii_of_mem_toDigits (by decide) (by decide) hd, hplain.1, hplain.2.1, hplain.2.2.1⟩
  have hvalue : uint64OfHex? (List.replicate zeros '0' ++ Nat.toDigits 16 address.toNat) = some address := by
    refine uint64OfHex?_of_digits ?_ fun d hd => ⟨(hmem d hd).2.1, (hmem d hd).2.2.1⟩
    rw [digitsValue?_zeros (by decide) zeros hne, digitsValue?_toDigits (by decide) (by decide)]
  have htrim : trimmingCharacters whitespaces
      ('0' :: 'x' :: (List.replicate zeros '0' ++ Nat.toDigits 16 address.toNat)) =
        '0' :: 'x' :: (List.replicate zeros '0' ++ Nat.toDigits 16 address.toNat) := by
    refine trimmingCharacters_eq_self (fun d hd => by cases hd; rfl) ?_
    exact getLast?_toDigits ('0' :: 'x' :: List.replicate zeros '0') _
  have hnone : cutFirst? j.boundary (canonical · = '`')
      ('0' :: 'x' :: (List.replicate zeros '0' ++ Nat.toDigits 16 address.toNat)) = none := by
    refine cutFirst?_eq_none_iff.2 (standsIn_eq_false (List.forall_mem_cons.2 ⟨by decide, List.forall_mem_cons.2
      ⟨by decide, fun d hd => decide_eq_false ?_⟩⟩))
    rw [Joining.canonical_of_isAscii (hmem d hd).1]
    exact (hmem d hd).2.2.2
  simp only [parseStackFrame, htrim, hnone, hasPrefix_hex fun d hd => (hmem d hd).1, if_true, List.drop_succ_cons,
    List.drop_zero, hvalue]

/-- A frame is read back from its text exactly when the text shows where its parts end. -/
theorem Readable.parse_formatted_iff {f : StackFrame} (h : Readable f) :
    parseStackFrame j.boundary f.formatted = f ↔ Shown j.boundary f := by
  cases h with
  | offset offset hhead => exact parseStackFrame_offset_iff offset hhead
  | symbol hhead hlast => exact parseStackFrame_symbol_iff hhead hlast
  | address address => exact iff_of_true (parseStackFrame_address address) trivial

theorem parseStackFrame_trimmed (boundary : CharacterBoundary) (line : Text) :
    parseStackFrame boundary (trimmingCharacters whitespaces line) = parseStackFrame boundary line := by
  have htrim := trimmingCharacters_eq_self (head?_trimmingCharacters whitespaces line)
    (getLast?_trimmingCharacters whitespaces line)
  unfold parseStackFrame
  rw [htrim]

/-- What was read from a line shows where its parts end. -/
theorem parseStackFrame_formatted_parse (j : Joining) (line : Text) :
    parseStackFrame j.boundary (parseStackFrame j.boundary line).formatted = parseStackFrame j.boundary line := by
  have hhead := head?_trimmingCharacters whitespaces line
  have hlast := getLast?_trimmingCharacters whitespaces line
  have hmodule {module rest : Text}
      (h : cutFirst? j.boundary (canonical · = '`') (trimmingCharacters whitespaces line) = some (module, rest)) :
      (∀ d ∈ module.head?, whitespaces d = false) ∧ ∀ d ∈ rest.getLast?, whitespaces d = false := by
    obtain ⟨c, hs, -⟩ := cutFirst?_eq_some_iff.1 h
    rw [hs] at hhead hlast
    refine ⟨fun d hd => hhead d ?_, fun d hd => hlast d ?_⟩
    · rw [List.head?_append, hd]
      rfl
    · rw [List.getLast?_append_cons]
      cases rest with
      | nil => cases hd
      | cons e rest => rwa [List.getLast?_cons_cons]
  rcases parseStackFrame_cases j line with
    ⟨module, symbol, d, tail, offset, hcut, hplus, heq⟩ | ⟨module, rest, hcut, hnot, heq⟩ | ⟨address, heq⟩ | heq
  · rw [heq]
    obtain ⟨c, hs, hc, hfront, -⟩ := cutLast?_eq_some_iff.1 hplus
    obtain ⟨rfl, -⟩ := List.cons.inj (List.append_cancel_left hs)
    obtain rfl := canonical_eq_plus.1 (of_decide_eq_true hc)
    have hsame : (symbol ++ ['+']).head? = (symbol ++ '+' :: tail).head? := by cases symbol <;> rfl
    exact (parseStackFrame_offset_iff offset (hmodule hcut).1).2
      ⟨(moduleEnds_of_cutFirst? hcut).congr hsame, (Joining.boundary_cons _ _ _).symm.trans hfront⟩
  · rw [heq]
    exact (parseStackFrame_symbol_iff (hmodule hcut).1 (hmodule hcut).2).2 ⟨moduleEnds_of_cutFirst? hcut, hnot⟩
  · rw [heq]
    exact parseStackFrame_address address
  · rw [heq]
    exact (parseStackFrame_trimmed j.boundary line).trans heq

end ObservableBSD.Instruments
