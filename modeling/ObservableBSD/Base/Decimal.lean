import ObservableBSD.Base.Stdio

/-!
# Decimal fields

`%d` and `%u` read back the numerals that the same conversions print.
-/

namespace ObservableBSD.Base

variable {s : CString} {c : UInt8} {format : List Directive}

/-- A sign and digits are the whole field. -/
theorem scanDecimal_eq {sign digits : CString} (hsign : sign = [] ∨ sign = [45]) (hne : digits ≠ [])
    (hd : ∀ d ∈ digits, isDigit 10 d = true) (hlen : digits.length ≤ 500) (hs : s.head? = some c)
    (hc : isDigit 10 c = false) :
    scanDecimal (sign ++ (digits ++ s)) = some (decide (sign = [45]), numeralValue 10 digits, s) := by
  obtain ⟨d, t, rfl⟩ := List.exists_cons_of_ne_nil hne
  have hfirst := hd d List.mem_cons_self
  have hspace : (sign ++ (d :: t ++ s)).dropWhile isSpace = sign ++ (d :: t ++ s) := by
    rcases hsign with rfl | rfl
    · exact dropWhile_isSpace hfirst
    · rfl
  have hshort : sign.length ≤ 1 := by
    rcases hsign with rfl | rfl <;> simp
  have htake : (sign ++ (d :: t ++ s)).take 512 = sign ++ (d :: t ++ s.take (512 - sign.length - (d :: t).length)) := by
    rw [List.take_append, List.take_of_length_le (by omega), List.take_append, List.take_of_length_le (by omega)]
  have hlength : signLength (sign ++ (d :: t ++ s.take (512 - sign.length - (d :: t).length))) = sign.length := by
    rcases hsign with rfl | rfl
    · exact signLength_digit hfirst
    · rfl
  have hfield : (d :: t ++ s.take (512 - sign.length - (d :: t).length)).takeWhile (isDigit 10) = d :: t := by
    refine takeWhile_field hd fun x hx => ?_
    obtain rfl := Option.some.inj ((head?_of_take hx).symm.trans hs)
    exact hc
  have hminus : decide ((sign ++ (d :: t ++ s.take (512 - sign.length - (d :: t).length))).head? = some 45) =
      decide (sign = [45]) := by
    rcases hsign with rfl | rfl
    · have hd45 : d ≠ 45 := by
        rintro rfl
        revert hfirst
        decide
      simp [hd45]
    · rfl
  have hrest : (sign ++ (d :: t ++ s)).drop (sign.length + (d :: t).length) = s := by
    rw [← List.drop_drop, List.drop_left, List.drop_left]
  unfold scanDecimal
  simp only [hspace, htake, hlength, List.drop_left, hfield, hminus, hrest, if_neg hne]

theorem scanDecimal_numeral (sign : CString) {n : Nat} (hsign : sign = [] ∨ sign = [45]) (hn : n < 10 ^ 20)
    (hs : s.head? = some c) (hc : isDigit 10 c = false) :
    scanDecimal (sign ++ (numeral 10 n ++ s)) = some (decide (sign = [45]), n, s) := by
  have hlen : (numeral 10 n).length ≤ 20 := length_numeral_le (by omega) (by omega) hn
  have hvalue : numeralValue 10 (numeral 10 n) = n := numeralValue_numeral (by omega) (by omega) n
  rw [scanDecimal_eq hsign (numeral_ne_nil 10 n) (fun d hd => isDigit_of_mem_numeral (by omega) (by omega) hd)
    (by omega) hs hc, hvalue]

theorem scanInt_intNumeral (v : Int32) (hs : s.head? = some c) (hc : isDigit 10 c = false) :
    scanInt (intNumeral v.toInt ++ s) = some (v, s) := by
  have hlow := v.le_toInt
  have hhigh := v.toInt_lt
  have hsmall : v.toInt.natAbs < 10 ^ 20 := by omega
  unfold intNumeral scanInt
  split
  · rename_i hneg
    have hscan := scanDecimal_numeral [45] (.inr rfl) hsmall hs hc
    have hvalue : max (-(v.toInt.natAbs : Int)) (-2 ^ 63) = v.toInt := by omega
    show Option.map _ (scanDecimal ([45] ++ (numeral 10 v.toInt.natAbs ++ s))) = _
    rw [hscan]
    show some (Int32.ofInt (max (-(v.toInt.natAbs : Int)) (-2 ^ 63)), s) = some (v, s)
    rw [hvalue, Int32.ofInt_toInt]
  · have hscan := scanDecimal_numeral [] (.inl rfl) hsmall hs hc
    have hvalue : min (v.toInt.natAbs : Int) (2 ^ 63 - 1) = v.toInt := by omega
    rw [List.nil_append] at hscan
    rw [hscan]
    show some (Int32.ofInt (min (v.toInt.natAbs : Int) (2 ^ 63 - 1)), s) = some (v, s)
    rw [hvalue, Int32.ofInt_toInt]

theorem scanUint_numeral (v : UInt32) (hs : s.head? = some c) (hc : isDigit 10 c = false) :
    scanUint (numeral 10 v.toNat ++ s) = some (v, s) := by
  have hlt := v.toNat_lt
  have hsmall : v.toNat < 10 ^ 20 := by omega
  have hscan := scanDecimal_numeral [] (.inl rfl) hsmall hs hc
  have hfits : ¬ UInt64.size ≤ v.toNat := by
    simp only [UInt64.size]
    omega
  rw [List.nil_append] at hscan
  simp [scanUint, hscan, hfits]

theorem sscanf_int (v : Int32) (assigned : Bool) (hs : s.head? = some c) (hc : isDigit 10 c = false) :
    sscanf (.int assigned :: format) (intNumeral v.toInt ++ s) =
      if assigned then .int v :: sscanf format s else sscanf format s := by
  rw [sscanf, scanInt_intNumeral v hs hc]

theorem sscanf_uint (v : UInt32) (assigned : Bool) (hs : s.head? = some c) (hc : isDigit 10 c = false) :
    sscanf (.uint assigned :: format) (numeral 10 v.toNat ++ s) =
      if assigned then .uint v :: sscanf format s else sscanf format s := by
  rw [sscanf, scanUint_numeral v hs hc]

end ObservableBSD.Base
