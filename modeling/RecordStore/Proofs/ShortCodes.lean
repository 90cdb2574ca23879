import Mathlib.Data.List.GetD
import Mathlib.Data.Nat.Digits.Lemmas
import RecordStore.ShortCode

/-!
# Short codes and their identifiers

Different identifiers have different short codes (`short_codes_are_apart`).  The digits of a code can be
read off its characters, because no character stands for two digits, and so many digits determine every
number that an identifier can be.  With one digit less there would be identifiers that share their digits
(`digits_determine_iff`).
-/

namespace RecordStore

variable {count digit m n : Nat}

/-! ## Digits -/

theorem lt_of_mem_codeDigits (h : digit ∈ (codeDigits count n).1) : digit < codeBase := by
  induction count generalizing n with
  | zero => cases h
  | succ count ih =>
      rcases List.mem_cons.1 h with rfl | hhigher
      · exact Nat.mod_lt n (by decide)
      · exact ih hhigher

/-- The digits of a number write what it is modulo the first power that they leave out. -/
theorem ofDigits_codeDigits (count n : Nat) :
    Nat.ofDigits codeBase (codeDigits count n).1 = n % codeBase ^ count := by
  induction count generalizing n with
  | zero => exact (Nat.mod_one n).symm
  | succ count ih =>
      calc Nat.ofDigits codeBase (n % codeBase :: (codeDigits count (n / codeBase)).1)
          = n % codeBase + codeBase * Nat.ofDigits codeBase (codeDigits count (n / codeBase)).1 :=
            Nat.ofDigits_cons
        _ = n % codeBase + codeBase * (n / codeBase % codeBase ^ count) := by rw [ih]
        _ = n % codeBase ^ (count + 1) := by rw [Nat.pow_succ', Nat.mod_mul]

theorem codeDigits_eq_iff :
    (codeDigits count m).1 = (codeDigits count n).1 ↔ m % codeBase ^ count = n % codeBase ^ count := by
  rw [← ofDigits_codeDigits, ← ofDigits_codeDigits]
  constructor
  · exact congrArg (Nat.ofDigits codeBase)
  · intro h
    have hlength : (codeDigits count m).1.length = (codeDigits count n).1.length := by simp
    exact Nat.ofDigits_inj_of_len_eq (by decide) hlength (fun _ => lt_of_mem_codeDigits)
      (fun _ => lt_of_mem_codeDigits) h

/-! ## How many digits are needed -/

/-- The digits of a code are enough for all identifiers. -/
theorem two_pow_le_codeBase_pow : 2 ^ 128 ≤ codeBase ^ codeLength := by
  decide

/-- One digit less is not enough. -/
theorem codeBase_pow_lt_two_pow (h : count < codeLength) : codeBase ^ count < 2 ^ 128 :=
  calc codeBase ^ count ≤ codeBase ^ (codeLength - 1) :=
        Nat.pow_le_pow_right (by decide) (Nat.le_sub_one_of_lt h)
    _ < 2 ^ 128 := by decide

/-- A number of digits determines identifiers if and only if a code has no more digits. -/
theorem digits_determine_iff :
    (∀ first second : BitVec 128,
      (codeDigits count first.toNat).1 = (codeDigits count second.toNat).1 → first = second) ↔
      codeLength ≤ count := by
  constructor
  · intro h
    by_contra hfew
    have hpower := codeBase_pow_lt_two_pow (Nat.lt_of_not_le hfew)
    -- The first power that the digits leave out has the same digits as zero.
    have hsame : (0 : BitVec 128) = BitVec.ofNat 128 (codeBase ^ count) := by
      refine h _ _ (codeDigits_eq_iff.2 ?_)
      rw [BitVec.toNat_ofNat, Nat.mod_eq_of_lt hpower, Nat.mod_self]
      exact Nat.zero_mod _
    have hzero := congrArg BitVec.toNat hsame
    rw [BitVec.toNat_ofNat, Nat.mod_eq_of_lt hpower] at hzero
    exact (Nat.pow_pos (by decide)).ne hzero
  · intro hmany first second hdigits
    have hfits (identifier : BitVec 128) : identifier.toNat < codeBase ^ count :=
      calc identifier.toNat < 2 ^ 128 := identifier.isLt
        _ ≤ codeBase ^ codeLength := two_pow_le_codeBase_pow
        _ ≤ codeBase ^ count := Nat.pow_le_pow_right (by decide) hmany
    have hrest := codeDigits_eq_iff.1 hdigits
    rw [Nat.mod_eq_of_lt (hfits first), Nat.mod_eq_of_lt (hfits second)] at hrest
    exact BitVec.eq_of_toNat_eq hrest

/-! ## Characters -/

theorem nodup_codeAlphabet : codeAlphabet.Nodup := by
  decide

/-- The character of a digit stands at its place in the alphabet. -/
theorem codeChar_of_lt (h : digit < codeAlphabet.length) : codeChar digit = codeAlphabet[digit] :=
  List.getD_eq_getElem codeAlphabet '2' h

theorem codeChar_mem (h : digit < codeAlphabet.length) : codeChar digit ∈ codeAlphabet := by
  rw [codeChar_of_lt h]
  exact List.getElem_mem h

theorem idxOf_codeChar (h : digit < codeAlphabet.length) :
    codeAlphabet.idxOf (codeChar digit) = digit := by
  rw [codeChar_of_lt h]
  exact nodup_codeAlphabet.idxOf_getElem digit h

theorem toList_shortCode (identifier : BitVec 128) :
    (shortCode identifier).toList = (codeDigits codeLength identifier.toNat).1.map codeChar :=
  String.toList_ofList

/-- The digits of an identifier are read off its code. -/
theorem map_idxOf_shortCode (identifier : BitVec 128) :
    (shortCode identifier).toList.map codeAlphabet.idxOf =
      (codeDigits codeLength identifier.toNat).1 := by
  rw [toList_shortCode, List.map_map]
  refine (List.map_congr_left fun digit hdigit => ?_).trans (List.map_id _)
  exact idxOf_codeChar (lt_of_mem_codeDigits hdigit)

/-! ## Codes -/

/-- Different identifiers have different codes.  A code is made of twenty-two characters of the alphabet, and
nothing is left of the identifier above its digits: the alphabet has no character twice, and its powers
reach the number of identifiers. -/
theorem short_codes_are_apart :
    (∀ first second : BitVec 128, shortCode first = shortCode second ↔ first = second) ∧
    (∀ identifier : BitVec 128, (shortCode identifier).length = 22 ∧
      (∀ c ∈ (shortCode identifier).toList, c ∈ codeAlphabet) ∧
      (codeDigits codeLength identifier.toNat).2 = 0) ∧
    codeAlphabet.Nodup ∧ codeAlphabet.length = 57 ∧ 2 ^ 128 ≤ codeAlphabet.length ^ codeLength := by
  refine ⟨fun first second => ⟨fun h => ?_, congrArg shortCode⟩, fun identifier => ⟨?_, ?_, ?_⟩,
    nodup_codeAlphabet, rfl, two_pow_le_codeBase_pow⟩
  · refine digits_determine_iff.2 (Nat.le_refl codeLength) first second ?_
    rw [← map_idxOf_shortCode, ← map_idxOf_shortCode, h]
  · rw [← String.length_toList, toList_shortCode, List.length_map, length_codeDigits]
    rfl
  · intro c hc
    rw [toList_shortCode] at hc
    obtain ⟨digit, hdigit, rfl⟩ := List.mem_map.1 hc
    exact codeChar_mem (lt_of_mem_codeDigits hdigit)
  · exact remainder_codeDigits identifier

/-- The least and the greatest identifier; the last digit of a code does not go through the alphabet. -/
theorem short_codes_are_apart_at_ends :
    shortCode 0 = "2222222222222222222222" ∧
      shortCode (BitVec.allOnes 128) = "5B8cwPMGnU6qLbRvo7qEZo" ∧
      shortCode 0 ≠ shortCode (BitVec.allOnes 128) ∧ (shortCode (BitVec.allOnes 128)).length = 22 := by
  obtain ⟨hinjective, hcode, -⟩ := short_codes_are_apart
  refine ⟨by decide +kernel, by decide +kernel, fun h => ?_, (hcode _).1⟩
  exact absurd ((hinjective _ _).1 h) (by decide)

end RecordStore
