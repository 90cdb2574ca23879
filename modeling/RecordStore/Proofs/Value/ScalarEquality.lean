import Mathlib.Tactic.ByContra
import Mathlib.Tactic.Ring
import RecordStore.Value.Equality

/-!
# Equality of scalars

On values that are no containers, `Value.equals` is symmetric and transitive.  It is not reflexive,
because a not-a-number equals nothing.  Numbers that are equal have the same normal form: zeros without
their sign, decimals without trailing zeros.
-/

namespace RecordStore

/-! ## Floating-point numbers -/

namespace Float64

variable {x y z : Float64}

theorem equals_iff : x.equals y = true ↔
    x.isNaN = false ∧ y.isNaN = false ∧ (x = y ∨ x.isZero = true ∧ y.isZero = true) := by
  have hbits : x.bits = y.bits ↔ x = y := by
    cases x
    cases y
    simp
  simp [equals, hbits, and_assoc]

theorem equals_symm (h : x.equals y = true) : y.equals x = true := by
  rw [equals_iff] at h ⊢
  obtain ⟨hx, hy, hsame | ⟨hzero, hzero'⟩⟩ := h
  · exact ⟨hy, hx, Or.inl hsame.symm⟩
  · exact ⟨hy, hx, Or.inr ⟨hzero', hzero⟩⟩

theorem equals_trans (h : x.equals y = true) (h' : y.equals z = true) : x.equals z = true := by
  rw [equals_iff] at h h' ⊢
  obtain ⟨hx, -, rfl | ⟨hzero, hzero'⟩⟩ := h
  · exact ⟨hx, h'.2⟩
  · obtain ⟨-, hz, rfl | ⟨-, hlast⟩⟩ := h'
    · exact ⟨hx, hz, Or.inr ⟨hzero, hzero'⟩⟩
    · exact ⟨hx, hz, Or.inr ⟨hzero, hlast⟩⟩

theorem forgetZeroSign_eq (h : x.equals y = true) : x.forgetZeroSign = y.forgetZeroSign := by
  obtain ⟨-, -, rfl | ⟨hzero, hzero'⟩⟩ := equals_iff.1 h
  · rfl
  · unfold forgetZeroSign
    rw [if_pos hzero, if_pos hzero']

end Float64

/-! ## Decimals -/

namespace Decimal

variable {a b c : Decimal}

theorem equals_iff : a.equals b = true ↔
    a.mantissa * 10 ^ b.scale = b.mantissa * 10 ^ a.scale ∧
      (a.negative = b.negative ∨ a.mantissa = 0) := by
  simp [equals]

/-- Equal decimals are zero together. -/
theorem mantissa_eq_zero_iff (h : a.mantissa * 10 ^ b.scale = b.mantissa * 10 ^ a.scale) :
    a.mantissa = 0 ↔ b.mantissa = 0 := by
  have hpow : ∀ n : Nat, 10 ^ n ≠ 0 := fun n => Nat.ne_of_gt (Nat.pow_pos (by decide))
  constructor
  · intro hzero
    rw [hzero, Nat.zero_mul] at h
    exact (Nat.mul_eq_zero.1 h.symm).resolve_right (hpow _)
  · intro hzero
    rw [hzero, Nat.zero_mul] at h
    exact (Nat.mul_eq_zero.1 h).resolve_right (hpow _)

theorem equals_symm (h : a.equals b = true) : b.equals a = true := by
  rw [equals_iff] at h ⊢
  refine ⟨h.1.symm, ?_⟩
  rcases h.2 with hsign | hzero
  · exact Or.inl hsign.symm
  · exact Or.inr ((mantissa_eq_zero_iff h.1).1 hzero)

theorem equals_trans (h : a.equals b = true) (h' : b.equals c = true) : a.equals c = true := by
  rw [equals_iff] at h h' ⊢
  constructor
  · -- Both sides are multiplied by the power of the scale in the middle.
    refine Nat.eq_of_mul_eq_mul_right (Nat.pow_pos (by decide) : 0 < 10 ^ b.scale) ?_
    calc a.mantissa * 10 ^ c.scale * 10 ^ b.scale
        = a.mantissa * 10 ^ b.scale * 10 ^ c.scale := by ring
      _ = b.mantissa * 10 ^ c.scale * 10 ^ a.scale := by rw [h.1]; ring
      _ = c.mantissa * 10 ^ a.scale * 10 ^ b.scale := by rw [h'.1]; ring
  · rcases h.2 with hsign | hzero
    · rcases h'.2 with hsign' | hzero'
      · exact Or.inl (hsign.trans hsign')
      · exact Or.inr ((mantissa_eq_zero_iff h.1).2 hzero')
    · exact Or.inr hzero

/-- Dropping trailing zeros keeps the value and leaves none of them. -/
theorem dropTrailingZeros_spec (mantissa scale : Nat) :
    (dropTrailingZeros mantissa scale).1 * 10 ^ scale =
        mantissa * 10 ^ (dropTrailingZeros mantissa scale).2 ∧
      ((dropTrailingZeros mantissa scale).2 = 0 ∨ (dropTrailingZeros mantissa scale).1 % 10 ≠ 0) := by
  induction scale generalizing mantissa with
  | zero => exact ⟨rfl, Or.inl rfl⟩
  | succ scale ih =>
      unfold dropTrailingZeros
      by_cases hzero : mantissa % 10 = 0
      · rw [if_pos hzero]
        obtain ⟨hvalue, hlast⟩ := ih (mantissa / 10)
        refine ⟨?_, hlast⟩
        have hten : mantissa / 10 * 10 = mantissa := Nat.div_mul_cancel (Nat.dvd_of_mod_eq_zero hzero)
        calc (dropTrailingZeros (mantissa / 10) scale).1 * 10 ^ (scale + 1)
            = (dropTrailingZeros (mantissa / 10) scale).1 * 10 ^ scale * 10 := by ring
          _ = mantissa / 10 * 10 * 10 ^ (dropTrailingZeros (mantissa / 10) scale).2 := by
              rw [hvalue]; ring
          _ = mantissa * 10 ^ (dropTrailingZeros (mantissa / 10) scale).2 := by rw [hten]
      · rw [if_neg hzero]
        exact ⟨rfl, Or.inr hzero⟩

/-- Two forms of one value without trailing zeros are the same. -/
theorem eq_of_no_trailing_zeros {m n s t : Nat} (hvalue : m * 10 ^ t = n * 10 ^ s)
    (hm : s = 0 ∨ m % 10 ≠ 0) (hn : t = 0 ∨ n % 10 ≠ 0) : m = n ∧ s = t := by
  have hle : ∀ {m n s t : Nat}, m * 10 ^ t = n * 10 ^ s → (t = 0 ∨ n % 10 ≠ 0) → t ≤ s := by
    clear hvalue hm hn
    intro m n s t hvalue hn
    by_contra hlt
    -- The larger scale would leave a factor of ten.
    obtain ⟨k, rfl⟩ : ∃ k, t = s + (k + 1) := ⟨t - s - 1, by omega⟩
    have hten : m * 10 ^ (k + 1) = n := by
      refine Nat.eq_of_mul_eq_mul_right (Nat.pow_pos (by decide) : 0 < 10 ^ s) ?_
      rw [← hvalue]
      ring
    rcases hn with hzero | hlast
    · omega
    · refine hlast ?_
      rw [← hten, pow_succ, ← Nat.mul_assoc]
      exact Nat.mul_mod_left _ _
  obtain rfl : s = t := Nat.le_antisymm (hle hvalue.symm hm) (hle hvalue hn)
  exact ⟨Nat.eq_of_mul_eq_mul_right (Nat.pow_pos (by decide)) hvalue, rfl⟩

theorem normalize_eq (h : a.equals b = true) : a.normalize = b.normalize := by
  obtain ⟨hvalue, hsign⟩ := equals_iff.1 h
  unfold normalize
  by_cases hzero : a.mantissa = 0
  · rw [if_pos hzero, if_pos ((mantissa_eq_zero_iff hvalue).1 hzero)]
  · rw [if_neg hzero, if_neg fun hb => hzero ((mantissa_eq_zero_iff hvalue).2 hb)]
    obtain ⟨ha, hlast⟩ := dropTrailingZeros_spec a.mantissa a.scale
    obtain ⟨hb, hlast'⟩ := dropTrailingZeros_spec b.mantissa b.scale
    have hsame : (dropTrailingZeros a.mantissa a.scale).1 *
          10 ^ (dropTrailingZeros b.mantissa b.scale).2 =
        (dropTrailingZeros b.mantissa b.scale).1 *
          10 ^ (dropTrailingZeros a.mantissa a.scale).2 := by
      generalize dropTrailingZeros a.mantissa a.scale = da at ha
      generalize dropTrailingZeros b.mantissa b.scale = db at hb
      have hpositive : 0 < 10 ^ a.scale * 10 ^ b.scale :=
        Nat.mul_pos (Nat.pow_pos (by decide)) (Nat.pow_pos (by decide))
      refine Nat.eq_of_mul_eq_mul_right hpositive ?_
      calc da.1 * 10 ^ db.2 * (10 ^ a.scale * 10 ^ b.scale)
          = da.1 * 10 ^ a.scale * 10 ^ db.2 * 10 ^ b.scale := by ring
        _ = a.mantissa * 10 ^ b.scale * 10 ^ da.2 * 10 ^ db.2 := by rw [ha]; ring
        _ = b.mantissa * 10 ^ db.2 * 10 ^ a.scale * 10 ^ da.2 := by rw [hvalue]; ring
        _ = db.1 * 10 ^ da.2 * (10 ^ a.scale * 10 ^ b.scale) := by rw [← hb]; ring
    obtain ⟨hmantissa, hscale⟩ := eq_of_no_trailing_zeros hsame hlast hlast'
    simp [hmantissa, hscale, hsign.resolve_right hzero]

end Decimal

/-! ## Values -/

namespace Value

variable {a b c : Value}

theorem equals_of_scalar (h : a.containerKind? = none) (b : Value) :
    a.equals b = equalsScalar a b := by
  cases a with
  | list | mapping | tuple | set | frozenSet => cases h
  | _ => unfold equals; rfl

theorem equalsScalar_symm (h : equalsScalar a b = true) : equalsScalar b a = true := by
  unfold equalsScalar at h
  split at h
  case h_1 => rfl
  case h_3 => exact Float64.equals_symm h
  case h_7 => exact Decimal.equals_symm h
  case h_11 => cases h
  all_goals
    simp only [beq_iff_eq] at h
    subst h
    simp [equalsScalar]

theorem equalsScalar_trans (h : equalsScalar a b = true) (h' : equalsScalar b c = true) :
    equalsScalar a c = true := by
  unfold equalsScalar at h
  split at h
  case h_1 => exact h'
  case h_3 =>
    cases c with
    | float z => exact Float64.equals_trans h h'
    | _ => cases h'
  case h_7 =>
    cases c with
    | decimal z => exact Decimal.equals_trans h h'
    | _ => cases h'
  case h_11 => cases h
  all_goals
    simp only [beq_iff_eq] at h
    subst h
    exact h'

end Value

end RecordStore
