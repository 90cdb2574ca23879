import Mathlib.Tactic.SplitIfs
import RecordStore.Proofs.Bytes
import RecordStore.SortedMap

/-!
# The order of byte strings

Byte strings are ordered lexicographically, which is the order of the keys of a sorted map
(`keyOrder_iff`).  Both layouts keep the order of what they lay out:

* numbers of one width, high byte first, stand in their order as numbers (`bigEndian_lt_iff`);
* texts stand in the order of their characters (`textBytes_lt_iff`).

When a byte string goes on behind another one, the front decides first if it has a fixed length
(`append_lt_append_iff`) or if a zero marks its end (`separated_lt_iff`).
-/

namespace RecordStore

/-- The order in which a sorted map keeps byte strings is the lexicographic one. -/
theorem keyOrder_iff {a b : Bytes} : KeyOrder.lt a b = true ↔ a < b := by
  induction a generalizing b with
  | nil =>
      cases b with
      | nil => simp [KeyOrder.lt, listBefore]
      | cons y ys => simp [KeyOrder.lt, listBefore]
  | cons x xs ih =>
      cases b with
      | nil => simp [KeyOrder.lt, listBefore]
      | cons y ys =>
          rw [List.cons_lt_cons_iff]
          change (if x = y then listBefore xs ys else KeyOrder.lt x y) = true ↔ _
          by_cases hhead : x = y
          · rw [if_pos hhead, ← ih]
            simp only [hhead, true_and, UInt8.lt_irrefl, false_or]
            rfl
          · rw [if_neg hhead]
            simp only [hhead, false_and, or_false]
            exact decide_eq_true_iff

/-! ## Fronts -/

/-- Fronts of the same length decide first, what follows them afterwards. -/
theorem append_lt_append_iff {a b c d : Bytes} (hlength : a.length = b.length) :
    a ++ c < b ++ d ↔ a < b ∨ a = b ∧ c < d := by
  induction a generalizing b with
  | nil =>
      obtain rfl := List.length_eq_zero_iff.1 hlength.symm
      simp
  | cons x xs ih =>
      cases b with
      | nil => cases hlength
      | cons y ys =>
          rw [List.cons_append, List.cons_append, List.cons_lt_cons_iff, List.cons_lt_cons_iff,
            ih (Nat.succ.inj hlength), List.cons.injEq, and_or_left, ← or_assoc, and_assoc]

/-- So do fronts without zeros that a zero ends. -/
theorem separated_lt_iff {a b c d : Bytes} (ha : 0 ∉ a) (hb : 0 ∉ b) :
    a ++ 0 :: c < b ++ 0 :: d ↔ a < b ∨ a = b ∧ c < d := by
  induction a generalizing b with
  | nil =>
      cases b with
      | nil => simp
      | cons y ys =>
          -- Where the one front has ended, the other goes on with a greater byte.
          have hpos : (0 : UInt8) < y := UInt8.pos_iff_ne_zero.2 fun heq => hb (by simp [heq])
          simp [List.cons_lt_cons_iff, hpos]
  | cons x xs ih =>
      have hne : x ≠ 0 := fun heq => ha (by simp [heq])
      cases b with
      | nil => simp [List.cons_lt_cons_iff, hne]
      | cons y ys =>
          have hrest := ih (fun hmem => ha (List.mem_cons_of_mem _ hmem))
            fun hmem => hb (List.mem_cons_of_mem _ hmem)
          rw [List.cons_append, List.cons_append, List.cons_lt_cons_iff, List.cons_lt_cons_iff,
            hrest, List.cons.injEq, and_or_left, ← or_assoc, and_assoc]

/-! ## Numbers -/

theorem bigEndian_succ (width n : Nat) :
    bigEndian (width + 1) n = bigEndian width (n / 256) ++ [UInt8.ofNat n] := by
  simp [bigEndian, littleEndian]

theorem bigEndian_inj {width m n : Nat} (hm : m < 256 ^ width) (hn : n < 256 ^ width) :
    bigEndian width m = bigEndian width n ↔ m = n := by
  constructor
  · intro h
    have hback := congrArg ofBigEndian h
    rwa [ofBigEndian_bigEndian hm, ofBigEndian_bigEndian hn] at hback
  · rintro rfl
    rfl

theorem ofNat_lt_ofNat_iff {m n : Nat} : UInt8.ofNat m < UInt8.ofNat n ↔ m % 256 < n % 256 := by
  rw [UInt8.lt_iff_toNat_lt, UInt8.toNat_ofNat', UInt8.toNat_ofNat']

theorem ofNat_eq_ofNat_iff {m n : Nat} : UInt8.ofNat m = UInt8.ofNat n ↔ m % 256 = n % 256 := by
  rw [← UInt8.toNat_inj, UInt8.toNat_ofNat', UInt8.toNat_ofNat']

/-- The high bytes come first, so they decide before the low byte does. -/
theorem bigEndian_lt_iff {width m n : Nat} (hm : m < 256 ^ width) (hn : n < 256 ^ width) :
    bigEndian width m < bigEndian width n ↔ m < n := by
  induction width generalizing m n with
  | zero =>
      have hzero : m = 0 ∧ n = 0 := by
        simp only [Nat.pow_zero] at hm hn
        omega
      simp [bigEndian, littleEndian, hzero]
  | succ width ih =>
      rw [Nat.pow_succ] at hm hn
      have hm' : m / 256 < 256 ^ width := Nat.div_lt_of_lt_mul (by omega)
      have hn' : n / 256 < 256 ^ width := Nat.div_lt_of_lt_mul (by omega)
      have hlast : [UInt8.ofNat m] < [UInt8.ofNat n] ↔ m % 256 < n % 256 := by
        rw [List.cons_lt_cons_iff, ofNat_lt_ofNat_iff]
        simp
      calc bigEndian (width + 1) m < bigEndian (width + 1) n
          ↔ bigEndian width (m / 256) < bigEndian width (n / 256) ∨
            bigEndian width (m / 256) = bigEndian width (n / 256) ∧
              [UInt8.ofNat m] < [UInt8.ofNat n] := by
            rw [bigEndian_succ, bigEndian_succ, append_lt_append_iff (by simp)]
        _ ↔ m / 256 < n / 256 ∨ m / 256 = n / 256 ∧ m % 256 < n % 256 := by
            rw [ih hm' hn', bigEndian_inj hm' hn', hlast]
        _ ↔ m < n := by omega

/-! ## Texts -/

theorem toNat_val_lt (c : Char) : c.val.toNat < 0x110000 := by
  have hvalid := c.valid
  simp only [UInt32.isValidChar, Nat.isValidChar] at hvalid
  omega

/-- A zero byte stands for the zero character only: in longer encodings all bytes are marked. -/
theorem zero_mem_utf8EncodeChar {c : Char} : 0 ∈ String.utf8EncodeChar c ↔ c = '\x00' := by
  have hzero : c = '\x00' ↔ c.val.toNat = 0 := by
    rw [Char.ext_iff, ← UInt32.toNat_inj]
    rfl
  have hbyte : (0 : UInt8) = UInt8.ofNat 0 := rfl
  rw [hzero, hbyte]
  simp only [String.utf8EncodeChar]
  generalize c.val.toNat = code
  split_ifs <;>
    simp only [List.mem_cons, List.not_mem_nil, or_false, ofNat_eq_ofNat_iff] <;> omega

theorem zero_mem_textBytes {text : String} : 0 ∈ textBytes text ↔ '\x00' ∈ text.toList := by
  rw [textBytes_eq_flatMap, List.mem_flatMap]
  constructor
  · rintro ⟨c, hmem, hzero⟩
    rwa [← zero_mem_utf8EncodeChar.1 hzero]
  · intro hmem
    exact ⟨_, hmem, zero_mem_utf8EncodeChar.2 rfl⟩

/-- Codes are compared digit by digit, in the digits that the longest encoding spreads them over. -/
theorem lt_of_digits {m n : Nat} (h : m < n) (hn : n < 0x110000) :
    m / 262144 % 8 < n / 262144 % 8 ∨ m / 262144 % 8 = n / 262144 % 8 ∧
      (m / 4096 % 64 < n / 4096 % 64 ∨ m / 4096 % 64 = n / 4096 % 64 ∧
        (m / 64 % 64 < n / 64 % 64 ∨ m / 64 % 64 = n / 64 % 64 ∧ m % 64 < n % 64)) := by
  have hdigits : ∀ code, code < 0x110000 → code = 262144 * (code / 262144 % 8) +
      4096 * (code / 4096 % 64) + 64 * (code / 64 % 64) + code % 64 := by
    omega
  have hbelow : ∀ code, code % 64 < 64 := fun code => Nat.mod_lt code (by decide)
  have hm' := hdigits m (by omega)
  have hn' := hdigits n hn
  have := hbelow (m / 4096)
  have := hbelow (n / 4096)
  have := hbelow (m / 64)
  have := hbelow (n / 64)
  have := hbelow m
  have := hbelow n
  -- With the digits as they are, the comparison is linear.
  generalize m / 262144 % 8 = a, n / 262144 % 8 = a', m / 4096 % 64 = b, n / 4096 % 64 = b',
    m / 64 % 64 = c, n / 64 % 64 = c', m % 64 = d, n % 64 = d' at *
  omega

/-- A greater character has a greater encoding, of which the other is not the front. -/
theorem utf8EncodeChar_append_lt {c d : Char} (h : c < d) (rest rest' : Bytes) :
    String.utf8EncodeChar c ++ rest < String.utf8EncodeChar d ++ rest' := by
  have hcode : c.val.toNat < d.val.toNat := h
  have hdigits := lt_of_digits hcode (toNat_val_lt d)
  have hbound := toNat_val_lt d
  simp only [String.utf8EncodeChar]
  generalize c.val.toNat = m, d.val.toNat = n at *
  -- The first byte tells the longer encoding; of two that are equally long, the digits decide.
  split_ifs <;>
    simp (disch := omega) only [List.cons_append, List.nil_append, List.cons_lt_cons_iff,
      ofNat_lt_ofNat_iff, ofNat_eq_ofNat_iff, Nat.mod_eq_of_lt] <;> omega

theorem flatMap_utf8EncodeChar_lt {xs ys : List Char} (h : xs < ys) :
    xs.flatMap String.utf8EncodeChar < ys.flatMap String.utf8EncodeChar := by
  induction xs generalizing ys with
  | nil =>
      cases ys with
      | nil => exact absurd h (by simp)
      | cons d ds =>
          rw [List.flatMap_cons]
          cases hencoded : String.utf8EncodeChar d with
          | nil => exact absurd hencoded (by simp)
          | cons byte rest => exact List.nil_lt_cons _ _
  | cons c cs ih =>
      cases ys with
      | nil => exact absurd h (by simp)
      | cons d ds =>
          rw [List.flatMap_cons, List.flatMap_cons]
          rcases List.cons_lt_cons_iff.1 h with hhead | ⟨rfl, htail⟩
          · exact utf8EncodeChar_append_lt hhead _ _
          · exact List.append_left_lt (ih htail)

/-- Texts stand in the order of their bytes. -/
theorem textBytes_lt_iff {a b : String} : textBytes a < textBytes b ↔ a < b := by
  have hforth : ∀ {a b : String}, a < b → textBytes a < textBytes b := by
    intro a b h
    rw [textBytes_eq_flatMap, textBytes_eq_flatMap]
    exact flatMap_utf8EncodeChar_lt (String.lt_iff.1 h)
  refine ⟨fun h => Decidable.byContradiction fun hnot => ?_, hforth⟩
  -- Otherwise the bytes would stand in the opposite order, or be the same.
  rw [← keyOrder_iff] at h
  by_cases hback : b < a
  · have hsame := KeyOrder.lt_trans h (keyOrder_iff.2 (hforth hback))
    rw [KeyOrder.lt_irrefl] at hsame
    cases hsame
  · obtain rfl : a = b := KeyOrder.eq_of_not_lt (decide_eq_false hnot) (decide_eq_false hback)
    rw [KeyOrder.lt_irrefl] at h
    cases h

end RecordStore
