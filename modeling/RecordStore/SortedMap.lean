/-!
# Sorted maps

Finite maps whose entries stand in strictly increasing key order, each key once.

The order of the keys is the class `KeyOrder`: a decidable strict total order.  The operations are
first given on plain lists of entries (namespace `Entries`), because a recursive value type stores
its mappings as such a list; `SortedMap` is a list of entries together with the proof that it is
sorted.  The laws of look-up (`find?_insert`, `find?_erase`) need no sortedness; sortedness makes two
maps with the same look-ups equal (`SortedMap.ext_find?`).
-/

namespace RecordStore

/-- A strict total order on keys that can be decided. -/
class KeyOrder (κ : Type) where
  /-- Whether the first key stands before the second. -/
  lt : κ → κ → Bool
  lt_irrefl (a : κ) : lt a a = false
  lt_trans {a b c : κ} : lt a b = true → lt b c = true → lt a c = true
  eq_of_not_lt {a b : κ} : lt a b = false → lt b a = false → a = b

/-! ## Orders of the key types -/

/-- Numbers, smaller first. -/
instance : KeyOrder Nat where
  lt a b := decide (a < b)
  lt_irrefl a := by simp
  lt_trans h₁ h₂ := by simp only [decide_eq_true_eq] at *; omega
  eq_of_not_lt h₁ h₂ := by simp only [decide_eq_false_iff_not] at *; omega

/-- Bytes, smaller first. -/
instance : KeyOrder UInt8 where
  lt a b := decide (a.toNat < b.toNat)
  lt_irrefl a := by simp
  lt_trans h₁ h₂ := by simp only [decide_eq_true_eq] at *; omega
  eq_of_not_lt h₁ h₂ := by
    simp only [decide_eq_false_iff_not] at *
    exact UInt8.toNat_inj.1 (by omega)

/-- Unsigned 64-bit numbers, smaller first. -/
instance : KeyOrder UInt64 where
  lt a b := decide (a.toNat < b.toNat)
  lt_irrefl a := by simp
  lt_trans h₁ h₂ := by simp only [decide_eq_true_eq] at *; omega
  eq_of_not_lt h₁ h₂ := by
    simp only [decide_eq_false_iff_not] at *
    exact UInt64.toNat_inj.1 (by omega)

/-- Signed 64-bit numbers, smaller first. -/
instance : KeyOrder Int64 where
  lt a b := decide (a.toInt < b.toInt)
  lt_irrefl a := by simp
  lt_trans h₁ h₂ := by simp only [decide_eq_true_eq] at *; omega
  eq_of_not_lt h₁ h₂ := by
    simp only [decide_eq_false_iff_not] at *
    exact Int64.toInt_inj.1 (by omega)

/-- Texts by code points, which is also the order of their UTF-8 bytes. -/
instance : KeyOrder String where
  lt a b := decide (a < b)
  lt_irrefl a := by simp
  lt_trans h₁ h₂ := by
    simp only [decide_eq_true_eq] at *
    exact String.lt_trans h₁ h₂
  eq_of_not_lt h₁ h₂ := by
    simp only [decide_eq_false_iff_not] at *
    exact String.le_antisymm (String.not_lt.1 h₂) (String.not_lt.1 h₁)

/-- Whether the first list stands before the second: the first place at which they differ decides,
and a list stands before its extensions. -/
def listBefore {κ : Type} [DecidableEq κ] [KeyOrder κ] : List κ → List κ → Bool
  | [], [] => false
  | [], _ :: _ => true
  | _ :: _, [] => false
  | a :: as, b :: bs => if a = b then listBefore as bs else KeyOrder.lt a b

/-- Lists in lexicographic order. -/
instance {κ : Type} [DecidableEq κ] [KeyOrder κ] : KeyOrder (List κ) where
  lt := listBefore
  lt_irrefl a := by
    induction a with
    | nil => rfl
    | cons a as ih => simpa [listBefore] using ih
  lt_trans {a b c} h₁ h₂ := by
    induction a generalizing b c with
    | nil =>
        -- The empty list stands before every other one.
        cases c with
        | nil => cases b <;> simp [listBefore] at h₁ h₂
        | cons c cs => rfl
    | cons a as ih =>
        cases b with
        | nil => simp [listBefore] at h₁
        | cons b bs =>
            cases c with
            | nil => simp [listBefore] at h₂
            | cons c cs =>
                simp only [listBefore] at h₁ h₂ ⊢
                -- Whichever pair of heads differs first decides the outer pair too.
                by_cases hab : a = b
                · by_cases hbc : b = c
                  · subst hab
                    subst hbc
                    simp only [if_true] at h₁ h₂ ⊢
                    exact ih h₁ h₂
                  · subst hab
                    simp only [hbc, if_false] at h₂ ⊢
                    exact h₂
                · by_cases hbc : b = c
                  · subst hbc
                    simp only [hab, if_false] at h₁ ⊢
                    exact h₁
                  · simp only [hab, hbc, if_false] at h₁ h₂
                    have hac := KeyOrder.lt_trans h₁ h₂
                    have hne : a ≠ c := by
                      rintro rfl
                      simp [KeyOrder.lt_irrefl] at hac
                    simpa [hne] using hac
  eq_of_not_lt {a b} h₁ h₂ := by
    induction a generalizing b with
    | nil =>
        cases b with
        | nil => rfl
        | cons b bs => simp [listBefore] at h₁
    | cons a as ih =>
        cases b with
        | nil => simp [listBefore] at h₂
        | cons b bs =>
            simp only [listBefore] at h₁ h₂
            -- Different heads would decide one way or the other.
            by_cases hab : a = b
            · subst hab
              simp only [if_true] at h₁ h₂
              rw [ih h₁ h₂]
            · have hba : ¬b = a := fun h => hab h.symm
              simp only [hab, hba, if_false] at h₁ h₂
              exact absurd (KeyOrder.eq_of_not_lt h₁ h₂) hab

/-- Pairs: the first components decide unless they are equal. -/
instance {κ ι : Type} [DecidableEq κ] [KeyOrder κ] [KeyOrder ι] : KeyOrder (κ × ι) where
  lt a b := if a.1 = b.1 then KeyOrder.lt a.2 b.2 else KeyOrder.lt a.1 b.1
  lt_irrefl a := by simp [KeyOrder.lt_irrefl]
  lt_trans {a b c} h₁ h₂ := by
    obtain ⟨a, i⟩ := a
    obtain ⟨b, j⟩ := b
    obtain ⟨c, k⟩ := c
    simp only at h₁ h₂ ⊢
    by_cases hab : a = b
    · by_cases hbc : b = c
      · subst hab
        subst hbc
        simp only [if_true] at h₁ h₂ ⊢
        exact KeyOrder.lt_trans h₁ h₂
      · subst hab
        simp only [hbc, if_false] at h₂ ⊢
        exact h₂
    · by_cases hbc : b = c
      · subst hbc
        simp only [hab, if_false] at h₁ ⊢
        exact h₁
      · simp only [hab, hbc, if_false] at h₁ h₂
        have hac := KeyOrder.lt_trans h₁ h₂
        have hne : a ≠ c := by
          rintro rfl
          simp [KeyOrder.lt_irrefl] at hac
        simpa [hne] using hac
  eq_of_not_lt {a b} h₁ h₂ := by
    obtain ⟨a, i⟩ := a
    obtain ⟨b, j⟩ := b
    simp only at h₁ h₂
    by_cases hab : a = b
    · subst hab
      simp only [if_true] at h₁ h₂
      rw [KeyOrder.eq_of_not_lt h₁ h₂]
    · have hba : ¬b = a := fun h => hab h.symm
      simp only [hab, hba, if_false] at h₁ h₂
      exact absurd (KeyOrder.eq_of_not_lt h₁ h₂) hab

/-! ## Lists of entries -/

namespace Entries

variable {κ α : Type} [DecidableEq κ]

/-- The value stored under a key. -/
def find? (key : κ) : List (κ × α) → Option α
  | [] => none
  | (k, v) :: rest => if key = k then some v else find? key rest

/-- Removes what is stored under a key. -/
def erase (key : κ) : List (κ × α) → List (κ × α)
  | [] => []
  | (k, v) :: rest => if key = k then erase key rest else (k, v) :: erase key rest

@[simp] theorem find?_nil (key : κ) : find? key ([] : List (κ × α)) = none := rfl

theorem find?_erase (key other : κ) (entries : List (κ × α)) :
    find? other (erase key entries) = if other = key then none else find? other entries := by
  induction entries with
  | nil => simp [erase]
  | cons entry rest ih =>
      obtain ⟨k, v⟩ := entry
      by_cases hk : key = k
      · subst hk
        by_cases ho : other = key
        · simpa [erase, ho] using ih
        · simpa [erase, find?, ho] using ih
      · by_cases ho : other = k
        · have hok : ¬k = key := fun h => hk h.symm
          simp [erase, find?, hk, ho, hok]
        · simpa [erase, find?, hk, ho] using ih

theorem mem_of_mem_erase {key : κ} {entry : κ × α} {entries : List (κ × α)}
    (h : entry ∈ erase key entries) : entry ∈ entries := by
  induction entries with
  | nil => simp [erase] at h
  | cons head rest ih =>
      obtain ⟨k, v⟩ := head
      by_cases hk : key = k
      · simp only [erase, hk, if_true] at h
        exact List.mem_cons_of_mem _ (ih (by rw [hk]; exact h))
      · simp only [erase, hk, if_false, List.mem_cons] at h ⊢
        rcases h with h | h
        · exact Or.inl h
        · exact Or.inr (ih h)

variable [KeyOrder κ]

/-- Every key stands before all keys that follow it. -/
def Sorted (entries : List (κ × α)) : Prop :=
  entries.Pairwise fun a b => KeyOrder.lt a.1 b.1 = true

/-- Stores a value under a key: in the place of the value it replaces, else before the first
larger key. -/
def insert (key : κ) (value : α) : List (κ × α) → List (κ × α)
  | [] => [(key, value)]
  | (k, v) :: rest =>
      if key = k then (key, value) :: rest
      else if KeyOrder.lt key k then (key, value) :: (k, v) :: rest
      else (k, v) :: insert key value rest

/-- The entries of a list of pairs; the last pair of a key wins. -/
def ofList (pairs : List (κ × α)) : List (κ × α) :=
  pairs.foldl (fun entries pair => insert pair.1 pair.2 entries) []

theorem find?_insert (key other : κ) (value : α) (entries : List (κ × α)) :
    find? other (insert key value entries) =
      if other = key then some value else find? other entries := by
  induction entries with
  | nil => simp [insert, find?]
  | cons entry rest ih =>
      obtain ⟨k, v⟩ := entry
      by_cases hk : key = k
      · subst hk
        by_cases ho : other = key <;> simp [insert, find?, ho]
      · by_cases hlt : KeyOrder.lt key k = true
        · simp [insert, find?, hk, hlt]
        · by_cases ho : other = k
          · have hok : ¬k = key := fun h => hk h.symm
            simp [insert, find?, hk, hlt, ho, hok]
          · simp [insert, find?, hk, hlt, ho, ih]

theorem mem_of_mem_insert {key : κ} {value : α} {entry : κ × α} {entries : List (κ × α)}
    (h : entry ∈ insert key value entries) : entry = (key, value) ∨ entry ∈ entries := by
  induction entries with
  | nil => simpa [insert] using h
  | cons head rest ih =>
      obtain ⟨k, v⟩ := head
      by_cases hk : key = k
      · simp only [insert, hk, if_true, List.mem_cons] at h ⊢
        rcases h with h | h
        · exact Or.inl h
        · exact Or.inr (Or.inr h)
      · by_cases hlt : KeyOrder.lt key k = true
        · simpa [insert, hk, hlt] using h
        · have hmem : entry = (k, v) ∨ entry ∈ insert key value rest := by
            simpa [insert, hk, hlt] using h
          rcases hmem with hmem | hmem
          · exact Or.inr (List.mem_cons.2 (Or.inl hmem))
          · rcases ih hmem with hmem | hmem
            · exact Or.inl hmem
            · exact Or.inr (List.mem_cons.2 (Or.inr hmem))

theorem Sorted.insert {entries : List (κ × α)} (h : Sorted entries) (key : κ) (value : α) :
    Sorted (Entries.insert key value entries) := by
  induction entries with
  | nil => simp [Entries.insert, Sorted]
  | cons head rest ih =>
      obtain ⟨k, v⟩ := head
      have hhead := (List.pairwise_cons.1 h).1
      have hrest : Sorted rest := (List.pairwise_cons.1 h).2
      by_cases hk : key = k
      · subst hk
        simp only [Entries.insert, if_true]
        exact List.pairwise_cons.2 ⟨hhead, hrest⟩
      · by_cases hlt : KeyOrder.lt key k = true
        · simp only [Entries.insert, hk, hlt, if_false, if_true]
          refine List.pairwise_cons.2 ⟨?_, h⟩
          intro entry hentry
          rcases List.mem_cons.1 hentry with rfl | hentry
          · exact hlt
          · exact KeyOrder.lt_trans hlt (hhead entry hentry)
        · have hlt' : KeyOrder.lt key k = false := by simpa using hlt
          simp only [Entries.insert, hk, hlt', if_false, Bool.false_eq_true]
          refine List.pairwise_cons.2 ⟨?_, ih hrest⟩
          intro entry hentry
          rcases mem_of_mem_insert hentry with rfl | hentry
          · cases hkk : KeyOrder.lt k key with
            | true => rfl
            | false => exact absurd (KeyOrder.eq_of_not_lt hlt' hkk) hk
          · exact hhead entry hentry

theorem Sorted.erase {entries : List (κ × α)} (h : Sorted entries) (key : κ) :
    Sorted (Entries.erase key entries) := by
  induction entries with
  | nil => simp [Entries.erase, Sorted]
  | cons head rest ih =>
      obtain ⟨k, v⟩ := head
      have hhead := (List.pairwise_cons.1 h).1
      have hrest : Sorted rest := (List.pairwise_cons.1 h).2
      by_cases hk : key = k
      · simpa [Entries.erase, hk] using (hk ▸ ih hrest)
      · simp only [Entries.erase, hk, if_false]
        exact List.pairwise_cons.2
          ⟨fun entry hentry => hhead entry (mem_of_mem_erase hentry), ih hrest⟩

theorem sorted_ofList (pairs : List (κ × α)) : Sorted (ofList pairs) := by
  suffices h : ∀ entries : List (κ × α), Sorted entries →
      Sorted (pairs.foldl (fun entries pair => insert pair.1 pair.2 entries) entries) from
    h [] List.Pairwise.nil
  induction pairs with
  | nil => exact fun _ h => h
  | cons pair rest ih => exact fun entries h => ih _ (h.insert pair.1 pair.2)

theorem find?_eq_none_of_forall {key : κ} {entries : List (κ × α)}
    (h : ∀ entry ∈ entries, KeyOrder.lt key entry.1 = true) : find? key entries = none := by
  induction entries with
  | nil => rfl
  | cons head rest ih =>
      obtain ⟨k, v⟩ := head
      have hlt : KeyOrder.lt key k = true := h (k, v) List.mem_cons_self
      have hne : ¬key = k := by
        rintro rfl
        simp [KeyOrder.lt_irrefl] at hlt
      simpa [find?, hne] using ih fun entry hentry => h entry (List.mem_cons_of_mem _ hentry)

/-- Sorted lists of entries with the same look-ups are equal. -/
theorem Sorted.ext {a b : List (κ × α)} (ha : Sorted a) (hb : Sorted b)
    (h : ∀ key, find? key a = find? key b) : a = b := by
  induction a generalizing b with
  | nil =>
      cases b with
      | nil => rfl
      | cons head rest =>
          obtain ⟨k, v⟩ := head
          simpa [find?] using h k
  | cons head rest ih =>
      obtain ⟨k, v⟩ := head
      cases b with
      | nil => simpa [find?] using h k
      | cons head' rest' =>
          obtain ⟨k', v'⟩ := head'
          have hhead := (List.pairwise_cons.1 ha).1
          have hhead' := (List.pairwise_cons.1 hb).1
          have hkk : k = k' := by
            by_cases hk : k = k'
            · exact hk
            · have hk' : ¬k' = k := fun e => hk e.symm
              cases hlt : KeyOrder.lt k k' with
              | true =>
                  have hnone : find? k ((k', v') :: rest') = none := by
                    refine find?_eq_none_of_forall ?_
                    intro entry hentry
                    rcases List.mem_cons.1 hentry with rfl | hentry
                    · exact hlt
                    · exact KeyOrder.lt_trans hlt (hhead' entry hentry)
                  have hk := h k
                  rw [hnone] at hk
                  simp [find?] at hk
              | false =>
                  have hlt' : KeyOrder.lt k' k = true := by
                    cases hlt' : KeyOrder.lt k' k with
                    | true => rfl
                    | false => exact absurd (KeyOrder.eq_of_not_lt hlt hlt') hk
                  have hnone : find? k' ((k, v) :: rest) = none := by
                    refine find?_eq_none_of_forall ?_
                    intro entry hentry
                    rcases List.mem_cons.1 hentry with rfl | hentry
                    · exact hlt'
                    · exact KeyOrder.lt_trans hlt' (hhead entry hentry)
                  have hk := h k'
                  rw [hnone] at hk
                  simp [find?] at hk
          subst hkk
          have hv : v = v' := by simpa [find?] using h k
          subst hv
          have hrest : rest = rest' := by
            refine ih (List.pairwise_cons.1 ha).2 (List.pairwise_cons.1 hb).2 ?_
            intro key
            by_cases hkey : key = k
            · subst hkey
              rw [find?_eq_none_of_forall hhead, find?_eq_none_of_forall hhead']
            · simpa [find?, hkey] using h key
          rw [hrest]

end Entries

/-! ## Maps -/

/-- A finite map with its entries in key order. -/
structure SortedMap (κ α : Type) [DecidableEq κ] [KeyOrder κ] where
  /-- The entries in key order. -/
  toList : List (κ × α)
  sorted : Entries.Sorted toList

namespace SortedMap

variable {κ α : Type} [DecidableEq κ] [KeyOrder κ]

/-- The map without entries. -/
def empty : SortedMap κ α := ⟨[], List.Pairwise.nil⟩

instance : EmptyCollection (SortedMap κ α) := ⟨empty⟩

instance : Inhabited (SortedMap κ α) := ⟨empty⟩

/-- The value stored under a key. -/
def find? (map : SortedMap κ α) (key : κ) : Option α :=
  Entries.find? key map.toList

/-- Whether a value is stored under a key. -/
def contains (map : SortedMap κ α) (key : κ) : Bool :=
  (map.find? key).isSome

/-- Stores a value under a key, replacing what was stored there. -/
def insert (map : SortedMap κ α) (key : κ) (value : α) : SortedMap κ α :=
  ⟨Entries.insert key value map.toList, map.sorted.insert key value⟩

/-- Removes what is stored under a key. -/
def erase (map : SortedMap κ α) (key : κ) : SortedMap κ α :=
  ⟨Entries.erase key map.toList, map.sorted.erase key⟩

/-- The entries that pass a test. -/
def filter (map : SortedMap κ α) (test : κ → α → Bool) : SortedMap κ α :=
  ⟨map.toList.filter fun entry => test entry.1 entry.2, map.sorted.filter _⟩

/-- The map with every value replaced by what a function makes of it. -/
def mapValues (map : SortedMap κ α) (f : α → α) : SortedMap κ α :=
  ⟨map.toList.map fun entry => (entry.1, f entry.2), by
    unfold Entries.Sorted
    rw [List.pairwise_map]
    exact map.sorted⟩

/-- The map of a list of pairs; the last pair of a key wins. -/
def ofList (pairs : List (κ × α)) : SortedMap κ α :=
  ⟨Entries.ofList pairs, Entries.sorted_ofList pairs⟩

/-- The keys in order. -/
def keys (map : SortedMap κ α) : List κ :=
  map.toList.map (·.1)

/-- Whether nothing is stored. -/
def isEmpty (map : SortedMap κ α) : Bool :=
  map.toList.isEmpty

@[simp] theorem find?_empty (key : κ) : (∅ : SortedMap κ α).find? key = none := rfl

theorem find?_insert (map : SortedMap κ α) (key other : κ) (value : α) :
    (map.insert key value).find? other = if other = key then some value else map.find? other :=
  Entries.find?_insert key other value map.toList

theorem find?_erase (map : SortedMap κ α) (key other : κ) :
    (map.erase key).find? other = if other = key then none else map.find? other :=
  Entries.find?_erase key other map.toList

/-- Maps with the same look-ups are equal. -/
theorem ext_find? {a b : SortedMap κ α} (h : ∀ key, a.find? key = b.find? key) : a = b := by
  obtain ⟨a, ha⟩ := a
  obtain ⟨b, hb⟩ := b
  have hab : a = b := ha.ext hb h
  subst hab
  rfl

end SortedMap

/-- A set of names, in order. -/
abbrev NameSet : Type := SortedMap String Unit

end RecordStore
