import Mathlib.Data.List.Nodup
import RecordStore.SortedMap

/-!
# Look-ups and entries of sorted maps

Each key of a sorted map stands once, so what is looked up under a key is exactly what stands beside
it (`SortedMap.find?_eq_some_iff`), and look-ups go through filtering and mapping.

Changes are laid over a map one after the other (`SortedMap.layOver`).  When no two of them change
the same key, their order does not matter for look-ups (`SortedMap.find?_foldl_layOver`); otherwise the
last change of a key decides (`SortedMap.find?_foldl_layOver_reverse`).
-/

namespace RecordStore

namespace Entries

variable {κ α β : Type} [DecidableEq κ]

theorem find?_cons (key k : κ) (v : α) (rest : List (κ × α)) :
    find? key ((k, v) :: rest) = if key = k then some v else find? key rest := rfl

theorem mem_of_find? {key : κ} {value : α} {entries : List (κ × α)}
    (h : find? key entries = some value) : (key, value) ∈ entries := by
  induction entries with
  | nil => cases h
  | cons head rest ih =>
      obtain ⟨k, v⟩ := head
      rw [find?_cons] at h
      by_cases hk : key = k
      · rw [if_pos hk] at h
        cases h
        rw [hk]
        exact List.mem_cons_self
      · rw [if_neg hk] at h
        exact List.mem_cons_of_mem _ (ih h)

theorem find?_eq_none_iff {key : κ} {entries : List (κ × α)} :
    find? key entries = none ↔ key ∉ entries.map (·.1) := by
  induction entries with
  | nil => simp
  | cons head rest ih =>
      rcases head with ⟨k, v⟩
      rw [find?_cons, List.map_cons, List.mem_cons, not_or, ← ih]
      by_cases hk : key = k
      · simp [hk]
      · simp [hk]

theorem find?_eq_none_of_not_mem {key : κ} {entries : List (κ × α)}
    (h : ∀ value, (key, value) ∉ entries) : find? key entries = none := by
  cases hfind : find? key entries with
  | none => rfl
  | some value => exact absurd (mem_of_find? hfind) (h value)

theorem find?_append (key : κ) (first second : List (κ × α)) :
    find? key (first ++ second) = (find? key first).or (find? key second) := by
  induction first with
  | nil => rfl
  | cons head rest ih =>
      rw [List.cons_append, find?_cons, find?_cons, ih]
      by_cases hk : key = head.1
      · rw [if_pos hk, if_pos hk]
        rfl
      · rw [if_neg hk, if_neg hk]

/-- Renaming some of the entries and leaving out the others keeps what is found, when exactly the
entries of one key get the other. -/
theorem find?_filterMap {κ' : Type} [DecidableEq κ'] {rename : κ × α → Option (κ' × α)} {key : κ}
    {key' : κ'} (hvalue : ∀ entry renamed, rename entry = some renamed → renamed.2 = entry.2)
    (hkey : ∀ entry, entry.1 = key ↔ ∃ renamed, rename entry = some renamed ∧ renamed.1 = key')
    (entries : List (κ × α)) : find? key' (entries.filterMap rename) = find? key entries := by
  induction entries with
  | nil => rfl
  | cons entry rest ih =>
      rw [List.filterMap_cons, find?_cons]
      cases hrenamed : rename entry with
      | none =>
          have hother : ¬key = entry.1 := by
            intro heq
            rcases (hkey entry).1 heq.symm with ⟨renamed, hsome, -⟩
            rw [hrenamed] at hsome
            cases hsome
          rw [if_neg hother]
          exact ih
      | some renamed =>
          show find? key' (renamed :: rest.filterMap rename) = _
          rw [find?_cons, ih]
          by_cases hsame : key = entry.1
          · rcases (hkey entry).1 hsame.symm with ⟨other, hsome, hother⟩
            rw [hrenamed] at hsome
            cases hsome
            rw [if_pos hsame, if_pos hother.symm, hvalue entry renamed hrenamed]
          · have hother : ¬key' = renamed.1 := fun heq =>
              hsame ((hkey entry).2 ⟨renamed, hrenamed, heq.symm⟩).symm
            rw [if_neg hsame, if_neg hother]

theorem find?_map (f : α → β) (key : κ) (entries : List (κ × α)) :
    find? key (entries.map fun entry => (entry.1, f entry.2)) = (find? key entries).map f := by
  induction entries with
  | nil => rfl
  | cons head rest ih =>
      obtain ⟨k, v⟩ := head
      rw [List.map_cons, find?_cons, find?_cons, ih]
      by_cases hk : key = k
      · rw [if_pos hk, if_pos hk]
        rfl
      · rw [if_neg hk, if_neg hk]

variable [KeyOrder κ]

omit [DecidableEq κ] in
theorem Sorted.nodup_keys {entries : List (κ × α)} (hsorted : Sorted entries) :
    (entries.map (·.1)).Nodup := by
  rw [List.nodup_iff_pairwise_ne, List.pairwise_map]
  refine hsorted.imp ?_
  rintro ⟨k, v⟩ ⟨k', v'⟩ hlt rfl
  simp [KeyOrder.lt_irrefl] at hlt

omit [DecidableEq κ] in
/-- What stands from an entry on does not come before it. -/
theorem Sorted.lt_eq_false_of_mem {before rest : List (κ × α)} {first entry : κ × α}
    (hsorted : Sorted (before ++ first :: rest)) (hmem : entry ∈ first :: rest) :
    KeyOrder.lt entry.1 first.1 = false := by
  rcases List.mem_cons.1 hmem with rfl | hlater
  · exact KeyOrder.lt_irrefl entry.1
  · have hlt : KeyOrder.lt first.1 entry.1 = true :=
      (List.pairwise_cons.1 (List.pairwise_append.1 hsorted).2.1).1 entry hlater
    by_contra hback
    have hself := KeyOrder.lt_trans hlt (Bool.not_eq_false _ ▸ hback)
    simp [KeyOrder.lt_irrefl] at hself

theorem length_insert_le (key : κ) (value : α) (entries : List (κ × α)) :
    (insert key value entries).length ≤ entries.length + 1 := by
  induction entries with
  | nil => exact Nat.le_refl 1
  | cons head rest ih =>
      obtain ⟨k, v⟩ := head
      unfold insert
      split
      · exact Nat.le_succ _
      · split
        · exact Nat.le_refl _
        · exact Nat.succ_le_succ ih

theorem length_foldl_insert_le (pairs entries : List (κ × α)) :
    (pairs.foldl (fun entries pair => insert pair.1 pair.2 entries) entries).length ≤
      entries.length + pairs.length := by
  induction pairs generalizing entries with
  | nil => exact Nat.le_refl _
  | cons pair rest ih =>
      have hfirst := length_insert_le pair.1 pair.2 entries
      have hrest := ih (insert pair.1 pair.2 entries)
      rw [List.foldl_cons, List.length_cons]
      omega

/-- Every key of a list of pairs is there, whichever of its pairs wins. -/
theorem isSome_find?_ofList {key : κ} {pairs : List (κ × α)} (hkey : key ∈ pairs.map (·.1)) :
    (find? key (ofList pairs)).isSome = true := by
  have hfold : ∀ start : List (κ × α), key ∈ pairs.map (·.1) ∨ (find? key start).isSome = true →
      (find? key (pairs.foldl (fun entries pair => insert pair.1 pair.2 entries) start)).isSome =
        true := by
    clear hkey
    induction pairs with
    | nil =>
        rintro start (hmem | hstart)
        · cases hmem
        · exact hstart
    | cons pair rest ih =>
        intro start hstart
        refine ih _ ?_
        rw [find?_insert]
        by_cases hsame : key = pair.1
        · rw [if_pos hsame]
          exact Or.inr rfl
        · rw [if_neg hsame]
          rcases hstart with hmem | hstart
          · rcases List.mem_cons.1 hmem with heq | hrest
            · exact absurd heq hsame
            · exact Or.inl hrest
          · exact Or.inr hstart
  exact hfold [] (Or.inl hkey)

theorem Sorted.find?_of_mem {key : κ} {value : α} {entries : List (κ × α)}
    (hsorted : Sorted entries) (h : (key, value) ∈ entries) : find? key entries = some value := by
  induction entries with
  | nil => cases h
  | cons head rest ih =>
      obtain ⟨k, v⟩ := head
      have hhead := (List.pairwise_cons.1 hsorted).1
      rw [find?_cons]
      rcases List.mem_cons.1 h with heq | hmem
      · cases heq
        exact if_pos rfl
      · have hne : ¬key = k := by
          rintro rfl
          have hlt := hhead (key, value) hmem
          simp [KeyOrder.lt_irrefl] at hlt
        rw [if_neg hne]
        exact ih (List.pairwise_cons.1 hsorted).2 hmem

theorem Sorted.find?_eq_some_iff {key : κ} {value : α} {entries : List (κ × α)}
    (hsorted : Sorted entries) : find? key entries = some value ↔ (key, value) ∈ entries :=
  ⟨mem_of_find?, hsorted.find?_of_mem⟩

theorem Sorted.find?_filter {entries : List (κ × α)} (hsorted : Sorted entries)
    (test : κ × α → Bool) (key : κ) :
    find? key (entries.filter test) = (find? key entries).filter fun v => test (key, v) := by
  have hfiltered : Sorted (entries.filter test) := hsorted.filter _
  apply Option.ext
  intro v
  rw [hfiltered.find?_eq_some_iff, List.mem_filter, Option.filter_eq_some_iff,
    hsorted.find?_eq_some_iff]

end Entries

namespace SortedMap

variable {κ α : Type} [DecidableEq κ] [KeyOrder κ]

theorem find?_eq_some_iff {map : SortedMap κ α} {key : κ} {value : α} :
    map.find? key = some value ↔ (key, value) ∈ map.toList :=
  map.sorted.find?_eq_some_iff

theorem find?_insert_eq_some {map : SortedMap κ α} {key other : κ} {value found : α} :
    (map.insert key value).find? other = some found ↔
      other = key ∧ found = value ∨ other ≠ key ∧ map.find? other = some found := by
  rw [find?_insert]
  by_cases hsame : other = key
  · simp [hsame, eq_comm]
  · simp [hsame]

theorem find?_erase_eq_some {map : SortedMap κ α} {key other : κ} {found : α} :
    (map.erase key).find? other = some found ↔ other ≠ key ∧ map.find? other = some found := by
  rw [find?_erase]
  by_cases hsame : other = key <;> simp [hsame]

/-- Storing what is there already changes nothing. -/
theorem insert_of_find? {map : SortedMap κ α} {key : κ} {value : α} (h : map.find? key = some value) :
    map.insert key value = map := by
  refine ext_find? fun other => ?_
  rw [find?_insert]
  by_cases hsame : other = key
  · rw [if_pos hsame, hsame, h]
  · rw [if_neg hsame]

theorem erase_of_find? {map : SortedMap κ α} {key : κ} (h : map.find? key = none) :
    map.erase key = map := by
  refine ext_find? fun other => ?_
  rw [find?_erase]
  by_cases hsame : other = key
  · rw [if_pos hsame, hsame, h]
  · rw [if_neg hsame]

theorem find?_filter (map : SortedMap κ α) (test : κ → α → Bool) (key : κ) :
    (map.filter test).find? key = (map.find? key).filter (test key) :=
  map.sorted.find?_filter (fun entry => test entry.1 entry.2) key

theorem find?_mapValues (map : SortedMap κ α) (f : α → α) (key : κ) :
    (map.mapValues f).find? key = (map.find? key).map f :=
  Entries.find?_map f key map.toList

theorem contains_eq_false_iff {map : SortedMap κ α} {key : κ} :
    map.contains key = false ↔ map.find? key = none := by
  simp [contains]

theorem find?_eq_none_of_isEmpty {map : SortedMap κ α} (h : map.isEmpty = true) (key : κ) :
    map.find? key = none := by
  have hnil : map.toList = [] := List.isEmpty_iff.1 h
  unfold find?
  rw [hnil]
  rfl

/-! ## Changes laid over a map -/

/-- Stores a value under a key, or removes the key. -/
def layOver (map : SortedMap κ α) (change : κ × Option α) : SortedMap κ α :=
  match change.2 with
  | some value => map.insert change.1 value
  | none => map.erase change.1

theorem find?_layOver (map : SortedMap κ α) (change : κ × Option α) (key : κ) :
    (map.layOver change).find? key = if key = change.1 then change.2 else map.find? key := by
  rcases change with ⟨k, value | _⟩
  · exact find?_erase map k key
  · exact find?_insert map k key _

/-- After changes of different keys, a key holds what it was changed to, or what it held before. -/
theorem find?_foldl_layOver {changes : List (κ × Option α)} (hdistinct : (changes.map (·.1)).Nodup)
    (map : SortedMap κ α) (key : κ) :
    (changes.foldl layOver map).find? key =
      (Entries.find? key changes).getD (map.find? key) := by
  induction changes generalizing map with
  | nil => rfl
  | cons change rest ih =>
      rcases change with ⟨k, value⟩
      rcases List.nodup_cons.1 hdistinct with ⟨hnew, hrest⟩
      rw [List.foldl_cons, ih hrest, find?_layOver, Entries.find?_cons]
      by_cases hk : key = k
      · have hlater : Entries.find? k rest = none := Entries.find?_eq_none_iff.2 hnew
        rw [hk, if_pos rfl, if_pos rfl, hlater]
        rfl
      · rw [if_neg hk, if_neg hk]

/-- Of all changes of a key the last one decides. -/
theorem find?_foldl_layOver_reverse (changes : List (κ × Option α)) (map : SortedMap κ α) (key : κ) :
    (changes.foldl layOver map).find? key =
      (Entries.find? key changes.reverse).getD (map.find? key) := by
  induction changes generalizing map with
  | nil => rfl
  | cons change rest ih =>
      rw [List.foldl_cons, ih, find?_layOver, List.reverse_cons, Entries.find?_append]
      cases Entries.find? key rest.reverse with
      | some later => rfl
      | none =>
          rw [Entries.find?_cons]
          by_cases hkey : key = change.1
          · rw [if_pos hkey, if_pos hkey]
            rfl
          · rw [if_neg hkey, if_neg hkey]
            rfl

end SortedMap

end RecordStore
