import Mathlib.Data.List.Nodup

/-!
# Lists with distinct names

In a list whose members have distinct names, a search by name finds exactly the member of that name.
-/

namespace RecordStore

variable {α : Type} {name : α → String} {xs : List α}

theorem find?_name_of_mem (hdistinct : (xs.map name).Nodup) {x : α} (hmem : x ∈ xs) :
    xs.find? (fun other => name other == name x) = some x := by
  cases hfind : xs.find? fun other => name other == name x with
  | none =>
      have habsent := List.find?_eq_none.1 hfind x hmem
      simp at habsent
  | some other =>
      have hother : other ∈ xs := List.mem_of_find?_eq_some hfind
      have hname : name other = name x := by
        simpa using List.find?_some hfind
      rw [List.inj_on_of_nodup_map hdistinct hother hmem hname]

theorem find?_name_eq_some_iff (hdistinct : (xs.map name).Nodup) {key : String} {x : α} :
    xs.find? (fun other => name other == key) = some x ↔ x ∈ xs ∧ name x = key := by
  constructor
  · intro h
    exact ⟨List.mem_of_find?_eq_some h, by simpa using List.find?_some h⟩
  · rintro ⟨hmem, rfl⟩
    exact find?_name_of_mem hdistinct hmem

end RecordStore
