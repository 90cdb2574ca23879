import Mathlib.Data.List.Infix
import Mathlib.Data.String.Basic
import RecordStore.Text.Split

/-!
# Where texts are split

A text is split at the first place where the separator stands: the part before is the one in which the
separator does not occur.  For separators whose first character does not come again in them this says
all (`splitFirst?_eq_some_iff`), because such a separator cannot begin in the part before and end
beyond it.
-/

namespace RecordStore

section Characters

variable {s : Char} {ss before after text : List Char}

/-- A separator that begins in the part before is contained in it. -/
theorem infix_of_prefix_append (hs : s ∉ ss) (hbefore : before ≠ [])
    (h : s :: ss <+: before ++ (s :: ss ++ after)) : s :: ss <:+: before := by
  rcases List.prefix_or_prefix_of_prefix h (List.prefix_append before _) with hwithin | hbeyond
  · exact hwithin.isInfix
  · obtain ⟨rest, hrest⟩ := hbeyond
    cases rest with
    | nil =>
        rw [List.append_nil] at hrest
        rw [hrest]
    | cons c rest =>
        -- What is left of the separator begins like the separator itself.
        rw [← hrest, List.prefix_append_right_inj, hrest] at h
        obtain rfl : c = s := (List.cons_prefix_cons.1 h).1
        obtain ⟨first, others, rfl⟩ := List.exists_cons_of_ne_nil hbefore
        obtain ⟨-, rfl⟩ := List.cons.inj hrest
        exact absurd (List.mem_append_right _ List.mem_cons_self) hs

theorem splitChars?_eq_some_iff (hs : s ∉ ss) :
    splitChars? (s :: ss) text = some (before, after) ↔
      text = before ++ (s :: ss ++ after) ∧ ¬ s :: ss <:+: before := by
  induction text generalizing before with
  | nil => simp [splitChars?]
  | cons c rest ih =>
      unfold splitChars?
      by_cases hfront : (s :: ss).isPrefixOf (c :: rest) = true
      · -- The separator stands at the front.
        rw [if_pos hfront]
        obtain ⟨behind, hbehind⟩ := List.isPrefixOf_iff_prefix.1 hfront
        have hdrop : (c :: rest).drop (s :: ss).length = behind := by
          rw [← hbehind, List.drop_left]
        rw [hdrop, ← hbehind]
        constructor
        · intro h
          cases h
          exact ⟨rfl, by simp⟩
        · rintro ⟨heq, hnot⟩
          obtain rfl : before = [] := by
            by_contra hne
            have hbegins : s :: ss <+: before ++ (s :: ss ++ after) := heq ▸ List.prefix_append ..
            exact hnot (infix_of_prefix_append hs hne hbegins)
          exact congrArg (fun behind => some ([], behind)) (List.append_cancel_left heq)
      · rw [if_neg hfront, Option.map_eq_some_iff]
        rw [List.isPrefixOf_iff_prefix] at hfront
        constructor
        · rintro ⟨⟨front, behind⟩, hsplit, heq⟩
          cases heq
          obtain ⟨rfl, hnot⟩ := ih.1 hsplit
          refine ⟨rfl, fun hinfix => ?_⟩
          rcases List.infix_cons_iff.1 hinfix with hbegins | hwithin
          · exact hfront (hbegins.trans (List.prefix_append (c :: front) _))
          · exact hnot hwithin
        · rintro ⟨heq, hnot⟩
          cases before with
          | nil => exact absurd (heq ▸ List.prefix_append ..) hfront
          | cons first front =>
              obtain ⟨rfl, rfl⟩ := List.cons.inj heq
              refine ⟨(front, after), ih.2 ⟨rfl, fun hwithin => hnot ?_⟩, rfl⟩
              exact List.infix_cons hwithin

end Characters

variable {separator text before after : String}

/-- A text is split at the first occurrence of a separator. -/
theorem splitFirst?_eq_some_iff {s : Char} {ss : List Char} (hseparator : separator.toList = s :: ss)
    (hs : s ∉ ss) : splitFirst? separator text = some (before, after) ↔
      text = before ++ separator ++ after ∧ ¬ separator.toList <:+: before.toList := by
  have htext : text = before ++ separator ++ after ↔
      text.toList = before.toList ++ (s :: ss ++ after.toList) := by
    rw [← String.toList_inj, String.toList_append, String.toList_append, hseparator, List.append_assoc]
  rw [htext, hseparator, ← splitChars?_eq_some_iff hs]
  unfold splitFirst?
  rw [hseparator, Option.map_eq_some_iff]
  constructor
  · rintro ⟨parts, hsplit, heq⟩
    cases heq
    rw [hsplit, String.toList_ofList, String.toList_ofList]
  · intro hsplit
    refine ⟨_, hsplit, ?_⟩
    rw [String.ofList_toList, String.ofList_toList]

/-- A separator of one character does not stand in the part before. -/
theorem splitFirst?_char_eq_some_iff {c : Char} (hseparator : separator.toList = [c]) :
    splitFirst? separator text = some (before, after) ↔
      text = before ++ separator ++ after ∧ c ∉ before.toList := by
  rw [splitFirst?_eq_some_iff hseparator List.not_mem_nil, hseparator, List.singleton_infix_iff]

theorem splitFirst?_char_eq_none_iff {c : Char} (hseparator : separator.toList = [c]) :
    splitFirst? separator text = none ↔ c ∉ text.toList := by
  constructor
  · intro hnone hmem
    obtain ⟨before, after, htext, hbefore⟩ := List.eq_append_cons_of_mem hmem
    have hsplit : splitFirst? separator text = some (String.ofList before, String.ofList after) := by
      refine (splitFirst?_char_eq_some_iff hseparator).2 ⟨?_, by simpa using hbefore⟩
      rw [← String.toList_inj, htext]
      simp [hseparator]
    cases hnone.symm.trans hsplit
  · intro hnot
    cases hsplit : splitFirst? separator text with
    | none => rfl
    | some parts =>
        obtain ⟨rfl, -⟩ := (splitFirst?_char_eq_some_iff hseparator).1 hsplit
        exact absurd (by simp [hseparator]) hnot

end RecordStore
