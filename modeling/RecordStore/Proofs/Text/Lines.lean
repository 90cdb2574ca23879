import Mathlib.Data.List.DropRight
import RecordStore.CommandLine.Console

/-!
# Lines and trimmed texts

What a program reads line by line, and what is left of a line without the white space around it.
`HasLines` and `Trims` say what lines and trimmed texts are; `hasLines_iff` and `trims_iff` say that
`linesOf` and `trimBlanks` make them.
-/

namespace RecordStore

/-! ## Lines -/

/-- The lines of a text.  Each ends with the newline that ends it, the last one may have none. -/
inductive HasLines : List Char → List String → Prop where
  | nil : HasLines [] []
  | last {line : List Char} (hline : line ≠ []) (hplain : '\n' ∉ line) :
      HasLines line [String.ofList line]
  | next {line rest : List Char} {lines : List String} (hplain : '\n' ∉ line)
      (hrest : HasLines rest lines) :
      HasLines (line ++ '\n' :: rest) (String.ofList (line ++ ['\n']) :: lines)

/-- Characters that end no line are taken over into the line that is read. -/
theorem splitLines_append {line : List Char} (hplain : '\n' ∉ line) (read rest : List Char) :
    splitLines read (line ++ rest) = splitLines (line.reverse ++ read) rest := by
  induction line generalizing read with
  | nil => rfl
  | cons c line ih =>
      obtain ⟨hc, hline⟩ := not_or.1 (mt List.mem_cons.2 hplain)
      rw [List.cons_append, splitLines, if_neg (Ne.symm hc), ih hline, List.reverse_cons,
        List.append_assoc, List.singleton_append]

theorem HasLines.splitLines_eq {text : List Char} {lines : List String} (h : HasLines text lines) :
    splitLines [] text = lines := by
  induction h with
  | nil => rfl
  | @last line hline hplain =>
      have hread := splitLines_append hplain [] []
      rw [List.append_nil, List.append_nil] at hread
      rw [hread, splitLines, List.isEmpty_reverse, if_neg (by simpa using hline), List.reverse_reverse]
  | @next line rest lines hplain hrest ih =>
      rw [splitLines_append hplain, splitLines, if_pos rfl, ih, List.append_nil, List.reverse_cons,
        List.reverse_reverse]

/-- Every text has lines. -/
theorem exists_hasLines (text : List Char) : ∃ lines, HasLines text lines := by
  by_cases hnewline : '\n' ∈ text
  · obtain ⟨line, rest, rfl, hplain⟩ := List.eq_append_cons_of_mem hnewline
    obtain ⟨lines, hrest⟩ := exists_hasLines rest
    exact ⟨_, .next hplain hrest⟩
  · by_cases hempty : text = []
    · exact ⟨[], hempty ▸ .nil⟩
    · exact ⟨_, .last hempty hnewline⟩
termination_by text.length

theorem hasLines_iff {text : String} {lines : List String} :
    HasLines text.toList lines ↔ linesOf text = lines := by
  constructor
  · exact HasLines.splitLines_eq
  · rintro rfl
    obtain ⟨lines, hlines⟩ := exists_hasLines text.toList
    have hread : linesOf text = lines := hlines.splitLines_eq
    rwa [hread]

/-! ## White space -/

/-- What is left of a text without the white space at both ends. -/
def Trims (chars core : List Char) : Prop :=
  ∃ before after, chars = before ++ (core ++ after) ∧
    (∀ c ∈ before, isWhiteSpace c = true) ∧ (∀ c ∈ after, isWhiteSpace c = true) ∧
    (∀ c ∈ core.head?, isWhiteSpace c = false) ∧ ∀ c ∈ core.getLast?, isWhiteSpace c = false

section Dropping

variable {α : Type} {p : α → Bool} {dropped rest : List α}

theorem dropWhile_append_of_head? (hdropped : ∀ a ∈ dropped, p a = true)
    (hrest : ∀ a ∈ rest.head?, p a = false) : (dropped ++ rest).dropWhile p = rest := by
  rw [List.dropWhile_append_of_pos hdropped]
  cases rest with
  | nil => rfl
  | cons a others => rw [List.dropWhile_cons_of_neg (by simp [hrest a rfl])]

/-- What can be dropped from the front of a list, and what begins with something else. -/
theorem exists_dropped (p : α → Bool) (items : List α) : ∃ dropped rest, items = dropped ++ rest ∧
    (∀ a ∈ dropped, p a = true) ∧ ∀ a ∈ rest.head?, p a = false := by
  refine ⟨items.takeWhile p, items.dropWhile p, List.takeWhile_append_dropWhile.symm,
    fun _ => List.mem_takeWhile_imp, fun a ha => ?_⟩
  have hhead := List.head?_dropWhile_not p items
  rwa [Option.mem_def.1 ha] at hhead

end Dropping

theorem Trims.trimBlanks_eq {chars core : List Char} (h : Trims chars core) :
    trimBlanks chars = core := by
  obtain ⟨before, after, rfl, hbefore, hafter, hfirst, hlast⟩ := h
  unfold trimBlanks
  by_cases hempty : core = []
  · -- There is only white space, and all of it goes from the front.
    subst hempty
    have hblank : ∀ c ∈ before ++ after, isWhiteSpace c = true := by
      simpa [or_imp, forall_and] using ⟨hbefore, hafter⟩
    rw [List.nil_append, List.dropWhile_eq_nil_iff.2 hblank]
    rfl
  · have hfront : ∀ c ∈ (core ++ after).head?, isWhiteSpace c = false := by
      rwa [List.head?_append_of_ne_nil _ hempty]
    rw [dropWhile_append_of_head? hbefore hfront, List.reverse_append,
      dropWhile_append_of_head? (by simpa using hafter) (by simpa using hlast), List.reverse_reverse]

theorem exists_trims (chars : List Char) : ∃ core, Trims chars core := by
  obtain ⟨before, rest, rfl, hbefore, hrest⟩ := exists_dropped isWhiteSpace chars
  -- What is dropped from the end is dropped from the front of the reversed text.
  obtain ⟨after, core, hreverse, hafter, hcore⟩ := exists_dropped isWhiteSpace rest.reverse
  obtain rfl : rest = core.reverse ++ after.reverse := by
    rw [← List.reverse_append, ← hreverse, List.reverse_reverse]
  refine ⟨core.reverse, before, after.reverse, rfl, hbefore, by simpa using hafter, ?_,
    by simpa using hcore⟩
  intro c hc
  refine hrest c ?_
  rw [List.head?_append, Option.mem_def.1 hc]
  rfl

theorem trims_iff {chars core : List Char} : Trims chars core ↔ trimBlanks chars = core := by
  constructor
  · exact Trims.trimBlanks_eq
  · rintro rfl
    obtain ⟨core, hcore⟩ := exists_trims chars
    rwa [hcore.trimBlanks_eq]

end RecordStore
