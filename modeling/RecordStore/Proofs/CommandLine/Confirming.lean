import RecordStore.Proofs.CommandLine.Resetting
import RecordStore.Proofs.Text.Lines

/-!
# Waiting for a yes

A reset that asks goes on exactly if the first line that says yes or no says yes
(`reset_waits_for_yes`); it then does what a reset does that does not ask.  In every other case, also
when there is no more input, nothing is changed but the input and the output.
-/

namespace RecordStore

variable {lower : List Char → List Char}

/-! ## Lower case -/

/-- The letters of the two answers. -/
def answerLetters : List Char :=
  ['y', 'e', 's', 'n', 'o']

/-- What putting texts into lower case does, as far as answers depend on it.  Of the first 128 characters the
capitals become small letters.  Any other character leaves something that is in no answer. -/
structure LowerCasing (lower : List Char → List Char) : Prop where
  plain {chars : List Char} (h : ∀ c ∈ chars, c.toNat < 128) : lower chars = chars.map Char.toLower
  foreign {chars : List Char} {c : Char} (hmem : c ∈ chars) (h : 128 ≤ c.toNat) :
    ∃ d ∈ lower chars, d ∉ answerLetters

theorem lt_of_mem_answerLetters {c : Char} (h : c ∈ answerLetters) : c.toNat < 128 := by
  have hall : (answerLetters.all fun c => c.toNat < 128) = true := by decide
  exact of_decide_eq_true (List.all_eq_true.1 hall c h)

theorem toLower_of_le {c : Char} (h : 128 ≤ c.toNat) : c.toLower = c := by
  unfold Char.toLower
  refine dif_neg fun hcapital => ?_
  have hlow : c.toNat ≤ 'Z'.toNat := hcapital.2
  exact absurd (h.trans hlow) (by decide)

/-- Letters are made small one by one, if only the first 128 characters have capitals. -/
theorem lowerCasing_toLower : LowerCasing (List.map Char.toLower) where
  plain _ := rfl
  foreign {_ c} hmem h := by
    refine ⟨c, List.mem_map.2 ⟨c, hmem, toLower_of_le h⟩, fun hletter => ?_⟩
    exact absurd (lt_of_mem_answerLetters hletter) (Nat.not_lt.2 h)

theorem LowerCasing.eq_iff (h : LowerCasing lower) {chars word : List Char}
    (hword : ∀ c ∈ word, c ∈ answerLetters) : lower chars = word ↔ chars.map Char.toLower = word := by
  by_cases hplain : ∀ c ∈ chars, c.toNat < 128
  · rw [h.plain hplain]
  · push Not at hplain
    obtain ⟨c, hmem, hforeign⟩ := hplain
    -- What such a character leaves is in no word, whichever way it is put into lower case.
    refine iff_of_false ?_ ?_
    · rintro rfl
      obtain ⟨d, hd, hno⟩ := h.foreign hmem hforeign
      exact hno (hword d hd)
    · rintro rfl
      obtain ⟨d, hd, hno⟩ := lowerCasing_toLower.foreign hmem hforeign
      exact hno (hword d hd)

/-! ## Answers -/

/-- A line says what is left of it without the white space around it, in lower case. -/
def Says (lower : List Char → List Char) (line word : String) : Prop :=
  ∃ core, Trims line.toList core ∧ lower core = word.toList

/-- A line that says neither yes nor no. -/
def Unclear (lower : List Char → List Char) (line : String) : Prop :=
  ¬ Says lower line "yes" ∧ ¬ Says lower line "no"

/-- The first line that is not unclear says a word.  The lines after it are not read. -/
structure Answered (lower : List Char → List Char) (word : String)
    (lines unclear unread : List String) : Prop where
  skipped : ∀ line ∈ unclear, Unclear lower line
  answer : ∃ line, Says lower line word ∧ lines = unclear ++ line :: unread

/-- The first answer is no, or there is none.  The lines after a no are not read. -/
inductive Declined (lower : List Char → List Char) (lines : List String) :
    (unclear unread : List String) → Prop where
  | no {unclear unread : List String} (h : Answered lower "no" lines unclear unread) :
      Declined lower lines unclear unread
  | silence (h : ∀ line ∈ lines, Unclear lower line) : Declined lower lines lines []

/-- The word for a decision. -/
def answerWord : Bool → String
  | true => "yes"
  | false => "no"

theorem answerWord_letters (decision : Bool) :
    ∀ c ∈ (answerWord decision).toList, c ∈ answerLetters := by
  cases decision <;> simp [answerWord, answerLetters]

variable {line word : String} {lines unclear unread : List String} {decision : Bool}

theorem says_iff (hlower : LowerCasing lower) (hword : ∀ c ∈ word.toList, c ∈ answerLetters) :
    Says lower line word ↔ String.ofList ((trimBlanks line.toList).map Char.toLower) = word := by
  rw [← String.toList_inj, String.toList_ofList, ← hlower.eq_iff hword]
  constructor
  · rintro ⟨core, hcore, hsaid⟩
    rwa [trims_iff.1 hcore]
  · exact fun hsaid => ⟨_, trims_iff.2 rfl, hsaid⟩

theorem decisionOf?_eq_some_iff (hlower : LowerCasing lower) (decision : Bool) :
    decisionOf? line = some decision ↔ Says lower line (answerWord decision) := by
  rw [says_iff hlower (answerWord_letters decision)]
  unfold decisionOf?
  cases decision <;> grind [answerWord]

theorem decisionOf?_eq_none_iff (hlower : LowerCasing lower) :
    decisionOf? line = none ↔ Unclear lower line := by
  have hyes : _ ↔ Says lower line "yes" := decisionOf?_eq_some_iff hlower true
  have hno : _ ↔ Says lower line "no" := decisionOf?_eq_some_iff hlower false
  unfold Unclear
  rw [← hyes, ← hno, Option.eq_none_iff_forall_ne_some, Bool.forall_bool]
  exact and_comm

/-- The first answer in lines is yes, or they decline what was asked. -/
theorem answered_or_declined (lower : List Char → List Char) (lines : List String) :
    (∃ unclear unread, Answered lower "yes" lines unclear unread) ∨
      ∃ unclear unread, Declined lower lines unclear unread := by
  induction lines with
  | nil => exact Or.inr ⟨[], [], .silence (List.forall_mem_nil _)⟩
  | cons line lines ih =>
      by_cases hyes : Says lower line "yes"
      · exact Or.inl ⟨[], lines, List.forall_mem_nil _, line, hyes, rfl⟩
      by_cases hno : Says lower line "no"
      · exact Or.inr ⟨[], lines, .no ⟨List.forall_mem_nil _, line, hno, rfl⟩⟩
      -- The line says neither, so that the lines after it decide.
      have hlater {later : List String} (h : ∀ other ∈ later, Unclear lower other) :
          ∀ other ∈ line :: later, Unclear lower other := List.forall_mem_cons.2 ⟨⟨hyes, hno⟩, h⟩
      rcases ih with ⟨unclear, unread, hskipped, said, hsaid, rfl⟩ | ⟨unclear, unread, hdeclined⟩
      · exact Or.inl ⟨line :: unclear, unread, hlater hskipped, said, hsaid, rfl⟩
      · cases hdeclined with
        | no h =>
            obtain ⟨hskipped, said, hsaid, rfl⟩ := h
            exact Or.inr ⟨line :: unclear, unread, .no ⟨hlater hskipped, said, hsaid, rfl⟩⟩
        | silence h => exact Or.inr ⟨line :: lines, [], .silence (hlater h)⟩

/-! ## Decisions -/

/-- The user is asked again after each unclear line. -/
theorem decide?_append (h : ∀ line ∈ unclear, decisionOf? line = none) (rest : List String) :
    decide? (unclear ++ rest) =
      ((decide? rest).1, (decide? rest).2.1 + unclear.length, (decide? rest).2.2) := by
  induction unclear with
  | nil => rfl
  | cons line unclear ih =>
      obtain ⟨hline, hunclear⟩ := List.forall_mem_cons.1 h
      rw [List.cons_append, decide?, hline, ih hunclear]
      rfl

theorem Answered.decide?_eq (decision : Bool) (hlower : LowerCasing lower)
    (h : Answered lower (answerWord decision) lines unclear unread) :
    decide? lines = (decision, unclear.length, unread) := by
  obtain ⟨hskipped, line, hsaid, rfl⟩ := h
  have hdecided : decide? (line :: unread) = (decision, 0, unread) := by
    rw [decide?, (decisionOf?_eq_some_iff hlower decision).2 hsaid]
  rw [decide?_append fun line hline => (decisionOf?_eq_none_iff hlower).2 (hskipped line hline),
    hdecided, Nat.zero_add]

theorem Declined.decide?_eq (hlower : LowerCasing lower) (h : Declined lower lines unclear unread) :
    decide? lines = (false, unclear.length, unread) := by
  cases h with
  | no h => exact Answered.decide?_eq false hlower h
  | silence h =>
      have hasked :=
        decide?_append (fun line hline => (decisionOf?_eq_none_iff hlower).2 (h line hline)) []
      rwa [List.append_nil, decide?, Nat.zero_add] at hasked

/-! ## Resets that ask -/

/-- A reset that asks takes away the lines up to the decision and writes the questions; then it does what a
reset does that does not ask, or nothing. -/
theorem resetStorage_run_of_decide (console : Console) {repeats : Nat}
    (h : decide? console.input = (decision, repeats, unread)) :
    (resetStorage false).run console =
      (if decision then resetStorage true else pure false).run
        { console with input := unread, output := console.output ++ questions repeats } := by
  refine (EStateM.run_bind ..).trans ?_
  rw [confirm_run, h]
  cases decision <;> rfl

/-- A reset that does not ask never tells that it did nothing. -/
theorem resetStorage_true_run_ne (console after : Console) :
    (resetStorage true).run console ≠ .ok false after := by
  have hrun : (resetStorage true).run console = (rebuildStorage >>= fun _ => pure true).run console := rfl
  rw [hrun, EStateM.run_bind]
  intro h
  cases hrebuilt : rebuildStorage.run console with
  | ok done next =>
      rw [hrebuilt] at h
      cases h
  | error error next =>
      rw [hrebuilt] at h
      cases h

/-- A reset that asks goes on if and only if the first line that says yes or no says yes.  It then does what a
reset does that does not ask, which succeeds where a drop leaves no stamp.  Otherwise, also when the lines
come to their end, it tells that it did nothing, and only the input and the output have changed.  The
prompt is written once, and the user is asked again after each line that was read before the answer. -/
theorem reset_waits_for_yes (hlower : LowerCasing lower) (db : Database) (text output : String)
    (hlines : HasLines text.toList lines) :
    let reset := (resetStorage false).run { db, input := linesOf text, output }
    let asked (repeats : Nat) (unread : List String) : Console :=
      { db, input := unread, output := output ++ questions repeats }
    let confirmed := ∃ unclear unread, Answered lower "yes" lines unclear unread
    (∀ unclear unread, Answered lower "yes" lines unclear unread →
      reset = (resetStorage true).run (asked unclear.length unread)) ∧
    (db.leftovers.stamp = none →
      ((∃ after, reset = .ok true after ∧ after.db = db.rebuilt) ↔ confirmed)) ∧
    ((∃ after, reset = .ok false after) ↔ ¬ confirmed) ∧
    (¬ confirmed → ∃ unclear unread, Declined lower lines unclear unread ∧
      reset = .ok false (asked unclear.length unread)) := by
  intro reset asked confirmed
  obtain rfl := hasLines_iff.1 hlines
  have hyes (unclear unread : List String) (h : Answered lower "yes" (linesOf text) unclear unread) :
      reset = (resetStorage true).run (asked unclear.length unread) := by
    have hrun := resetStorage_run_of_decide { db, input := linesOf text, output }
      (Answered.decide?_eq true hlower h)
    exact hrun
  have hno (hnot : ¬ confirmed) : ∃ unclear unread, Declined lower (linesOf text) unclear unread ∧
      reset = .ok false (asked unclear.length unread) := by
    obtain ⟨unclear, unread, h⟩ := (answered_or_declined lower (linesOf text)).resolve_left hnot
    exact ⟨unclear, unread, h, resetStorage_run_of_decide _ (h.decide?_eq hlower)⟩
  have hdeclined : (∃ after, reset = .ok false after) ↔ ¬ confirmed := by
    constructor
    · rintro ⟨after, hafter⟩ ⟨unclear, unread, h⟩
      exact resetStorage_true_run_ne _ after ((hyes _ _ h).symm.trans hafter)
    · intro hnot
      obtain ⟨unclear, unread, -, hrun⟩ := hno hnot
      exact ⟨_, hrun⟩
  refine ⟨hyes, fun hunstamped => ⟨?_, ?_⟩, hdeclined, hno⟩
  · rintro ⟨after, hafter, -⟩
    by_contra hnot
    obtain ⟨_, hother⟩ := hdeclined.2 hnot
    cases hafter.symm.trans hother
  · rintro ⟨unclear, unread, h⟩
    obtain ⟨done, after, hrun, hdone, hafter⟩ :=
      @resetStorage_run true (asked unclear.length unread) hunstamped
    obtain rfl := hdone.2 (Or.inl rfl)
    exact ⟨after, (hyes _ _ h).trans hrun, hafter⟩

/-- The answer is in the third line, in letters of both cases; the no in the last one comes too late. -/
theorem reset_waits_for_yes_after_two_lines :
    (resetStorage false).run { db := plainNotes, input := linesOf " maybe\n\n\tYeS \nno" } =
      (resetStorage true).run {
        db := plainNotes
        input := ["no"]
        output := "Do you want to clear the storage? [yes/no] " ++
          "Please answer 'yes' or 'no': Please answer 'yes' or 'no': " } := by
  have hlines : HasLines " maybe\n\n\tYeS \nno".toList [" maybe\n", "\n", "\tYeS \n", "no"] :=
    hasLines_iff.2 (by decide +kernel)
  have hanswered : Answered (List.map Char.toLower) "yes" [" maybe\n", "\n", "\tYeS \n", "no"]
      [" maybe\n", "\n"] ["no"] := by
    refine ⟨fun line hline => (decisionOf?_eq_none_iff lowerCasing_toLower).1 ?_, "\tYeS \n",
      (decisionOf?_eq_some_iff lowerCasing_toLower true).1 (by decide +kernel), rfl⟩
    revert line
    decide +kernel
  obtain ⟨hyes, -⟩ := reset_waits_for_yes lowerCasing_toLower plainNotes _ "" hlines
  have hgoes := hyes _ _ hanswered
  have hasked : "" ++ questions 2 = "Do you want to clear the storage? [yes/no] " ++
      "Please answer 'yes' or 'no': Please answer 'yes' or 'no': " := by decide +kernel
  rw [← hasked]
  exact hgoes

namespace Machine

/-- A program that is told to reset a storage, and is not told yes when it asks, leaves the machine as it
was. -/
theorem execute_of_declined (hlower : LowerCasing lower) {machine : Machine} {text input : String}
    {db : Database} (h : machine.openDatabase text = .ok db) (hlines : HasLines input.toList lines)
    (hdeclined : Declined lower lines unclear unread) :
    machine.execute text (.resetStorage false) input = (questions unclear.length, .ok (), machine) := by
  obtain ⟨address, -, rfl⟩ := parse_of_openDatabase h
  obtain rfl := hasLines_iff.1 hlines
  have hrun := resetStorage_run_of_decide
    { db := machine.databaseAt address, input := linesOf input } (hdeclined.decide?_eq hlower)
  rw [execute_of_ok h (by simp) (Command.perform_resetStorage hrun)]
  dsimp only
  rw [keep_databaseAt, String.empty_append]

end Machine

end RecordStore
