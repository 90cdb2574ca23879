import RecordStore.Proofs.Integrity.UniqueValues
import RecordStore.Proofs.Scope.Admissible

/-!
# Flushes are checked against the tables as they will be

What a flush is going to write is checked through indexes and buckets.  The check passes it exactly when it
keeps the constraints in the tables as they will be, row by row and value by value
(`check_passes_admissible_images`); in particular, codes can be swapped.
-/

namespace RecordStore

/-- The check agrees with the constraints as they read.  Take any scope, and what a flush is going to write
for it, no two images for the same row, where the tables of the images and those that their foreign keys
refer to can be read.  Then the check passes the images exactly when each value that is written, unless it
is empty, is no unique value of another row and no foreign key without a row, in the tables as they will
be. -/
theorem check_passes_admissible_images {env : Environment} {scope made : Scope} {images : List RowImage}
    (hmade : (do Scope.assignIds env; Scope.resolveLinks; Scope.rowImages env).run scope =
      .ok images made) (hdistinct : (images.map Scope.imageKey).Nodup)
    (htables : ∀ image ∈ images, scope.Readable env image.model.tableName ∧
      ∀ column ∈ image.model.columns, ∀ key, column.foreignKey = some key →
        scope.Readable env key.table) :
    made.checkConstraints env images = .ok () ↔ scope.Admissible env images := by
  obtain ⟨hstaged, hfits⟩ := (Scope.flush_images env scope).of_ok hmade
  -- The rows of the tables are those of the scope, as nothing was staged since.
  have htables' : ∀ image ∈ images, made.Readable env image.model.tableName ∧
      ∀ column ∈ image.model.columns, ∀ key, column.foreignKey = some key →
        made.Readable env key.table := by
    intro image himage
    obtain ⟨htable, htarget⟩ := htables image himage
    exact ⟨(Scope.readable_congr hstaged).2 htable, fun column hcolumn key hkey =>
      (Scope.readable_congr hstaged).2 (htarget column hcolumn key hkey)⟩
  rw [Scope.checkConstraints_iff_admissible hdistinct hfits htables', Scope.admissible_congr hstaged]

/-- Two notes exchange their codes. -/
def codesAreSwapped : List Event := notesAreTagged ++ [
  .deed (.act (.find "Note" 1)), .deed (.act (.find "Note" 2)),
  .deed (.act (.assign 0 "code" (.text "b"))), .deed (.act (.assign 1 "code" (.text "a")))]

/-- The check passes the images of both notes, although each code is still stored for the other one. -/
theorem check_passes_swapped_codes :
    let course := codesAreSwapped.foldl Course.step { db := taggedNotes }
    let env := course.db.environment
    ∃ scope images made, course.db.scope = some scope ∧
      (do Scope.assignIds env; Scope.resolveLinks; Scope.rowImages env).run scope = .ok images made ∧
      images.map Scope.imageKey = [("notes", 1), ("notes", 2)] ∧
      images.map (fun image => storedColumn (image.columns?.getD []) "code" |>.asText?) =
        [some "b", some "a"] ∧
      made.checkConstraints env images = .ok () ∧ scope.Admissible env images := by
  intro course env
  obtain ⟨scope, hscope, images, himages, hkeys, hcodes, htables, hcheck⟩ :
      ∃ scope ∈ course.db.scope,
        ∃ images ∈ (do Scope.assignIds env; Scope.resolveLinks; Scope.rowImages env).run' scope,
          images.map Scope.imageKey = [("notes", 1), ("notes", 2)] ∧
          images.map (fun image => storedColumn (image.columns?.getD []) "code" |>.asText?) =
            [some "b", some "a"] ∧
          (∀ image ∈ images, scope.Readable env image.model.tableName ∧
            ∀ column ∈ image.model.columns, column.foreignKey = none) ∧
          ((do Scope.assignIds env; Scope.resolveLinks; Scope.rowImages env) >>= fun images => do
            return (← get).checkConstraints env images).run' scope = some (.ok ()) := by
    decide +kernel
  -- From here on the course is not computed any more.
  clear_value env course
  cases hrun : (do Scope.assignIds env; Scope.resolveLinks; Scope.rowImages env).run scope with
  | error error failed =>
      delta EStateM.run' at himages
      simp only [hrun] at himages
      cases himages
  | ok found made =>
      delta EStateM.run' at himages hcheck
      simp only [hrun] at himages
      cases himages
      simp only [EStateM.run_bind, hrun] at hcheck
      have hpassed : made.checkConstraints env images = .ok () := Option.some.inj hcheck
      have hdistinct : (images.map Scope.imageKey).Nodup := hkeys ▸ by decide
      refine ⟨scope, images, made, hscope, hrun, hkeys, hcodes, hpassed, ?_⟩
      refine (check_passes_admissible_images hrun hdistinct fun image himage => ?_).1 hpassed
      refine ⟨(htables image himage).1, fun column hcolumn key hkey => ?_⟩
      cases ((htables image himage).2 column hcolumn).symm.trans hkey

end RecordStore
