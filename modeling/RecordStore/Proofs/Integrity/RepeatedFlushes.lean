import RecordStore.Proofs.Integrity.ForeignKeys
import RecordStore.Proofs.Scope.Imaging

/-!
# Repeated flushes

A flush that succeeds leaves nothing to be done: flushing again succeeds and changes nothing at all
(`Database.run_flush_again`).  So a commit writes the same, however often the scope is flushed before it
(`flush_is_idempotent`).
-/

namespace RecordStore

namespace Scope

variable {env : Environment} {scope flushed : Scope}

/-- A scope that was flushed is left as it is by another flush. -/
theorem flush_again (h : (flush env).run scope = .ok () flushed) :
    (flush env).run flushed = .ok () flushed := by
  have hrest : flushed.AtRest := (flush_rests env scope).of_ok h
  obtain ⟨_, after, hrun, rfl⟩ := (flush_of_rest env hrest).run_eq
  exact hrun

end Scope

namespace Database

variable {db flushed : Database}

/-- The database after its open scope was flushed a number of times, whatever the flushes give. -/
def flushes (db : Database) (n : Nat) : Database :=
  (fun db => (db.run Scope.flush).2)^[n] db

/-- What a scope has left when it was put down is taken up again as it was. -/
theorem resume_resume (db : Database) (scope : Scope) :
    (db.resume scope).resume scope = db.resume scope := by
  unfold resume
  simp only [Bool.or_assoc, Bool.or_self]

theorem run_flush_again (h : db.run Scope.flush = (.ok (), flushed)) :
    flushed.run Scope.flush = (.ok (), flushed) := by
  obtain ⟨scope, last, -, hrun, rfl⟩ := run_eq_ok.1 h
  refine run_eq_ok.2 ⟨last, last, rfl, Scope.flush_again hrun, ?_⟩
  exact (resume_resume db last).symm

/-- A scope that was flushed is committed like the one before the flush. -/
theorem commit_of_flushed (h : db.run Scope.flush = (.ok (), flushed)) :
    flushed.commit = db.commit := by
  obtain ⟨scope, last, hscope, hrun, rfl⟩ := run_eq_ok.1 h
  have hagain : (Scope.flush (db.resume last).environment).run last = .ok () last :=
    Scope.flush_again hrun
  unfold commit
  rw [run_of_ok hscope (Scope.commit_run_of_ok hrun),
    run_of_ok (show (db.resume last).scope = some last from rfl) (Scope.commit_run_of_ok hagain),
    resume_resume]

end Database

/-- Flushing is idempotent.  Take a database with any open scope, in any state.  When a flush succeeds, a
second one succeeds as well and leaves everything as it is: staged rows, sequences, records with their
lifecycles and marks, identities, links, and all that lies outside of the scope.  A commit has the same
result and leaves the same database, however often the scope is flushed right before. -/
theorem flush_is_idempotent {db flushed : Database} (h : db.run Scope.flush = (.ok (), flushed)) :
    flushed.run Scope.flush = (.ok (), flushed) ∧ ∀ n, (db.flushes n).commit = db.commit := by
  have hagain := Database.run_flush_again h
  refine ⟨hagain, ?_⟩
  -- From the first flush on, the database stays the same.
  have hstays : ∀ n, flushed.flushes n = flushed := by
    intro n
    exact Function.iterate_fixed (congrArg Prod.snd hagain) n
  intro n
  cases n with
  | zero => rfl
  | succ n =>
      have hfirst : db.flushes (n + 1) = flushed.flushes n := by
        show ((db.run Scope.flush).2).flushes n = flushed.flushes n
        rw [h]
      rw [hfirst, hstays n]
      exact Database.commit_of_flushed h

/-- In a new scope the holder is given another link, which is new, and the first link is to go away. -/
def holderIsMoved : List Event := linkIsHeld ++ [
  .openScope, .deed (.act (.find "Holder" 1)), .deed (.act (.create "Link")),
  .deed (.act (.setReference 0 "link" 1)), .deed (.act (.find "Link" 1)), .deed (.act (.delete 2))]

/-- The first flush stages three rows, the other ones nothing more. -/
theorem flush_is_idempotent_of_holder :
    let db := (holderIsMoved.foldl Course.step { db := linksAndHolders }).db
    ∃ flushed scope, db.run Scope.flush = (.ok (), flushed) ∧ flushed.scope = some scope ∧
      scope.staged.toList.length = 3 ∧ flushed.run Scope.flush = (.ok (), flushed) ∧
      (db.flushes 3).commit = db.commit ∧ db.commit.1 = .ok () := by
  obtain ⟨hflush, scope, hscope, hstaged, hcommit⟩ :
      let db := (holderIsMoved.foldl Course.step { db := linksAndHolders }).db
      (db.run Scope.flush).1 = .ok () ∧ ∃ scope ∈ (db.run Scope.flush).2.scope,
        scope.staged.toList.length = 3 ∧ db.commit.1 = .ok () := by
    decide +kernel
  -- From here on the course is not computed any more.
  generalize (holderIsMoved.foldl Course.step { db := linksAndHolders }).db = db at *
  have hfirst : db.run Scope.flush = (.ok (), (db.run Scope.flush).2) := Prod.ext hflush rfl
  obtain ⟨hagain, hcommits⟩ := flush_is_idempotent hfirst
  exact ⟨_, scope, hfirst, hscope, hstaged, hagain, hcommits 3, hcommit⟩

end RecordStore
