import RecordStore.CommandLine.Console
import RecordStore.Proofs.Outcome
import RecordStore.Proofs.SortedMap

/-!
# Databases that commands work on

A command opens a database of its own at an address.  The models of experiments are registered with it
whatever the address is, so it is the address and the disk that databases differ in.
-/

namespace RecordStore

namespace Machine

variable {text : String} {address : Address}

/-- The database that a command works on, with the models of experiments as far as they were registered. -/
def databaseAt (machine : Machine) (address : Address) : Database where
  registry := ({} : Registry).registerExperiment.1
  storage := { Storage.atAddress address with
    contents := if address.isMemory then none
      else machine.disk.find? (Settings.ofAddress address).path }
  host := machine.host
  supply := machine.supply

theorem openDatabase_of_parse (machine : Machine) (h : Address.parse text = .ok address) :
    machine.openDatabase text =
      ({} : Registry).registerExperiment.2.map fun _ => machine.databaseAt address := by
  unfold openDatabase
  rw [h]
  cases hresult : ({} : Registry).registerExperiment.2 with
  | error error => simp [bind, Except.bind, hresult, Except.map]
  | ok models =>
      simp [bind, Except.bind, hresult, Except.map]
      rfl

/-- A database is opened at an address only. -/
theorem parse_of_openDatabase {machine : Machine} {db : Database}
    (h : machine.openDatabase text = .ok db) :
    ∃ address, Address.parse text = .ok address ∧ db = machine.databaseAt address := by
  cases hparse : Address.parse text with
  | error error =>
      unfold openDatabase at h
      rw [hparse] at h
      cases h
  | ok address =>
      rw [openDatabase_of_parse machine hparse] at h
      cases hresult : ({} : Registry).registerExperiment.2 with
      | error error =>
          rw [hresult] at h
          cases h
      | ok models =>
          rw [hresult] at h
          exact ⟨address, rfl, (Except.ok.inj h).symm⟩

/-- A command that succeeds on the database that was opened shows what it has written. -/
theorem execute_of_ok {machine : Machine} {input : String} {db : Database} {command : Command}
    {result : Option Bool} {after : Console} (h : machine.openDatabase text = .ok db)
    (hversion : command ≠ .version)
    (hrun : command.perform.run { db, input := linesOf input } = .ok result after) :
    machine.execute text command input = (after.output, .ok (), machine.keep after.db) := by
  unfold execute
  rw [if_neg hversion, h]
  dsimp only
  rw [hrun]

/-- A machine keeps what it had if a database is left as it was opened. -/
theorem keep_databaseAt (machine : Machine) (address : Address) :
    machine.keep (machine.databaseAt address) = machine := by
  obtain ⟨storage, hstorage⟩ : ∃ storage, storage = (machine.databaseAt address).storage := ⟨_, rfl⟩
  have hheld (hthere : ¬ storage.isAlwaysThere = true) :
      storage.contents = machine.disk.find? storage.settings.path := by
    have hdisk : ¬ address.isMemory = true := fun hmemory =>
      hthere (by rw [hstorage]; exact Bool.or_eq_true_iff.2 (Or.inl hmemory))
    rw [hstorage]
    exact if_neg hdisk
  unfold keep
  rw [← hstorage]
  by_cases hthere : storage.isAlwaysThere = true
  · simp only [if_pos hthere]
    rfl
  · simp only [if_neg hthere]
    cases hcontents : storage.contents with
    | some contents =>
        dsimp only
        rw [SortedMap.insert_of_find? ((hheld hthere).symm.trans hcontents)]
        rfl
    | none =>
        dsimp only
        rw [SortedMap.erase_of_find? ((hheld hthere).symm.trans hcontents)]
        rfl

end Machine

end RecordStore
