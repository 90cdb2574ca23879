import RecordStore.Proofs.CommandLine.Opening
import RecordStore.Proofs.Integrity.FreshKeys
import RecordStore.Proofs.Storage.Isolation

/-!
# Resetting storages

A reset drops a storage, creates it anew, enters the tables of all models and writes a stamp.  What the
storage holds then depends on nothing that it held before (`reset_reaches_fresh_state`): the only step
that could fail is writing the stamp, and dropping the storage takes away every other stamp.

This needs a storage that the drop really clears.  One that is always there is cleared only when the
database has used it; one that was not used must be empty (`Database.StartsEmpty`).  Storages in memory
that keep a directory are not, and what they hold outlives a reset (`unused_storage_outlives_reset`).
-/

namespace RecordStore

/-! ## Pristine contents -/

namespace Contents

/-- What there is after tables were entered and a stamp was written. -/
def builtOn (contents : Contents) (tables : List TableSchema) (stamp : Stamp) : Contents :=
  { tables.foldl defineTable contents with stamp := some stamp }

/-- What there is when tables were entered and a stamp was written where nothing was before. -/
def built (tables : List TableSchema) (stamp : Stamp) : Contents :=
  builtOn {} tables stamp

/-- There are the tables of models and a stamp, and nothing else. -/
structure Pristine (contents : Contents) (models : List Model) : Prop where
  rows : contents.rows = ∅
  unused : ∀ sequence, contents.sequenceValue sequence = 0
  /-- The catalog describes the tables of the models, each under its name. -/
  cataloged : ∀ table schema, contents.catalog.find? table = some schema ↔
    ∃ model ∈ models, model.tableName = table ∧ model.tableSchema = schema
  tables : (contents.catalog.toList.map (·.2)).Perm (models.map (·.tableSchema))
  stamped : contents.stamp.isSome = true

variable {schemas : List TableSchema} {schema : TableSchema} {table : String}

/-- A table is described as it was entered, if no other was entered under its name. -/
theorem find?_catalog_of_mem (hnodup : (schemas.map (·.table)).Nodup) (hmem : schema ∈ schemas)
    (contents : Contents) :
    (schemas.foldl defineTable contents).catalog.find? schema.table = some schema := by
  induction schemas generalizing contents with
  | nil => cases hmem
  | cons first rest ih =>
      obtain ⟨hfirst, hrest⟩ := List.nodup_cons.1 hnodup
      rw [List.foldl_cons]
      rcases List.mem_cons.1 hmem with rfl | hlater
      · rcases catalog_foldl_defineTable rest (contents.defineTable schema) schema.table with
          ⟨other, hother, htable, -⟩ | hkept
        · exact absurd (List.mem_map.2 ⟨other, hother, htable⟩) hfirst
        · rw [hkept]
          exact (SortedMap.find?_insert ..).trans (if_pos rfl)
      · exact ih hrest hlater _

theorem find?_catalog_built (hnodup : (schemas.map (·.table)).Nodup) (stamp : Stamp) :
    (built schemas stamp).catalog.find? table = some schema ↔
      schema ∈ schemas ∧ schema.table = table := by
  constructor
  · intro hfind
    rcases catalog_foldl_defineTable schemas {} table with ⟨found, hmem, htable, hfound⟩ | hkept
    · obtain rfl := Option.some.inj (hfound.symm.trans hfind)
      exact ⟨hmem, htable⟩
    · cases hkept.symm.trans hfind
  · rintro ⟨hmem, rfl⟩
    exact find?_catalog_of_mem hnodup hmem {}

/-- The catalog lists the tables that were entered, in its own order. -/
theorem catalog_built_perm (hnodup : (schemas.map (·.table)).Nodup) (stamp : Stamp) :
    ((built schemas stamp).catalog.toList.map (·.2)).Perm schemas := by
  have hentry (entry : String × TableSchema) (hmem : entry ∈ (built schemas stamp).catalog.toList) :
      entry.2 ∈ schemas ∧ entry.2.table = entry.1 :=
    (find?_catalog_built hnodup stamp).1 (SortedMap.find?_eq_some_iff.2 hmem)
  -- Each entry stands under the name of its table, and no two stand under the same name.
  have hkeys : ((built schemas stamp).catalog.toList.map (·.2)).map (·.table) =
      (built schemas stamp).catalog.toList.map (·.1) :=
    calc ((built schemas stamp).catalog.toList.map (·.2)).map (·.table)
        = (built schemas stamp).catalog.toList.map fun entry => entry.2.table := List.map_map
      _ = (built schemas stamp).catalog.toList.map (·.1) :=
          List.map_congr_left fun entry hmem => (hentry entry hmem).2
  have hdistinct : ((built schemas stamp).catalog.toList.map (·.2)).Nodup :=
    List.Nodup.of_map (·.table) (hkeys ▸ (built schemas stamp).catalog.sorted.nodup_keys)
  refine (List.perm_ext_iff_of_nodup hdistinct (List.Nodup.of_map _ hnodup)).2 fun schema => ?_
  constructor
  · intro hmem
    obtain ⟨entry, hin, rfl⟩ := List.mem_map.1 hmem
    exact (hentry entry hin).1
  · intro hmem
    have hfind := (find?_catalog_built hnodup stamp).2 ⟨hmem, rfl⟩
    exact List.mem_map.2 ⟨_, SortedMap.find?_eq_some_iff.1 hfind, rfl⟩

theorem pristine_built {registry : Registry} (h : registry.Consistent) (stamp : Stamp) :
    (built registry.tableSchemas stamp).Pristine registry.models := by
  have hnodup : (registry.tableSchemas.map (·.table)).Nodup := by
    unfold Registry.tableSchemas
    rw [List.map_map]
    exact h.tables_nodup
  constructor
  case rows => exact rows_foldl_defineTable registry.tableSchemas {}
  case unused => exact sequenceValue_foldl_defineTable registry.tableSchemas {}
  case cataloged =>
    intro table schema
    rw [find?_catalog_built hnodup]
    constructor
    · rintro ⟨hmem, rfl⟩
      obtain ⟨model, hmodel, rfl⟩ := List.mem_map.1 hmem
      exact ⟨model, hmodel, rfl, rfl⟩
    · rintro ⟨model, hmodel, rfl, rfl⟩
      exact ⟨List.mem_map_of_mem hmodel, rfl⟩
  case tables => exact catalog_built_perm hnodup stamp
  case stamped => rfl

end Contents

/-! ## What runs come to -/

namespace CommandM

variable {α β : Type} {x : CommandM α} {db next last : Database} {a : α} {b : β}

/-- Whatever was read and written before, a run on a database succeeds and leaves another one. -/
def RunsTo (x : CommandM α) (db : Database) (a : α) (next : Database) : Prop :=
  ∀ console : Console, console.db = db → ∃ after, x.run console = .ok a after ∧ after.db = next

theorem RunsTo.bind {f : α → CommandM β} (h : x.RunsTo db a next) (hnext : (f a).RunsTo next b last) :
    (x >>= f).RunsTo db b last := by
  intro console hconsole
  obtain ⟨after, hrun, hafter⟩ := h console hconsole
  obtain ⟨final, hfinal, hlast⟩ := hnext after hafter
  refine ⟨final, ?_, hlast⟩
  rw [EStateM.run_bind, hrun]
  exact hfinal

theorem runsTo_pure (a : α) (db : Database) : (pure a : CommandM α).RunsTo db a db :=
  fun console hconsole => ⟨console, rfl, hconsole⟩

theorem runsTo_get_bind {f : Console → CommandM α}
    (h : ∀ console, console.db = db → (f console).RunsTo db a next) :
    (get >>= f).RunsTo db a next :=
  fun console hconsole => h console hconsole console hconsole

theorem runsTo_modify {f : Console → Console} (h : ∀ console, console.db = db → (f console).db = next) :
    (modify f : CommandM Unit).RunsTo db () next :=
  fun console hconsole => ⟨f console, rfl, h console hconsole⟩

theorem runsTo_writeLine (text : String) (db : Database) : (writeLine text).RunsTo db () db :=
  runsTo_modify fun _ hconsole => hconsole

theorem runsTo_change {f : Database → Except Error α × Database} (h : f db = (.ok a, next)) :
    (change f).RunsTo db a next := by
  rintro console rfl
  refine ⟨{ console with db := next }, ?_, rfl⟩
  show (lift (f console.db).1).run { console with db := (f console.db).2 } = _
  rw [h]
  rfl

/-- What is done first may be left out where it would change nothing. -/
theorem runsTo_unless {condition : Prop} [Decidable condition] {first : CommandM Unit}
    {f : Unit → CommandM β} (hfirst : condition → first.RunsTo db () next)
    (hskip : ¬ condition → db = next) (hnext : (f ()).RunsTo next b last) :
    (if condition then first >>= f else f ()).RunsTo db b last := by
  by_cases hcondition : condition
  · rw [if_pos hcondition]
    exact (hfirst hcondition).bind hnext
  · rw [if_neg hcondition, hskip hcondition]
    exact hnext

end CommandM

/-! ## The steps of a reset -/

namespace Contents

theorem stamp_foldl_defineTable (schemas : List TableSchema) (contents : Contents) :
    (schemas.foldl defineTable contents).stamp = contents.stamp := by
  induction schemas generalizing contents with
  | nil => rfl
  | cons schema rest ih => exact ih (contents.defineTable schema)

end Contents

namespace Database

variable {db : Database}

/-- A storage that is always there holds nothing before the database has used it. -/
def StartsEmpty (db : Database) : Prop :=
  db.storage.isAlwaysThere = true → db.used = true ∨ db.storage.contents = none

/-- The database after its storage was given contents. -/
def holding (db : Database) (contents : Contents) : Database :=
  { db with storage := { db.storage with contents := some contents }, used := true }

/-- The stamp that the storage gets now. -/
def nextStamp (db : Database) : Stamp :=
  Stamp.collect db.host db.supply.now

/-- What is left of the storage after a drop: what a storage holds that is always there and was not used. -/
def leftovers (db : Database) : Contents :=
  if db.storage.isAlwaysThere && !db.used then db.storage.contents.getD {} else {}

/-- The database after its storage was built anew. -/
def rebuilt (db : Database) : Database :=
  { db.holding (db.leftovers.builtOn db.registry.tableSchemas db.nextStamp) with
    supply := db.supply.advance }

theorem StartsEmpty.leftovers_eq (h : db.StartsEmpty) : db.leftovers = {} := by
  unfold leftovers
  by_cases hidle : (db.storage.isAlwaysThere && !db.used) = true
  · obtain ⟨hthere, hunused⟩ := Bool.and_eq_true_iff.1 hidle
    rw [if_pos hidle, (h hthere).resolve_left (by simpa using hunused)]
    rfl
  · exact if_neg hidle

theorem changeStorage_of_ok {f : Storage → Except Error Storage} {storage : Storage}
    (h : f db.storage = .ok storage) :
    db.changeStorage f = (.ok (), { db with storage, used := true }) := by
  unfold changeStorage
  rw [h]

theorem StartsEmpty.unstamped (h : db.StartsEmpty) : db.leftovers.stamp = none := by
  rw [h.leftovers_eq]

/-- Nothing of what the storage held is found in what it holds after it was built anew. -/
theorem StartsEmpty.rebuilt_storage (h : db.StartsEmpty) : db.rebuilt.storage =
    { db.storage with contents := some (.built db.registry.tableSchemas db.nextStamp) } := by
  unfold rebuilt
  rw [h.leftovers_eq]
  rfl

/-- A storage that is created after the drop, which only one that exists needs, holds what is left. -/
theorem createStorage_dropped (db : Database) :
    (if db.storage.exists? = true then db.dropStorage else db).createStorage =
      (.ok (), db.holding db.leftovers) := by
  unfold dropStorage leftovers
  -- A storage that the drop leaves alone is created with all that it holds, any other one is empty.
  by_cases hidle : (db.storage.isAlwaysThere && !db.used) = true
  · rw [if_pos hidle, if_pos hidle, ite_self]
    rfl
  · rw [if_neg hidle, if_neg hidle]
    by_cases hexists : db.storage.exists? = true
    · rw [if_pos hexists]
      rfl
    · rw [if_neg hexists]
      have hnone : db.storage.contents = none := by
        unfold Storage.exists? at hexists
        simpa using (not_or.1 (mt Bool.or_eq_true_iff.2 hexists)).2
      refine changeStorage_of_ok (congrArg Except.ok ?_)
      unfold Storage.create
      rw [hnone]
      rfl

theorem createSchema_holding (db : Database) (contents : Contents) :
    (db.holding contents).createSchema =
      (.ok (), db.holding (db.registry.tableSchemas.foldl Contents.defineTable contents)) :=
  changeStorage_of_ok (Storage.change_eq_ok.2 ⟨contents, db.storage.read_of_contents contents, rfl⟩)

theorem stamp_of_ok {next : Database}
    (h : ({ db with supply := db.supply.advance } : Database).changeStorage
      (fun storage => storage.writeStamp db.nextStamp) = (.ok (), next)) :
    db.stamp = (.ok db.nextStamp, next) := by
  unfold nextStamp at h
  unfold Database.stamp
  dsimp only
  rw [h]
  rfl

theorem stamp_holding (db : Database) {contents : Contents} (h : contents.stamp = none) :
    (db.holding contents).stamp = (.ok db.nextStamp,
      { db.holding { contents with stamp := some db.nextStamp } with supply := db.supply.advance }) := by
  have hwrite : (db.holding contents).storage.writeStamp db.nextStamp =
      .ok { db.storage with contents := some { contents with stamp := some db.nextStamp } } := by
    have hread : (db.holding contents).storage.read = .ok contents := db.storage.read_of_contents contents
    unfold Storage.writeStamp
    rw [hread]
    simp only [bind, Except.bind, h]
    rfl
  have hstamped : ({ db.holding contents with supply := db.supply.advance } : Database).changeStorage
      (fun storage => storage.writeStamp db.nextStamp) = (.ok (), _) := changeStorage_of_ok hwrite
  exact stamp_of_ok hstamped

theorem read_flush_rebuilt (db : Database) : db.rebuilt.read Storage.flush = (.ok (), db.rebuilt) := by
  have hread : db.rebuilt.storage.flush = .ok () := by
    have hheld : db.rebuilt.storage.read = .ok _ := db.storage.read_of_contents _
    unfold Storage.flush
    rw [hheld]
    rfl
  unfold read
  rw [hread]
  rfl

end Database

open CommandM

/-- Building a storage anew succeeds if no stamp is left. -/
theorem rebuildStorage_runsTo {db : Database} (h : db.leftovers.stamp = none) :
    rebuildStorage.RunsTo db () db.rebuilt := by
  have hunstamped : (db.registry.tableSchemas.foldl Contents.defineTable db.leftovers).stamp = none :=
    (Contents.stamp_foldl_defineTable _ _).trans h
  unfold rebuildStorage
  refine runsTo_get_bind fun _ _ => ?_
  refine RunsTo.bind (runsTo_writeLine _ db) ?_
  refine RunsTo.bind (runsTo_writeLine _ db) ?_
  refine runsTo_get_bind fun console hconsole => ?_
  rw [hconsole]
  -- The drop may be left out: only a storage that exists is dropped.
  refine @runsTo_unless _ _ (if db.storage.exists? = true then db.dropStorage else db) _ _ _ _ _ _
    ?_ (fun hmissing => (if_neg hmissing).symm) ?_
  · intro hexists
    refine runsTo_modify fun other hother => ?_
    rw [if_pos hexists, ← hother]
  · -- From here on the storage holds what is left, and each step adds to it.
    refine RunsTo.bind (runsTo_writeLine _ _) ?_
    refine RunsTo.bind (runsTo_change (Database.createStorage_dropped db)) ?_
    refine RunsTo.bind (runsTo_writeLine _ _) ?_
    refine RunsTo.bind (runsTo_change (Database.createSchema_holding db _)) ?_
    refine RunsTo.bind (runsTo_writeLine _ _) ?_
    refine RunsTo.bind (runsTo_change (Database.stamp_holding db hunstamped)) ?_
    refine RunsTo.bind (runsTo_change (Database.read_flush_rebuilt db)) ?_
    exact runsTo_writeLine _ _

/-- The prompt, and what the user is asked again after each line without a decision. -/
def questions (repeats : Nat) : String :=
  confirmPrompt ++ String.join (List.replicate repeats repeatPrompt)

/-- Asking takes away the lines up to the decision and writes the questions. -/
theorem confirm_run (console : Console) :
    confirm.run console = .ok (decide? console.input).1
      { console with
        input := (decide? console.input).2.2
        output := console.output ++ questions (decide? console.input).2.1 } :=
  rfl

/-- A reset succeeds: it builds the storage anew if that was confirmed, and changes nothing if not. -/
theorem resetStorage_run (noinput : Bool) {console : Console}
    (h : console.db.leftovers.stamp = none) :
    ∃ confirmed after, (resetStorage noinput).run console = .ok confirmed after ∧
      (confirmed = true ↔ noinput = true ∨ (decide? console.input).1 = true) ∧
      after.db = if confirmed then console.db.rebuilt else console.db := by
  have hlast (confirmed : Bool) :
      (if confirmed then rebuildStorage >>= fun _ => pure confirmed else pure confirmed).RunsTo
        console.db confirmed (if confirmed then console.db.rebuilt else console.db) := by
    cases confirmed with
    | true => exact RunsTo.bind (rebuildStorage_runsTo h) (runsTo_pure true _)
    | false => exact runsTo_pure false _
  cases noinput with
  | true =>
      obtain ⟨after, hrun, hafter⟩ := hlast true console rfl
      exact ⟨true, after, hrun, by simp, hafter⟩
  | false =>
      -- Asking takes lines away, but leaves the database alone.
      obtain ⟨asked, hasked, hsame⟩ : ∃ asked,
          confirm.run console = .ok (decide? console.input).1 asked ∧ asked.db = console.db :=
        ⟨_, confirm_run console, rfl⟩
      obtain ⟨after, hrun, hafter⟩ := hlast (decide? console.input).1 asked hsame
      refine ⟨_, after, ?_, by simp, hafter⟩
      exact (EStateM.run_bind ..).trans (hasked ▸ hrun)

theorem Command.perform_resetStorage {noinput confirmed : Bool} {console after : Console}
    (h : (RecordStore.resetStorage noinput).run console = .ok confirmed after) :
    (Command.perform (.resetStorage noinput)).run console = .ok (some confirmed) after :=
  (EStateM.run_bind ..).trans (h ▸ rfl)

/-! ## First keys -/

namespace Scope

variable {env : Environment} {scope : Scope} {table sequence : String} {current : Nat}

theorem requireTable_of_some {schema : TableSchema}
    (h : env.storage.table? table = .ok (some schema)) :
    (requireTable env table).Ends scope (fun _ => scope.Asked env table) fun _ => False := by
  unfold requireTable
  refine ScopeM.ends_get_bind ?_
  by_cases hknown : scope.knownTables.contains table = true
  · rw [if_pos hknown]
    exact ScopeM.ends_pure (.known hknown)
  · rw [if_neg hknown, h]
    exact Asked.found schema h

theorem Asked.sequenceValue {asked : Scope} (h : scope.Asked env table asked) :
    asked.sequenceValue env sequence = scope.sequenceValue env sequence := by
  cases h with
  | known => rfl
  | found => rfl

/-- A sequence that has numbers left gives the one after its last. -/
theorem nextId_of_ok (hcurrent : scope.sequenceValue env sequence = .ok current)
    (hleft : current + 1 < 9223372036854775808) :
    (nextId env sequence).Ends scope
      (fun id after => id = Int64.ofNat (current + 1) ∧ after = scope.advance sequence (current + 1))
      fun _ => False := by
  unfold nextId
  refine ScopeM.ends_get_bind ?_
  refine ScopeM.ends_lift_bind_of_ok hcurrent ?_
  refine ScopeM.ends_modify_bind ?_
  rw [if_neg (Nat.not_le.2 hleft)]
  exact ScopeM.ends_pure ⟨rfl, rfl⟩

/-- A new record without a key is given the next key of its table. -/
theorem assignId_of_ok {handle : Handle} {entry : Entry} {schema : TableSchema}
    (hentry : scope.entries[handle]? = some entry)
    (hnew : entry.state = .pending ∧ entry.record.id = none)
    (htable : env.storage.table? entry.record.model.tableName = .ok (some schema))
    (hsequence : entry.record.model.sequence? = some sequence)
    (hcurrent : scope.sequenceValue env sequence = .ok current)
    (hleft : current + 1 < 9223372036854775808) :
    (assignId env handle).Ends scope
      (fun _ after => after.entries[handle]? =
        some { entry with record := entry.record.assignId (Int64.ofNat (current + 1)) })
      fun _ => False := by
  unfold assignId
  refine ScopeM.ends_entry_bind_of_some hentry ?_
  rw [if_pos hnew]
  -- Asking for the table moves no sequence and no record.
  refine ScopeM.ends_bind (requireTable_of_some htable) fun _ asked hasked => ?_
  rw [hsequence]
  refine ScopeM.ends_bind (nextId_of_ok (hasked.sequenceValue.trans hcurrent) hleft) ?_
  rintro _ _ ⟨rfl, rfl⟩
  refine ScopeM.ends_modify_bind (ScopeM.ends_modify ?_)
  have hkept : (asked.advance sequence (current + 1)).entries[handle]? = some entry := by
    rw [← hentry, ← hasked.same.entries]
    rfl
  exact getElem?_giveKey_self hkept entry.record.modelName _

end Scope

namespace Database

/-- The next key that a scope gives in the table of a model is the first one, unless the scope has given
keys there before. -/
def NumbersFromOne (db : Database) : Prop :=
  ∀ (scope : Scope) (handle : Handle) (entry : Entry), scope.entries[handle]? = some entry →
    entry.state = .pending → entry.record.id = none → entry.record.model ∈ db.registry.models →
    scope.sequences.find? (sequenceName entry.record.model.tableName) = none →
    ∃ after numbered, (Scope.assignId db.environment handle).run scope = .ok () after ∧
      after.entries[handle]? = some numbered ∧ numbered.record.id = some 1

theorem numbersFromOne_of_pristine {db : Database} (hconsistent : db.registry.Consistent)
    {contents : Contents} (hread : db.storage.read = .ok contents)
    (h : contents.Pristine db.registry.models) : db.NumbersFromOne := by
  intro scope handle entry hentry hstate hid hmodel hunused
  obtain ⟨_, -, hcompiled⟩ := hconsistent.mem_compiled hmodel
  have htable : db.storage.table? entry.record.model.tableName =
      .ok (some entry.record.model.tableSchema) :=
    Storage.table?_eq_ok.2 ⟨contents, hread, (h.cataloged _ _).2 ⟨_, hmodel, rfl, rfl⟩⟩
  have hcurrent : scope.sequenceValue db.environment (sequenceName entry.record.model.tableName) =
      .ok 0 := by
    unfold Scope.sequenceValue
    rw [hunused]
    exact Storage.sequenceValue_eq_ok.2 ⟨contents, hread, h.unused _⟩
  obtain ⟨_, after, hrun, hnumbered⟩ := ScopeM.Ends.run_eq
    (Scope.assignId_of_ok hentry ⟨hstate, hid⟩ htable hcompiled.sequence?_eq hcurrent (by decide))
  exact ⟨after, _, hrun, hnumbered, Record.assignId_id ..⟩

end Database

/-! ## Resets -/

/-- A reset succeeds, and when it was confirmed the storage is as good as new whatever it held: there are no
rows, no sequence has given a number, the catalog describes the tables of the models and nothing else, and
there is a stamp.  The next keys are the first ones, and another reset changes the time on the stamp
only. -/
theorem reset_reaches_fresh_state (calls : List Registry.Call)
    (hadmissible : ∀ call ∈ calls, call.Admissible) (noinput : Bool) (console : Console)
    (hregistry : console.db.registry = calls.foldl Registry.after {})
    (hstart : console.db.StartsEmpty) :
    ∃ confirmed after, (resetStorage noinput).run console = .ok confirmed after ∧
      (confirmed = true ↔ noinput = true ∨ (decide? console.input).1 = true) ∧
      (confirmed = false → after.db = console.db) ∧
      (confirmed = true → ∃ stamp,
        after.db.storage.read = .ok (.built console.db.registry.tableSchemas stamp) ∧
        (Contents.built console.db.registry.tableSchemas stamp).Pristine console.db.registry.models ∧
        after.db.NumbersFromOne ∧
        ∀ noinput' next final, next.db = after.db →
          (resetStorage noinput').run next = .ok true final →
          ∃ time, final.db.storage = { after.db.storage with
            contents := some
              (.built console.db.registry.tableSchemas { stamp with createdAt := time }) }) := by
  have hconsistent : console.db.registry.Consistent := by
    rw [hregistry]
    exact Registry.consistent_empty.foldl_after hadmissible
  obtain ⟨confirmed, after, hrun, hasked, hafter⟩ := resetStorage_run noinput hstart.unstamped
  refine ⟨confirmed, after, hrun, hasked, ?_, ?_⟩
  · rintro rfl
    exact hafter
  · rintro rfl
    rw [if_pos rfl] at hafter
    have hpristine := Contents.pristine_built hconsistent console.db.nextStamp
    have hread : after.db.storage.read =
        .ok (.built console.db.registry.tableSchemas console.db.nextStamp) := by
      rw [hafter, hstart.rebuilt_storage]
      exact console.db.storage.read_of_contents _
    have hkept : after.db.registry = console.db.registry := by
      rw [hafter]
      rfl
    refine ⟨console.db.nextStamp, hread, hpristine, ?_, ?_⟩
    · refine Database.numbersFromOne_of_pristine ?_ hread ?_
      · rwa [hkept]
      · rwa [hkept]
    · intro noinput' next final hnext hagain
      -- The storage has been used by now, so that the next drop clears it.
      have hused : next.db.StartsEmpty := by
        rw [hnext, hafter]
        exact fun _ => Or.inl rfl
      obtain ⟨_, _, hrun', -, hfinal⟩ := resetStorage_run noinput' hused.unstamped
      obtain ⟨rfl, rfl⟩ := EStateM.Result.ok.inj (hagain.symm.trans hrun')
      rw [if_pos rfl] at hfinal
      refine ⟨next.db.nextStamp.createdAt, ?_⟩
      rw [hfinal, hused.rebuilt_storage, hnext, hafter]
      rfl

/-- Notes in a storage that was used and stamped, with rows of a table that has no model any more. -/
def usedNotes : Database := { plainNotes with
  storage := { plainNotes.storage with
    contents := some {
      rows := .ofList [(rowKey "notes" 4, emptyRow), (rowKey "cards" 1, emptyRow)]
      sequences := .ofList [("notes_id_seq", 4), ("cards_id_seq", 1)]
      stamp := some plainNotes.nextStamp } }
  used := true }

theorem reset_reaches_fresh_state_of_notes :
    ∃ after, (resetStorage true).run { db := usedNotes } = .ok true after ∧
      after.db.storage.sequenceValue "notes_id_seq" = .ok 0 ∧
      after.db.storage.row? "cards" 1 = .ok none ∧ after.db.NumbersFromOne := by
  have hadmissible : ∀ call ∈ [Registry.Call.register (.declaration {
      name := "Note", tableName := some "notes", relatedName := some "notes" })], call.Admissible := by
    simp [Registry.Call.Admissible, Candidate.Admissible, Blueprint.Composed.base]
  have hstart : usedNotes.StartsEmpty := fun _ => Or.inl rfl
  obtain ⟨confirmed, after, hrun, hasked, -, hbuilt⟩ :=
    reset_reaches_fresh_state _ hadmissible true { db := usedNotes } rfl hstart
  obtain rfl := hasked.2 (Or.inl rfl)
  obtain ⟨stamp, hread, hpristine, hnumbers, -⟩ := hbuilt rfl
  refine ⟨after, hrun, ?_, ?_, hnumbers⟩
  · exact Storage.sequenceValue_eq_ok.2 ⟨_, hread, hpristine.unused _⟩
  · refine Storage.row?_eq_ok.2 ⟨_, hread, ?_⟩
    unfold Contents.row?
    rw [hpristine.rows]
    rfl

/-- Notes in a storage in memory that keeps a directory: a row was written, and the database was opened
again. -/
def keptNotes : Database :=
  let notes : Database :=
    { plainNotes with storage := { plainNotes.storage with settings := { path := "notes" } } }
  let batch : Batch := {
    writes := [.put "notes" 1 emptyRow], sequences := .ofList [("notes_id_seq", 1)] }
  { (notes.write batch).2.reopen with registry := notes.registry }

/-- The drop clears nothing because the storage was not used, so the row and its number outlive the
reset. -/
theorem unused_storage_outlives_reset :
    ∃ after, (resetStorage true).run { db := keptNotes } = .ok true after ∧
      after.db.storage.row? "notes" 1 = .ok (some emptyRow) ∧
      after.db.storage.sequenceValue "notes_id_seq" = .ok 1 := by
  have hleft : keptNotes.leftovers.stamp = none := rfl
  obtain ⟨confirmed, after, hrun, hasked, hafter⟩ := @resetStorage_run true { db := keptNotes } hleft
  obtain rfl := hasked.2 (Or.inl rfl)
  rw [if_pos rfl] at hafter
  refine ⟨after, hrun, ?_, ?_⟩
  · rw [hafter]
    decide +kernel
  · rw [hafter]
    decide +kernel

namespace Machine

/-- What a command finds in memory is empty, because the storage is there for this command only. -/
theorem startsEmpty_databaseAt (machine : Machine) (address : Address) :
    (machine.databaseAt address).StartsEmpty := by
  intro hthere
  refine Or.inr (if_pos ?_)
  by_contra hdisk
  rw [Bool.not_eq_true] at hdisk
  have hlasting : (Settings.ofAddress address).temporary = false := by
    unfold Settings.ofAddress
    rw [hdisk]
    rfl
  have hgone : (Storage.atAddress address).isAlwaysThere = false := by
    unfold Storage.isAlwaysThere Storage.atAddress
    simp only [hdisk, hlasting]
    rfl
  exact Bool.false_ne_true (hgone.symm.trans hthere)

/-- A program that is told to reset a storage and not to ask always succeeds, and keeps a storage that was
built anew. -/
theorem execute_resetStorage {machine : Machine} {text : String} {db : Database}
    (h : machine.openDatabase text = .ok db) (input : String) :
    ∃ output, machine.execute text (.resetStorage true) input =
      (output, .ok (), machine.keep db.rebuilt) := by
  obtain ⟨address, -, rfl⟩ := parse_of_openDatabase h
  obtain ⟨confirmed, after, hrun, hasked, hafter⟩ := @resetStorage_run true
    { db := machine.databaseAt address, input := linesOf input }
    (machine.startsEmpty_databaseAt address).unstamped
  rw [hasked.2 (Or.inl rfl), if_pos rfl] at hafter
  refine ⟨after.output, ?_⟩
  rw [execute_of_ok h (by simp) (Command.perform_resetStorage hrun), hafter]

end Machine

end RecordStore
