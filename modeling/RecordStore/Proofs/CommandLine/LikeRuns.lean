import RecordStore.CommandLine.Console
import RecordStore.Proofs.Outcome

/-!
# Runs that cannot be told apart

Two storages are alike when they hold the same with the same settings and their addresses are shown as the
same text.  Commands that start alike end alike (`Command.alike`): they write the same, give the same
result or the same error, and leave what is alike.  So nothing of an address gets out of a command but the
text that is shown of it.
-/

namespace RecordStore

/-! ## What is alike -/

/-- Two addresses that are shown alike, both of storages in memory or both not. -/
structure Address.Alike (a b : Address) : Prop where
  text : a.toText = b.toText
  memory : a.isMemory = b.isMemory

/-- Two storages with addresses that are alike and nothing else that differs. -/
structure Storage.Alike (a b : Storage) : Prop where
  address : a.address.Alike b.address
  settings : a.settings = b.settings
  contents : a.contents = b.contents

/-- Two databases on storages that are alike, with nothing else that differs. -/
structure Database.Alike (a b : Database) : Prop where
  storage : a.storage.Alike b.storage
  registry : a.registry = b.registry
  host : a.host = b.host
  supply : a.supply = b.supply
  scope : a.scope = b.scope
  used : a.used = b.used

/-- Two consoles on databases that are alike, with the same input and output. -/
structure Console.Alike (c d : Console) : Prop where
  db : c.db.Alike d.db
  input : c.input = d.input
  output : c.output = d.output

/-- Two outcomes with the same result or the same error, and consoles that are alike. -/
inductive LikeOutcomes {α : Type} :
    EStateM.Result CommandError Console α → EStateM.Result CommandError Console α → Prop where
  | ok (a : α) {c d : Console} (h : c.Alike d) : LikeOutcomes (.ok a c) (.ok a d)
  | error (e : CommandError) {c d : Console} (h : c.Alike d) :
      LikeOutcomes (.error e c) (.error e d)

/-- Two things to do that end alike when they start alike. -/
def CommandM.Alike {α : Type} (x y : CommandM α) : Prop :=
  ∀ c d : Console, c.Alike d → LikeOutcomes (x.run c) (y.run d)

/-! ## Storages -/

namespace Storage.Alike

variable {a b : Storage}

theorem isAlwaysThere (h : a.Alike b) : a.isAlwaysThere = b.isAlwaysThere := by
  unfold Storage.isAlwaysThere
  rw [h.address.memory, h.settings]

theorem exists? (h : a.Alike b) : a.exists? = b.exists? := by
  unfold Storage.exists?
  rw [h.isAlwaysThere, h.contents]

theorem read (h : a.Alike b) : a.read = b.read := by
  unfold Storage.read
  rw [h.exists?, h.contents, h.address.text]

theorem flush (h : a.Alike b) : a.flush = b.flush := by
  unfold Storage.flush
  rw [h.read]

theorem readStamp (h : a.Alike b) : a.readStamp = b.readStamp := by
  unfold Storage.readStamp
  rw [h.read]

theorem withContents (h : a.Alike b) (contents : Option Contents) :
    ({ a with contents } : Storage).Alike { b with contents } where
  address := h.address
  settings := h.settings
  contents := rfl

end Storage.Alike

/-- Two changes that fail with the same error or leave storages that are alike. -/
inductive LikeChanges : Except Error Storage → Except Error Storage → Prop where
  | ok {a b : Storage} (h : a.Alike b) : LikeChanges (.ok a) (.ok b)
  | error (e : Error) : LikeChanges (.error e) (.error e)

namespace Storage.Alike

variable {a b : Storage}

theorem change (h : a.Alike b) (f : Contents → Contents) : LikeChanges (a.change f) (b.change f) := by
  unfold Storage.change
  rw [h.read]
  cases b.read with
  | error error => exact .error error
  | ok contents => exact .ok (h.withContents _)

theorem writeStamp (h : a.Alike b) (stamp : Stamp) :
    LikeChanges (a.writeStamp stamp) (b.writeStamp stamp) := by
  unfold Storage.writeStamp
  rw [h.read]
  cases b.read with
  | error error => exact .error error
  | ok contents =>
      by_cases hstamped : contents.stamp.isSome = true
      · simp only [bind, Except.bind, hstamped, if_true]
        exact .error .stampExists
      · simp only [bind, Except.bind, hstamped]
        exact .ok (h.withContents _)

end Storage.Alike

/-! ## Databases -/

/-- Two answers of databases that tell the same and leave what is alike. -/
def LikeAnswers {α : Type} (x y : Except Error α × Database) : Prop :=
  x.1 = y.1 ∧ x.2.Alike y.2

namespace Database.Alike

variable {a b : Database}

theorem changeStorage (h : a.Alike b) (f : Storage → Except Error Storage)
    (hchange : LikeChanges (f a.storage) (f b.storage)) :
    LikeAnswers (a.changeStorage f) (b.changeStorage f) := by
  unfold Database.changeStorage
  generalize f a.storage = x at hchange ⊢
  generalize f b.storage = y at hchange ⊢
  cases hchange with
  | ok hafter => exact ⟨rfl, { h with storage := hafter, used := rfl }⟩
  | error e => exact ⟨rfl, { h with used := rfl }⟩

theorem createStorage (h : a.Alike b) : LikeAnswers a.createStorage b.createStorage := by
  refine h.changeStorage _ (.ok ?_)
  unfold Storage.create
  rw [h.storage.contents]
  exact h.storage.withContents _

theorem createSchema (h : a.Alike b) : LikeAnswers a.createSchema b.createSchema := by
  unfold Database.createSchema
  rw [h.registry]
  exact h.changeStorage _ (h.storage.change _)

theorem stamp (h : a.Alike b) : LikeAnswers a.stamp b.stamp := by
  unfold Database.stamp
  rw [h.host, h.supply]
  have hadvanced : ({ a with host := b.host, supply := b.supply.advance } : Database).Alike
      { b with supply := b.supply.advance } := { h with host := rfl, supply := rfl }
  have hstamped := hadvanced.changeStorage
    (fun storage => storage.writeStamp (Stamp.collect b.host b.supply.now)) (h.storage.writeStamp _)
  -- Both write the same stamp and tell it in the same way, so that only the writing is compared.
  revert hstamped
  dsimp only
  generalize Database.changeStorage _ _ = x
  generalize Database.changeStorage _ _ = y
  rintro ⟨hresult, hafter⟩
  obtain ⟨result, after⟩ := x
  obtain ⟨_, after'⟩ := y
  obtain rfl : result = _ := hresult
  cases result with
  | ok done => exact ⟨rfl, hafter⟩
  | error error => exact ⟨rfl, hafter⟩

theorem read {α : Type} (h : a.Alike b) {f : Storage → Except Error α}
    (hread : f a.storage = f b.storage) : LikeAnswers (a.read f) (b.read f) :=
  ⟨hread, { h with used := rfl }⟩

theorem dropStorage (h : a.Alike b) : a.dropStorage.Alike b.dropStorage := by
  unfold Database.dropStorage
  rw [h.storage.isAlwaysThere, h.used]
  split
  · exact h
  · exact { h with storage := h.storage.withContents none, used := rfl }

end Database.Alike

/-! ## Commands -/

namespace CommandM

variable {α β : Type}

theorem alike_pure (a : α) : Alike (pure a) (pure a) :=
  fun _ _ h => .ok a h

theorem alike_throw (e : CommandError) : Alike (throw e : CommandM α) (throw e) :=
  fun _ _ h => .error e h

theorem Alike.bind {x y : CommandM α} {f g : α → CommandM β} (h : Alike x y)
    (hnext : ∀ a, Alike (f a) (g a)) : Alike (x >>= f) (y >>= g) := by
  intro c d hstart
  have hfirst := h c d hstart
  show LikeOutcomes (EStateM.bind x f c) (EStateM.bind y g d)
  unfold EStateM.bind
  unfold EStateM.run at hfirst
  generalize x c = first at hfirst ⊢
  generalize y d = second at hfirst ⊢
  cases hfirst with
  | ok a hafter => exact hnext a _ _ hafter
  | error e hafter => exact .error e hafter

/-- What goes on from the console may be told in different ways by consoles that are alike. -/
theorem alike_get {f g : Console → CommandM α} (h : ∀ c d, c.Alike d → Alike (f c) (g d)) :
    Alike (get >>= f) (get >>= g) :=
  fun c d hstart => h c d hstart c d hstart

theorem alike_modify {f : Console → Console} (h : ∀ c d : Console, c.Alike d → (f c).Alike (f d)) :
    Alike (modify f) (modify f) :=
  fun c d hstart => .ok () (h c d hstart)

theorem alike_lift (answer : Except Error α) : Alike (lift answer) (lift answer) := by
  cases answer with
  | ok a => exact alike_pure a
  | error error => exact alike_throw _

theorem alike_change {f : Database → Except Error α × Database}
    (h : ∀ a b : Database, a.Alike b → LikeAnswers (f a) (f b)) : Alike (change f) (change f) := by
  intro c d hstart
  obtain ⟨hresult, hafter⟩ := h c.db d.db hstart.db
  have hlift := alike_lift (f d.db).1 { c with db := (f c.db).2 } { d with db := (f d.db).2 }
    { hstart with db := hafter }
  show LikeOutcomes ((lift (f c.db).1).run _) _
  rw [hresult]
  exact hlift

theorem alike_write (text : String) : Alike (write text) (write text) :=
  alike_modify fun _ _ h => { h with output := congrArg (· ++ text) h.output }

theorem alike_writeLine (text : String) : Alike (writeLine text) (writeLine text) :=
  alike_write _

/-- Something may be done before what is done in any case. -/
theorem alike_unless {x : CommandM Unit} {next : Unit → CommandM α} (condition : Prop)
    [Decidable condition] (hx : Alike x x) (hnext : ∀ u, Alike (next u) (next u)) :
    Alike (if condition then x >>= next else next ()) (if condition then x >>= next else next ()) := by
  by_cases hcondition : condition
  · simp only [if_pos hcondition]
    exact hx.bind hnext
  · simp only [if_neg hcondition]
    exact hnext ()

theorem alike_confirm : Alike confirm confirm := by
  refine alike_get fun c d h => ?_
  rw [h.input]
  obtain ⟨decision, repeats, left⟩ := decide? d.input
  refine (alike_write _).bind fun _ => ?_
  exact Alike.bind (alike_modify fun _ _ h => { h with input := rfl }) fun _ => alike_pure _

theorem alike_rebuildStorage : Alike rebuildStorage rebuildStorage := by
  unfold rebuildStorage
  -- The text that is shown is all that the first line tells of the address.
  refine alike_get fun c d h => ?_
  rw [h.db.storage.address.text]
  refine (alike_writeLine _).bind fun _ => ?_
  refine (alike_writeLine _).bind fun _ => ?_
  -- Whether the storage is dropped is decided alike on both sides.
  refine alike_get fun c d h => ?_
  rw [h.db.storage.exists?]
  refine alike_unless _ (alike_modify fun _ _ h => { h with db := h.db.dropStorage }) fun _ => ?_
  refine (alike_writeLine _).bind fun _ => ?_
  refine (alike_change fun _ _ h => h.createStorage).bind fun _ => ?_
  refine (alike_writeLine _).bind fun _ => ?_
  refine (alike_change fun _ _ h => h.createSchema).bind fun _ => ?_
  refine (alike_writeLine _).bind fun _ => ?_
  refine (alike_change fun _ _ h => h.stamp).bind fun _ => ?_
  refine (alike_change fun _ _ h => h.read h.storage.flush).bind fun _ => ?_
  exact alike_writeLine _

theorem alike_resetStorage (noinput : Bool) : Alike (resetStorage noinput) (resetStorage noinput) := by
  have hrebuilt (confirmed : Bool) : Alike
      (if confirmed then rebuildStorage >>= fun _ => pure confirmed else pure confirmed)
      (if confirmed then rebuildStorage >>= fun _ => pure confirmed else pure confirmed) :=
    alike_unless _ alike_rebuildStorage fun _ => alike_pure _
  cases noinput with
  | true => exact Alike.bind (alike_pure true) hrebuilt
  | false => exact Alike.bind alike_confirm hrebuilt

theorem alike_showStamp : Alike showStamp showStamp := by
  refine (alike_change fun _ _ h => h.read h.storage.readStamp).bind fun stamp => ?_
  cases stamp with
  | some stamp => exact alike_writeLine _
  | none =>
      refine alike_get fun c d h => ?_
      rw [h.db.storage.address.text]
      exact alike_throw _

theorem alike_forM {f : β → CommandM PUnit} (h : ∀ b, Alike (f b) (f b)) (bs : List β) :
    Alike (bs.forM f) (bs.forM f) := by
  induction bs with
  | nil => exact alike_pure _
  | cons b bs ih =>
      exact Alike.bind (h b) fun _ => ih

theorem alike_showModels (name : Option String) : Alike (showModels name) (showModels name) := by
  refine alike_get fun c d h => ?_
  rw [h.db.registry]
  cases name with
  | none => exact alike_forM (fun _ => alike_writeLine _) _
  | some name =>
      cases hfound : d.db.registry.find? name with
      | some model => 
        simp only [hfound]
        exact alike_writeLine _
      | none => 
        simp only [hfound]
        exact alike_throw _

end CommandM

open CommandM

theorem Command.alike (command : Command) : Alike command.perform command.perform := by
  cases command with
  | version => exact (alike_write _).bind fun _ => alike_pure _
  | resetStorage noinput => exact (alike_resetStorage noinput).bind fun _ => alike_pure _
  | stamp => exact alike_showStamp.bind fun _ => alike_pure _
  | models name => exact (alike_showModels name).bind fun _ => alike_pure _

end RecordStore
