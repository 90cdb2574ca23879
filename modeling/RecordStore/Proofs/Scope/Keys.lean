import RecordStore.Proofs.Scope.SoundRows

/-!
# Keys of records

What holds of keys while every record with a key that comes from outside has its row
(`Scope.Keyed`): a key stands for one record, keys and numbers of rows do not exceed what their
sequence has given, and a record has a row exactly when it is stored.  Without that condition a record
may claim a number that the sequence has yet to give.
-/

namespace RecordStore

namespace Scope

variable {env : Environment} {terms : Terms} {deleted : List (String × UInt64)}
  {scope before after : Scope} {images : List RowImage} {handle : Handle} {s : Standing}
  {sequence : String}

/-! ## Records that have their rows to themselves -/

/-- No other record of the scope is for the row of a record. -/
def Sole (scope : Scope) (handle : Handle) : Prop :=
  ∀ ⦃other : Handle⦄ ⦃s s' : Standing⦄ ⦃id id' : Int64⦄, scope.standing handle = some s →
    scope.standing other = some s' → s.id = some id → s'.id = some id' →
    s'.model.tableName = s.model.tableName → id'.toUInt64 = id.toUInt64 → other = handle

namespace Sole

/-- A record that has its row to itself has had it so as long as records have kept their models and keys. -/
theorem of_kept (h : after.Sole handle)
    (hkept : ∀ place s, before.standing place = some s → ∃ s', after.standing place = some s' ∧
      s'.model = s.model ∧ ∀ id, s.id = some id → s'.id = some id) : before.Sole handle := by
  intro other s s' id id' hs hs' hid hid' htable hnumber
  obtain ⟨new, hnew, hmodel, hkey⟩ := hkept _ _ hs
  obtain ⟨new', hnew', hmodel', hkey'⟩ := hkept _ _ hs'
  exact h hnew hnew' (hkey id hid) (hkey' id' hid') (by rw [hmodel, hmodel', htable]) hnumber

theorem of_move (h : after.Sole handle) (hmove : Move env terms before after) : before.Sole handle :=
  h.of_kept fun _ _ hs => hmove.carries hs

theorem of_carries (h : after.Sole handle) (hcarries : before.Carries after) : before.Sole handle := by
  refine h.of_kept ?_
  intro place s hs
  obtain ⟨entry, hentry, rfl⟩ := Option.map_eq_some_iff.1 hs
  obtain ⟨new, hnew, hmodel, hid⟩ := hcarries place entry hentry
  exact ⟨_, standing_of_entry hnew, hmodel, hid⟩

variable (h : scope.Sole handle) (himages : Images env scope scope.handles images)
  (hs : scope.standing handle = some s) {id : Int64} (hid : s.id = some id)

include h himages hs hid

/-- An image for the row of the record is the image of the record. -/
theorem image_own {image : RowImage} (himage : image ∈ images)
    (hkey : imageKey image = (s.model.tableName, id.toUInt64)) : Image env scope s (some image) := by
  obtain ⟨other, s', hs', hmade⟩ := himages.made image himage
  obtain ⟨hmodel, id', hid', -, hnumber⟩ := hmade.some_cases
  unfold imageKey at hkey
  rw [hmodel, hnumber, Prod.mk.injEq] at hkey
  obtain rfl := h hs hs' hid hid' hkey.1 hkey.2
  obtain rfl := Option.some.inj (hs.symm.trans hs')
  exact hmade

/-- What the record makes of its row: what its image stages, or what was there. -/
theorem visibleRow_settled :
    (∃ image, Image env scope s (some image) ∧
      (settle images scope).visibleRow env s.model.tableName id.toUInt64 =
        .ok (image.content.map (·.1))) ∨
    ((s.state = .persistent ∨ s.state = .removed) ∧
      (settle images scope).visibleRow env s.model.tableName id.toUInt64 =
        scope.visibleRow env s.model.tableName id.toUInt64) := by
  rcases find?_foldl_stageImage images scope.staged (s.model.tableName, id.toUInt64) with
    ⟨image, himage, hkey, hfind⟩ | ⟨hother, hfind⟩
  · exact Or.inl ⟨image, h.image_own himages hs hid himage hkey, visibleRow_of_staged hfind⟩
  · refine Or.inr ⟨?_, visibleRow_congr hfind⟩
    -- A record that is new or goes away has an image for its row.
    by_contra hstate
    rw [not_or] at hstate
    have hasks : s.state = .pending ∨ s.state = .deleted := by
      cases hcase : s.state with
      | pending => exact Or.inl rfl
      | deleted => exact Or.inr rfl
      | persistent => exact absurd hcase hstate.1
      | removed => exact absurd hcase hstate.2
    obtain ⟨image, himage, hmade⟩ :=
      himages.complete handle (List.mem_range.2 (lt_of_standing hs)) s hs hasks
    obtain ⟨hmodel, key, hkey, -, hnumber⟩ := hmade.some_cases
    obtain rfl := Option.some.inj (hid.symm.trans hkey)
    exact hother image himage (by rw [imageKey, hmodel, hnumber])

end Sole

/-! ## The invariant -/

/-- What holds of the key of one record. -/
structure KeyedRecord (env : Environment) (scope : Scope) (handle : Handle) (s : Standing) :
    Prop where
  identified : ∀ id, s.id = some id → 0 < id.toInt ∧
    scope.identity.find? (s.model.name, id) = some handle
  numbered : ∀ id sequence value, s.id = some id → s.model.sequence? = some sequence →
    scope.sequenceValue env sequence = .ok value → id.toInt ≤ value
  present : s.state = .persistent ∨ s.state = .deleted → ∃ id row, s.id = some id ∧
    scope.visibleRow env s.model.tableName id.toUInt64 = .ok (some row)
  absent : s.state = .pending ∨ s.state = .removed → ∀ id row, s.id = some id →
    scope.visibleRow env s.model.tableName id.toUInt64 ≠ .ok (some row)

/-- What holds of the keys of all records, and of the numbers of all rows. -/
structure Keyed (env : Environment) (scope : Scope) : Prop where
  records : ∀ handle s, scope.standing handle = some s → scope.KeyedRecord env handle s
  rows : ∀ model ∈ env.registry.models, ∀ number row,
    scope.visibleRow env model.tableName number = .ok (some row) → 0 < number.toNat ∧
      ∀ sequence value, model.sequence? = some sequence →
        scope.sequenceValue env sequence = .ok value → number.toNat ≤ value

/-- The sequences of a scope have not gone back. -/
def Advances (env : Environment) (before after : Scope) : Prop :=
  ∀ sequence value, after.sequenceValue env sequence = .ok value →
    ∃ old, before.sequenceValue env sequence = .ok old ∧ old ≤ value

theorem Advances.refl (env : Environment) (scope : Scope) : scope.Advances env scope :=
  fun _ value hvalue => ⟨value, hvalue, Nat.le_refl _⟩

theorem advances_advance {current value : Nat}
    (hcurrent : scope.sequenceValue env sequence = .ok current) (hle : current ≤ value) :
    scope.Advances env (scope.advance sequence value) := by
  intro other later hlater
  rw [sequenceValue_advance] at hlater
  by_cases hsame : other = sequence
  · rw [if_pos hsame] at hlater
    cases hlater
    exact ⟨current, hsame ▸ hcurrent, hle⟩
  · rw [if_neg hsame] at hlater
    exact ⟨later, hlater, Nat.le_refl _⟩

/-- A record whose key still stands for it stays as it is while rows stay. -/
theorem KeyedRecord.transfer (h : before.KeyedRecord env handle s)
    (hidentity : ∀ id, s.id = some id →
      after.identity.find? (s.model.name, id) = before.identity.find? (s.model.name, id))
    (hstaged : after.staged = before.staged) (hsequences : before.Advances env after) :
    after.KeyedRecord env handle s := by
  have hvisible : ∀ table number,
      after.visibleRow env table number = before.visibleRow env table number := fun _ _ =>
    visibleRow_congr (by rw [hstaged])
  constructor
  case identified =>
    intro id hid
    rw [hidentity id hid]
    exact h.identified id hid
  case numbered =>
    intro id sequence value hid hsequence hvalue
    obtain ⟨old, hold, hle⟩ := hsequences sequence value hvalue
    have hnumbered := h.numbered id sequence old hid hsequence hold
    omega
  case present =>
    simp only [hvisible]
    exact h.present
  case absent =>
    simp only [hvisible]
    exact h.absent

namespace Keyed

theorem rows_transfer (h : before.Keyed env) (hstaged : after.staged = before.staged)
    (hsequences : before.Advances env after) :
    ∀ model ∈ env.registry.models, ∀ number row,
      after.visibleRow env model.tableName number = .ok (some row) → 0 < number.toNat ∧
        ∀ sequence value, model.sequence? = some sequence →
          after.sequenceValue env sequence = .ok value → number.toNat ≤ value := by
  intro model hmodel number row hrow
  have hbefore : before.visibleRow env model.tableName number = .ok (some row) :=
    (visibleRow_congr (by rw [hstaged])).symm.trans hrow
  obtain ⟨hpositive, hnumbered⟩ := h.rows model hmodel number row hbefore
  refine ⟨hpositive, ?_⟩
  intro sequence value hsequence hvalue
  obtain ⟨old, hold, hle⟩ := hsequences sequence value hvalue
  exact Nat.le_trans (hnumbered sequence old hsequence hold) hle

/-- Nothing changes when every record stays and no row does. -/
theorem of_same_records (h : before.Keyed env)
    (hstanding : ∀ handle, after.standing handle = before.standing handle)
    (hidentity : after.identity = before.identity) (hstaged : after.staged = before.staged)
    (hsequences : before.Advances env after) : after.Keyed env where
  records handle s hs := by
    rw [hstanding] at hs
    exact (h.records handle s hs).transfer (fun _ _ => by rw [hidentity]) hstaged hsequences
  rows := h.rows_transfer hstaged hsequences

/-! ## New keys -/

section NewKeys

variable (hregistry : env.registry.Consistent) (hrooted : before.Rooted env) (h : before.Keyed env)
  {model : Model} (hmodel : model ∈ env.registry.models) (hsequence : model.sequence? = some sequence)
  {current : Nat} (hcurrent : before.sequenceValue env sequence = .ok current) {id : Int64}
  (hid : id.toInt = current + 1)

include hregistry hrooted h hmodel hsequence hcurrent hid

/-- The next number of a sequence is the key of no record. -/
theorem next_ne_id (hs : before.standing handle = some s) (hname : s.model.name = model.name) :
    s.id ≠ some id := by
  intro hkey
  have hsame := hregistry.eq_of_name (hrooted.registered handle s hs) hmodel hname
  have hle := (h.records handle s hs).numbered id sequence current hkey (hsame ▸ hsequence) hcurrent
  omega

omit hregistry hrooted in
/-- The next number of a sequence is greater than the numbers of all rows. -/
theorem lt_next {number : UInt64} {row : StoredRow}
    (hrow : before.visibleRow env model.tableName number = .ok (some row)) :
    (number.toNat : Int) < id.toInt := by
  have hle := (h.rows model hmodel number row hrow).2 sequence current hsequence hcurrent
  omega

theorem giveKey (hnew : before.standing handle = some { state := .pending, model, id := none }) :
    ((before.advance sequence (current + 1)).giveKey handle model.name id).Keyed env := by
  have hadvances : before.Advances env
      ((before.advance sequence (current + 1)).giveKey handle model.name id) :=
    advances_advance hcurrent (Nat.le_succ _)
  refine ⟨?_, h.rows_transfer rfl hadvances⟩
  intro other s hs
  rw [standing_giveKey (before.advance sequence (current + 1)) hnew] at hs
  by_cases hsame : handle = other
  · subst hsame
    rw [if_pos rfl] at hs
    cases hs
    constructor
    case identified =>
      intro key hkey
      cases hkey
      refine ⟨by omega, ?_⟩
      rw [find?_identity_giveKey, if_pos rfl]
    case numbered =>
      intro key other value hkey hother hvalue
      cases hkey
      obtain rfl := Option.some.inj (hsequence.symm.trans hother)
      have hgiven : (before.advance sequence (current + 1)).sequenceValue env sequence = .ok value :=
        hvalue
      rw [sequenceValue_advance, if_pos rfl] at hgiven
      cases hgiven
      omega
    case present =>
      rintro (hstate | hstate)
      · cases hstate
      · cases hstate
    case absent =>
      intro _ key row hkey hrow
      cases hkey
      have hlt := h.lt_next hmodel hsequence hcurrent hid hrow
      have hnumber := toNat_toUInt64 (by omega : 0 ≤ id.toInt)
      omega
  · rw [if_neg hsame] at hs
    refine (h.records other s hs).transfer ?_ rfl hadvances
    intro key hkey
    -- The key that was given away stood for no other record of the model.
    have hne : ¬(s.model.name, key) = (model.name, id) := by
      intro heq
      obtain ⟨hname, rfl⟩ := Prod.mk.inj heq
      exact h.next_ne_id hregistry hrooted hmodel hsequence hcurrent hid hs hname hkey
    rw [find?_identity_giveKey, if_neg hne]
    rfl

end NewKeys

/-! ## New records -/

theorem enter (h : before.Keyed env) {record : Record} (hid : record.id = none) :
    (before.appendAs { record, state := .pending } before.identity).Keyed env := by
  refine ⟨?_, h.rows_transfer rfl (.refl env before)⟩
  intro handle s hs
  rw [standing_appendAs] at hs
  by_cases hnew : handle = before.entries.length
  · rw [if_pos hnew] at hs
    cases hs
    have hnone : ∀ id, (Entry.standing { record, state := .pending }).id ≠ some id := by
      intro id hkey
      have hkey' : record.id = some id := hkey
      rw [hid] at hkey'
      cases hkey'
    refine ⟨fun id hkey => absurd hkey (hnone id), fun id _ _ hkey => absurd hkey (hnone id), ?_,
      fun _ id _ hkey => absurd hkey (hnone id)⟩
    rintro (hstate | hstate)
    · cases hstate
    · cases hstate
  · rw [if_neg hnew] at hs
    exact (h.records handle s hs).transfer (fun _ _ => rfl) rfl (.refl env before)

theorem adopt (h : before.Keyed env) {record : Record} (hmodel : record.model ∈ env.registry.models)
    {id : Int64} (hid : record.id = some id)
    (hfind : before.identity.find? (record.modelName, id) = none) (hpositive : 0 ≤ id.toInt)
    {row : StoredRow}
    (hrow : before.visibleRow env record.model.tableName id.toUInt64 = .ok (some row)) :
    (before.appendAs { record, state := .persistent }
      (before.identity.insert (record.modelName, id) before.entries.length)).Keyed env := by
  obtain ⟨hnumber, hnumbered⟩ := h.rows _ hmodel _ row hrow
  have hnat := toNat_toUInt64 hpositive
  refine ⟨?_, h.rows_transfer rfl (.refl env before)⟩
  intro handle s hs
  rw [standing_appendAs] at hs
  by_cases hnew : handle = before.entries.length
  · rw [if_pos hnew] at hs
    cases hs
    have hkey : ∀ key, (Entry.standing { record, state := .persistent }).id = some key → key = id := by
      intro key hkey
      exact Option.some.inj (hkey.symm.trans hid)
    constructor
    case identified =>
      intro key hsame
      obtain rfl := hkey key hsame
      refine ⟨by omega, ?_⟩
      rw [hnew]
      exact (SortedMap.find?_insert ..).trans (if_pos rfl)
    case numbered =>
      intro key sequence value hsame hsequence hvalue
      obtain rfl := hkey key hsame
      have hle := hnumbered sequence value hsequence hvalue
      omega
    case present =>
      intro _
      exact ⟨id, row, hid, hrow⟩
    case absent =>
      rintro (hstate | hstate)
      · cases hstate
      · cases hstate
  · rw [if_neg hnew] at hs
    refine (h.records handle s hs).transfer ?_ rfl (.refl env before)
    intro key hkey
    -- The key stood for no record before.
    have hne : ¬(s.model.name, key) = (record.modelName, id) := by
      intro heq
      have hidentified := ((h.records handle s hs).identified key hkey).2
      rw [heq, hfind] at hidentified
      cases hidentified
    exact (SortedMap.find?_insert ..).trans (if_neg hne)

theorem withdraw (h : before.Keyed env) (handle : Handle) : (before.withdraw handle).Keyed env := by
  refine ⟨?_, h.rows_transfer rfl (.refl env before)⟩
  intro other s hs
  rw [standing_withdraw] at hs
  obtain ⟨old, hold, rfl⟩ := Option.map_eq_some_iff.1 hs
  have hrecord : (before.withdraw handle).KeyedRecord env other old :=
    (h.records other old hold).transfer (fun _ _ => rfl) rfl (.refl env before)
  by_cases hsame : handle = other
  · rw [if_pos hsame]
    refine ⟨hrecord.identified, hrecord.numbered, ?_, ?_⟩
    -- A record is marked for deletion when it has a row, and gone when it has none.
    · intro hstate
      refine hrecord.present ?_
      cases hcase : old.state with
      | persistent => exact Or.inl rfl
      | deleted => exact Or.inr rfl
      | pending | removed => simp [hcase, Lifecycle.afterDelete] at hstate
    · intro hstate
      refine hrecord.absent ?_
      cases hcase : old.state with
      | pending => exact Or.inl rfl
      | removed => exact Or.inr rfl
      | persistent | deleted => simp [hcase, Lifecycle.afterDelete] at hstate
  · rw [if_neg hsame]
    exact hrecord

/-! ## Settling -/

section Settling

variable (hregistry : env.registry.Consistent) (hrooted : scope.Rooted env) (h : scope.Keyed env)
  (himages : Images env scope scope.handles images)

include hregistry hrooted h himages

omit himages in
/-- A row belongs to one record. -/
theorem handle_unique {other : Handle} {s' : Standing} (hs : scope.standing handle = some s)
    (hs' : scope.standing other = some s') {id id' : Int64} (hid : s.id = some id)
    (hid' : s'.id = some id') (htable : s'.model.tableName = s.model.tableName)
    (hnumber : id'.toUInt64 = id.toUInt64) : other = handle := by
  have hsame := hregistry.eq_of_tableName (hrooted.registered other s' hs')
    (hrooted.registered handle s hs) htable
  obtain rfl := toUInt64_injective hnumber
  have hidentified := ((h.records handle s hs).identified id' hid).2
  have hidentified' := ((h.records other s' hs').identified id' hid').2
  rw [hsame, hidentified] at hidentified'
  exact (Option.some.inj hidentified').symm

omit himages in
/-- Every record has its row to itself. -/
theorem sole (handle : Handle) : scope.Sole handle :=
  fun _ _ _ _ _ hs hs' hid hid' htable hnumber =>
    h.handle_unique hregistry hrooted hs hs' hid hid' htable hnumber

theorem settle_record (hs : scope.standing handle = some s) :
    (settle images scope).KeyedRecord env handle { s with state := s.state.afterFlush } := by
  have hrecord := h.records handle s hs
  refine ⟨hrecord.identified, hrecord.numbered, ?_, ?_⟩
  · intro hstate
    -- The record has a key: it has been written, or it had a row before.
    have hid : ∃ id, s.id = some id := by
      cases hcase : s.state with
      | pending =>
          obtain ⟨image, -, hmade⟩ :=
            himages.complete handle (List.mem_range.2 (lt_of_standing hs)) s hs (Or.inl hcase)
          obtain ⟨-, id, hid, -⟩ := hmade.some_cases
          exact ⟨id, hid⟩
      | persistent =>
          obtain ⟨id, _, hid, -⟩ := hrecord.present (Or.inl hcase)
          exact ⟨id, hid⟩
      | deleted | removed => simp [hcase, Lifecycle.afterFlush] at hstate
    obtain ⟨id, hid⟩ := hid
    rcases (h.sole hregistry hrooted handle).visibleRow_settled himages hs hid with
      ⟨image, hmade, hrow⟩ | ⟨hkept, hrow⟩
    · cases hmade with
      | inserted _ row => exact ⟨id, row, hid, hrow⟩
      | updated _ row => exact ⟨id, row, hid, hrow⟩
      | deleted _ hcase => simp [hcase, Lifecycle.afterFlush] at hstate
    · rcases hkept with hcase | hcase
      · obtain ⟨key, row, hkey, hvisible⟩ := hrecord.present (Or.inl hcase)
        exact ⟨key, row, hkey, by rw [← hvisible]; simp_all⟩
      · simp [hcase, Lifecycle.afterFlush] at hstate
  · intro hstate id row hid hvisible
    rcases (h.sole hregistry hrooted handle).visibleRow_settled himages hs hid with
      ⟨image, hmade, hrow⟩ | ⟨hkept, hrow⟩
    · cases hmade with
      | inserted _ _ _ hcase => simp [hcase, Lifecycle.afterFlush] at hstate
      | updated _ _ _ _ _ hcase => simp [hcase, Lifecycle.afterFlush] at hstate
      | deleted =>
          rw [hrow] at hvisible
          cases hvisible
    · rcases hkept with hcase | hcase
      · simp [hcase, Lifecycle.afterFlush] at hstate
      · exact hrecord.absent (Or.inr hcase) id row hid (hrow.symm.trans hvisible)

theorem settle : (Scope.settle images scope).Keyed env := by
  constructor
  case records =>
    intro handle s' hs'
    rw [standing_settle] at hs'
    obtain ⟨s, hs, rfl⟩ := Option.map_eq_some_iff.1 hs'
    exact h.settle_record hregistry hrooted himages hs
  case rows =>
    intro model hmodel number row hrow
    rcases find?_foldl_stageImage images scope.staged (model.tableName, number) with
      ⟨image, himage, hkey, -⟩ | ⟨-, hfind⟩
    · -- The row has the key of a record.
      obtain ⟨handle, s, hs, hmade⟩ := himages.made image himage
      obtain ⟨hsame, id, hid, hpositive, hnumber⟩ := hmade.some_cases
      unfold imageKey at hkey
      rw [hsame, hnumber, Prod.mk.injEq] at hkey
      obtain rfl := hregistry.eq_of_tableName (hrooted.registered handle s hs) hmodel hkey.1
      have hrecord := h.records handle s hs
      have hnat := toNat_toUInt64 hpositive
      have hlt := (hrecord.identified id hid).1
      rw [hkey.2] at hnat
      refine ⟨by omega, ?_⟩
      intro sequence value hsequence hvalue
      have hle := hrecord.numbered id sequence value hid hsequence hvalue
      omega
    · exact h.rows model hmodel number row ((visibleRow_congr hfind).symm.trans hrow)

end Settling

theorem move (hregistry : env.registry.Consistent) (hterms : terms.grounded)
    (hrooted : before.Rooted env) (h : before.Keyed env) (hmove : Move env terms before after) :
    after.Keyed env := by
  cases hmove with
  | steady hsteady =>
      refine h.of_same_records hsteady.standing hsteady.identity hsteady.staged ?_
      intro sequence value hvalue
      exact ⟨value, (hsteady.sequenceValue sequence).symm.trans hvalue, Nat.le_refl _⟩
  | exhaust _ _ _ hcurrent =>
      exact h.of_same_records (fun _ => rfl) rfl rfl (advances_advance hcurrent (Nat.le_succ _))
  | giveKey hnew _ hsequence hcurrent hid =>
      exact h.giveKey hregistry hrooted (hrooted.registered _ _ hnew) hsequence hcurrent hid hnew
  | enter _ hid => exact h.enter hid
  | adopt hmodel hid hfind hgrounded =>
      obtain ⟨hpositive, row, hrow⟩ := hgrounded hterms
      exact h.adopt hmodel hid hfind hpositive hrow
  | withdraw handle => exact h.withdraw handle
  | settle himages _ => exact h.settle hregistry hrooted himages

end Keyed

end Scope

end RecordStore
