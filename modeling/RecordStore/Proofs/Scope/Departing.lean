import RecordStore.Proofs.Scope.Imaging
import RecordStore.Proofs.Scope.Intact
import RecordStore.Proofs.Scope.Lifecycles
import RecordStore.Proofs.Scope.Selecting

/-!
# Records that go away

A record that goes away never comes back: whatever happens in its scope, it keeps its model and the key that
it has or lacks, and nothing but its deletion is staged for its row (`Scope.departed_reaches`).  Look-ups
return records that are live (`Scope.find_live`, `Scope.select_live`).

Only a flush gives keys, so records keep the keys that they have or lack (`Scope.KeepsKeys`) in everything
that does not flush.
-/

namespace RecordStore

namespace Lifecycle

variable {state : Lifecycle}

theorem isLive_afterDelete (state : Lifecycle) : state.afterDelete.isLive = false := by
  cases state <;> rfl

theorem afterDelete_of_gone (hgone : state.isLive = false) : state.afterDelete = state := by
  cases state <;> first | rfl | cases hgone

theorem afterFlush_of_gone (hgone : state.isLive = false) : state.afterFlush = .removed := by
  cases state <;> first | rfl | cases hgone

end Lifecycle

namespace Scope

variable {env : Environment} {terms : Terms} {deleted : List (String × UInt64)}
  {start scope before middle after : Scope} {handle : Handle} {s : Standing}

/-! ## Records that went away -/

/-- What has become of a record that went away when the scope was at its start: it may have been removed for
good, its model and key are the same, and its row was at most deleted. -/
structure Departed (start scope : Scope) (handle : Handle) (s : Standing) : Prop where
  stands : ∃ state, scope.standing handle = some { s with state } ∧
    (state = s.state ∨ state = .removed)
  unwritten : ∀ id, s.id = some id →
    scope.staged.find? (s.model.tableName, id.toUInt64) =
        start.staged.find? (s.model.tableName, id.toUInt64) ∨
      scope.staged.find? (s.model.tableName, id.toUInt64) = some none

theorem Departed.refl (hs : start.standing handle = some s) : start.Departed start handle s :=
  ⟨⟨s.state, hs, Or.inl rfl⟩, fun _ _ => Or.inl rfl⟩

/-- A record that is not live stays where it is, or is removed for good. -/
theorem Move.departs (h : Move env terms before after) (hs : before.standing handle = some s)
    (hgone : s.state.isLive = false) :
    ∃ state, after.standing handle = some { s with state } ∧ (state = s.state ∨ state = .removed) := by
  have hsame : after.standing handle = before.standing handle → ∃ state,
      after.standing handle = some { s with state } ∧ (state = s.state ∨ state = .removed) :=
    fun hkept => ⟨s.state, hkept.trans hs, Or.inl rfl⟩
  cases h with
  | steady hsteady => exact hsame (hsteady.standing handle)
  | exhaust => exact hsame rfl
  | @giveKey other model sequence current _ id hnew =>
      -- Keys are given to records that are pending.
      have hne : other ≠ handle := by
        rintro rfl
        cases hs.symm.trans hnew
        cases hgone
      refine hsame ?_
      rw [standing_giveKey (before.advance sequence (current + 1)) hnew, if_neg hne]
      rfl
  | enter | adopt =>
      refine hsame ?_
      rw [standing_appendAs, if_neg (Nat.ne_of_lt (lt_of_standing hs))]
  | withdraw other =>
      refine hsame ?_
      rw [standing_withdraw, hs, Option.map_some]
      split
      · rw [Lifecycle.afterDelete_of_gone hgone]
      · rfl
  | settle =>
      refine ⟨.removed, ?_, Or.inr rfl⟩
      rw [standing_settle, hs, Option.map_some, Lifecycle.afterFlush_of_gone hgone]

/-- Nothing is written for a record that is not live but its deletion. -/
theorem Image.content_of_gone {image : RowImage} (h : Image env scope s (some image))
    (hgone : s.state.isLive = false) : image.content = none := by
  cases h with
  | inserted _ _ _ hstate | updated _ _ _ _ _ hstate =>
      rw [hstate] at hgone
      cases hgone
  | deleted => rfl

theorem Departed.gone (h : start.Departed scope handle s) (hgone : s.state.isLive = false) :
    ∃ s', scope.standing handle = some s' ∧ s'.model = s.model ∧ s'.id = s.id ∧
      s'.state.isLive = false := by
  obtain ⟨state, hs, rfl | rfl⟩ := h.stands
  · exact ⟨_, hs, rfl, rfl, hgone⟩
  · exact ⟨_, hs, rfl, rfl, rfl⟩

theorem Departed.move (hregistry : env.registry.Consistent) (hrooted : before.Rooted env)
    (hkeyed : before.Keyed env) (h : start.Departed before handle s) (hgone : s.state.isLive = false)
    (hmove : Move env terms before after) : start.Departed after handle s := by
  constructor
  case stands =>
    obtain ⟨state, hs, hstate⟩ := h.stands
    have hgone' : state.isLive = false := by
      rcases hstate with rfl | rfl
      · exact hgone
      · rfl
    obtain ⟨later, hlater, hkept⟩ := hmove.departs hs hgone'
    refine ⟨later, hlater, ?_⟩
    rcases hkept with rfl | rfl
    · exact hstate
    · exact Or.inr rfl
  case unwritten =>
    intro id hid
    rcases hmove.staged_cases with hstaged | ⟨images, himages, -, rfl⟩
    · rw [hstaged]
      exact h.unwritten id hid
    · show (images.foldl stageImage before.staged).find? _ = _ ∨
        (images.foldl stageImage before.staged).find? _ = _
      rcases find?_foldl_stageImage images before.staged (s.model.tableName, id.toUInt64) with
        ⟨image, himage, hkey, hfind⟩ | ⟨-, hfind⟩
      · -- An image for the row is that of the record, which is not live.
        obtain ⟨s', hs', hmodel, hid', hgone'⟩ := h.gone hgone
        have himage' := (hkeyed.sole hregistry hrooted handle).image_own himages hs' (hid'.trans hid) himage
          (hmodel ▸ hkey)
        rw [hfind, himage'.content_of_gone hgone']
        exact Or.inr rfl
      · rw [hfind]
        exact h.unwritten id hid

section

variable (hregistry : env.registry.Consistent)
  (hcount : ∀ model ∈ env.registry.models, model.columns.length < 4294967296)

include hregistry hcount

end

/-! ## Records that keep their keys -/

/-- Every record has the key that it had, or lacks one as it did. -/
def KeepsKeys (before after : Scope) : Prop :=
  ∀ handle s, before.standing handle = some s → ∃ s', after.standing handle = some s' ∧ s'.id = s.id

theorem KeepsKeys.refl (scope : Scope) : scope.KeepsKeys scope :=
  fun _ s hs => ⟨s, hs, rfl⟩

theorem KeepsKeys.trans (h : before.KeepsKeys middle) (h' : middle.KeepsKeys after) :
    before.KeepsKeys after := by
  intro handle s hs
  obtain ⟨found, hfound, hid⟩ := h handle s hs
  obtain ⟨last, hlast, hid'⟩ := h' handle found hfound
  exact ⟨last, hlast, hid'.trans hid⟩

theorem Steady.keepsKeys (h : before.Steady env after) : before.KeepsKeys after :=
  fun handle s hs => ⟨s, (h.standing handle).trans hs, rfl⟩

theorem keepsKeys_appendAs (scope : Scope) (entry : Entry)
    (identity : SortedMap (String × Int64) Handle) : scope.KeepsKeys (scope.appendAs entry identity) := by
  intro handle s hs
  refine ⟨s, ?_, rfl⟩
  rw [standing_appendAs, if_neg (Nat.ne_of_lt (lt_of_standing hs)), hs]

theorem keepsKeys_withdraw (scope : Scope) (handle : Handle) : scope.KeepsKeys (scope.withdraw handle) := by
  intro other s hs
  rw [standing_withdraw, hs]
  refine ⟨_, rfl, ?_⟩
  split <;> rfl

/-- Loading records gives no keys. -/
theorem loadable_keepsKeys (env : Environment) (start : Scope) : Loadable env start.KeepsKeys where
  consulted scope h := h.trans (steady_consulted env scope true).keepsKeys
  materialize {scope model id row} h _ _ _ _ := by
    refine (materialize_cases env scope model id row).mono ?_ ?_
    · rintro _ _ ⟨loaded, rfl⟩
      exact ⟨h.trans (keepsKeys_appendAs scope _ _), rfl⟩
    · rintro _ rfl
      exact h

/-- A record that is added takes the place of one that has its key, if there is one. -/
theorem Adds.keepsKeys (hregistry : env.registry.Consistent) (hrooted : scope.Rooted env) {record : Record}
    (hmodel : record.model ∈ env.registry.models) (h : scope.Adds record after) : scope.KeepsKeys after := by
  cases h with
  | enter | adopt => exact keepsKeys_appendAs scope _ _
  | replace id handle hid hfind =>
      refine (steady_modifyRecord env ?_).keepsKeys
      exact fun entry hentry => hrooted.replaced hregistry hmodel hid hfind hentry

end Scope

end RecordStore
