import RecordStore.Proofs.Scope.Keeping
import RecordStore.Proofs.Scope.Moves

/-!
# Actions as chains of moves

Every action of a scope, whether it succeeds or fails, leaves a scope that is reached by moves.  Most
of a flush moves nothing: it looks tables up, fills references, evaluates defaults and makes images.
What it moves are the keys that it gives, and the rows that it stages at the end.
-/

namespace RecordStore

namespace Scope

variable {env : Environment} {terms : Terms} {start scope after : Scope} {handle : Handle}

theorem reaches_steady (h : start.Reaches env terms scope) (hsteady : scope.Steady env after) :
    start.Reaches env terms after :=
  h.tail (.steady hsteady)

/-! ## Steps that move nothing -/

/-- A table that was asked for is in the catalog. -/
theorem Asked.steady (h : scope.Rooted env) {table : String} {asked : Scope}
    (hasked : scope.Asked env table asked) :
    scope.Steady env asked ∧ ∃ schema, env.storage.table? table = .ok (some schema) := by
  cases hasked with
  | known hknown => exact ⟨.refl env scope, h.known table hknown⟩
  | found schema hfound =>
      refine ⟨⟨fun _ => rfl, rfl, rfl, rfl, ?_⟩, schema, hfound⟩
      intro other hother
      -- The catalog was asked for the only table that has become known.
      by_cases hsame : other = table
      · exact Or.inr ⟨schema, hsame ▸ hfound⟩
      · refine Or.inl ?_
        simpa [SortedMap.contains, SortedMap.find?_insert, hsame] using hother

theorem resolveLink_steady (env : Environment) (scope : Scope) (link : (Handle × String) × Handle) :
    (resolveLink link).Ends scope (fun _ => scope.Steady env) (scope.Steady env) := by
  obtain ⟨⟨handle, column⟩, target⟩ := link
  refine (resolveLink_cases scope handle column target).mono ?_ ?_
  · rintro _ _ ⟨id, -, rfl⟩
    exact steady_modifyRecord env fun _ _ => ⟨rfl, rfl⟩
  · rintro _ ⟨rfl, -⟩
    exact .refl env _

theorem resolveLinks_steady (env : Environment) (scope : Scope) :
    resolveLinks.Ends scope (fun _ => scope.Steady env) (scope.Steady env) := by
  unfold resolveLinks
  refine ScopeM.ends_get_bind (ScopeM.ends_set_bind ?_)
  refine ScopeM.ends_forM (steady_links env scope ∅) ?_
  intro link _ after hafter
  exact (resolveLink_steady env after link).mono (fun _ _ hdone => hafter.trans hdone)
    fun _ hfailed => hafter.trans hfailed

theorem steady_refer (env : Environment) (scope : Scope) (handle : Handle) (column : String)
    (target : Handle) (id : Option Int64) : scope.Steady env (scope.refer handle column target id) := by
  unfold refer
  cases id with
  | some id => exact (steady_links env scope _).trans (steady_modifyRecord env fun _ _ => ⟨rfl, rfl⟩)
  | none => exact (steady_links env scope _).trans (steady_modifyRecord env fun _ _ => ⟨rfl, rfl⟩)

theorem setReference_steady (env : Environment) (scope : Scope) (handle : Handle) (field : String)
    (target : Handle) :
    (setReference handle field target).Ends scope (fun _ => scope.Steady env)
      (scope.Steady env) := by
  refine (setReference_cases scope handle field target).mono ?_ ?_
  · rintro _ _ ⟨_, _, _, -, -, -, -, rfl⟩
    exact steady_refer env scope handle _ target _
  · rintro _ rfl
    exact .refl env _

/-- A change of a record that leaves its model and its key moves nothing. -/
theorem updateRecord_steady (env : Environment) (scope : Scope) (handle : Handle)
    {f : Record → Except Error Record}
    (hf : ∀ record changed, f record = .ok changed →
      changed.model = record.model ∧ changed.id = record.id) :
    (updateRecord handle f).Ends scope (fun _ => scope.Steady env) (scope.Steady env) := by
  refine (updateRecord_cases scope handle f).mono ?_ ?_
  · rintro _ _ ⟨entry, changed, hentry, hchanged, rfl⟩
    refine steady_modifyRecord env ?_
    intro other hother
    obtain rfl : entry = other := Option.some.inj (hentry.symm.trans hother)
    exact hf entry.record changed hchanged
  · rintro _ rfl
    exact .refl env _

/-! ## Images -/

theorem insertColumn_written (env : Environment) (scope : Scope) (handle : Handle) (record : Record)
    (id : Int64) (column : Column) :
    (insertColumn handle record id column).Ends scope
      (fun written after => scope.Steady env after ∧ written.1 = column.name ∧
        column.Written record.model.tableName id written.2)
      (scope.Steady env) := by
  have hrefl := Steady.refl env scope
  unfold insertColumn
  by_cases hprimary : column.primaryKey = true
  · rw [if_pos hprimary]
    exact ScopeM.ends_pure ⟨hrefl, rfl, .key hprimary⟩
  · rw [if_neg hprimary]
    have hdata : column.primaryKey = false := Bool.eq_false_iff.2 hprimary
    by_cases hchanged : record.isChanged column.name = true
    · rw [if_pos hchanged]
      refine ScopeM.ends_lift_bind ?_ hrefl
      intro value _
      refine ScopeM.ends_lift_bind ?_ hrefl
      intro stored hstored
      exact ScopeM.ends_pure ⟨hrefl, rfl, .bound value stored hdata hstored⟩
    · rw [if_neg hchanged]
      cases column.default with
      | some default =>
          have hdrawn := steady_supply env scope (default.evaluate scope.supply).2
          have hvalue : (evaluateDefault default).Ends scope
              (fun _ after => scope.Steady env after) (scope.Steady env) := hdrawn
          refine ScopeM.ends_bind hvalue ?_
          intro value drawn hdrawn
          refine ScopeM.ends_lift_bind ?_ hdrawn
          intro stored hstored
          refine ScopeM.ends_modify_bind (ScopeM.ends_pure ⟨hdrawn.trans ?_, rfl,
            .bound value stored hdata hstored⟩)
          exact steady_modifyRecord env fun _ _ => ⟨rfl, rfl⟩
      | none =>
          by_cases hnullable : column.nullable = true
          · rw [if_pos hnullable]
            exact ScopeM.ends_pure ⟨hrefl, rfl, .empty hdata hnullable⟩
          · rw [if_neg hnullable]
            refine ScopeM.ends_lift_bind ?_ hrefl
            intro stored hstored
            exact ScopeM.ends_pure ⟨hrefl, rfl, .bound .null stored hdata hstored⟩

theorem insertColumns_written (env : Environment) (scope : Scope) (handle : Handle)
    (record : Record) (id : Int64) (columns : List Column) :
    (insertColumns handle record id columns).Ends scope
      (fun written after => scope.Steady env after ∧
        List.Forall₂ (fun (column : Column) (entry : String × Value) => entry.1 = column.name ∧
          column.Written record.model.tableName id entry.2) columns written)
      (scope.Steady env) := by
  induction columns generalizing scope with
  | nil => exact ScopeM.ends_pure ⟨.refl env scope, .nil⟩
  | cons column rest ih =>
      unfold insertColumns
      refine ScopeM.ends_bind (insertColumn_written env scope handle record id column) ?_
      rintro first middle ⟨hmiddle, hfirst⟩
      refine ScopeM.ends_bind ((ih middle).mono (fun _ _ hdone => hdone)
        fun _ hfailed => hmiddle.trans hfailed) ?_
      rintro others last ⟨hlast, hothers⟩
      exact ScopeM.ends_pure ⟨hmiddle.trans hlast, .cons hfirst hothers⟩

theorem insertImage_made (env : Environment) {entry : Entry}
    (hentry : scope.entries[handle]? = some entry) (hstate : entry.state = .pending) :
    (insertImage handle).Ends scope
      (fun image after => scope.Steady env after ∧ Image env after entry.standing (some image))
      (scope.Steady env) := by
  have hrefl := Steady.refl env scope
  unfold insertImage
  refine ScopeM.ends_record_bind_of_some hentry ?_
  refine ScopeM.ends_lift_bind ?_ hrefl
  intro id hid
  refine ScopeM.ends_bind (insertColumns_written env scope handle entry.record id _) ?_
  rintro columns written ⟨hwritten, hcolumns⟩
  refine ScopeM.ends_lift_bind ?_ hwritten
  intro data hdata
  have hlast := hwritten.trans (steady_supply env written written.supply.advance)
  have hnow : now.Ends written (fun _ after => scope.Steady env after) (scope.Steady env) := hlast
  refine ScopeM.ends_bind hnow ?_
  intro time last hlast
  refine ScopeM.ends_lift_bind ?_ hlast
  intro number hnumber
  obtain ⟨hpositive, rfl⟩ := rowIdOf_eq_ok.1 hnumber
  exact ScopeM.ends_pure ⟨hlast, .inserted id (.new data time) columns hstate
    (requireId_eq_ok.1 hid) hpositive hdata hcolumns⟩

/-- A column of an updated row is written anew, or keeps what stood there. -/
theorem updateColumn_written {record : Record} {id : Int64} {existing : List (String × Value)}
    {column : Column} {written : String × Value}
    (h : updateColumn record id existing column = .ok written) :
    written.1 = column.name ∧ (column.Written record.model.tableName id written.2 ∨
      column.primaryKey = false ∧ written.2 = storedColumn existing column.name) := by
  unfold updateColumn at h
  by_cases hprimary : column.primaryKey = true
  · rw [if_pos hprimary] at h
    cases h
    exact ⟨rfl, Or.inl (.key hprimary)⟩
  · rw [if_neg hprimary] at h
    have hdata : column.primaryKey = false := Bool.eq_false_iff.2 hprimary
    by_cases hchanged : record.isChanged column.name = true
    · rw [if_pos hchanged] at h
      obtain ⟨value, -, h⟩ := bind_eq_ok.1 h
      obtain ⟨stored, hstored, h⟩ := bind_eq_ok.1 h
      cases h
      exact ⟨rfl, Or.inl (.bound value stored hdata hstored)⟩
    · rw [if_neg hchanged] at h
      cases h
      exact ⟨rfl, Or.inr ⟨hdata, rfl⟩⟩

theorem updateImage_made {entry : Entry} (hentry : scope.entries[handle]? = some entry)
    (hstate : entry.state = .persistent) :
    (updateImage env handle).Ends scope
      (fun image after => scope.Steady env after ∧ Image env after entry.standing (some image))
      (scope.Steady env) := by
  have hrefl := Steady.refl env scope
  unfold updateImage
  refine ScopeM.ends_record_bind_of_some hentry ?_
  refine ScopeM.ends_lift_bind ?_ hrefl
  intro id hid
  refine ScopeM.ends_lift_bind ?_ hrefl
  intro number hnumber
  obtain ⟨hpositive, rfl⟩ := rowIdOf_eq_ok.1 hnumber
  -- Looking up the row changes at most that the storage was consulted.
  have hlooked : ∀ after, after = scope ∨ after = { scope with consulted := true } →
      scope.Steady env after := by
    rintro _ (rfl | rfl)
    · exact hrefl
    · exact steady_consulted env scope true
  refine ScopeM.ends_bind ((lookUpRow_cases scope env _ _).mono (fun _ _ hdone => hdone)
    hlooked) ?_
  rintro existing middle ⟨hmiddle, hrow⟩
  replace hmiddle := hlooked middle hmiddle
  refine ScopeM.ends_lift_bind ?_ hmiddle
  intro stored hstored
  refine ScopeM.ends_lift_bind ?_ hmiddle
  intro columns hcolumns
  refine ScopeM.ends_lift_bind ?_ hmiddle
  intro data hdata
  have hlast := hmiddle.trans (steady_supply env middle middle.supply.advance)
  have hnow : now.Ends middle (fun _ after => scope.Steady env after) (scope.Steady env) := hlast
  refine ScopeM.ends_bind hnow ?_
  intro time last hlast
  refine ScopeM.ends_pure ⟨hlast, .updated id _ columns stored existing hstate
    (requireId_eq_ok.1 hid) hpositive ?_ ((hlast.visibleRow _ _).trans hrow) hstored ?_⟩
  · cases existing with
    | none => exact hdata
    | some row => exact hdata
  · exact (mapM_eq_ok.1 hcolumns).imp fun _ _ hwritten => updateColumn_written hwritten

theorem deleteImage_made (env : Environment) {entry : Entry}
    (hentry : scope.entries[handle]? = some entry) (hstate : entry.state = .deleted) :
    (deleteImage handle).Ends scope
      (fun image after => scope.Steady env after ∧ Image env after entry.standing (some image))
      (scope.Steady env) := by
  have hrefl := Steady.refl env scope
  unfold deleteImage
  refine ScopeM.ends_record_bind_of_some hentry ?_
  refine ScopeM.ends_lift_bind ?_ hrefl
  intro id hid
  refine ScopeM.ends_lift_bind ?_ hrefl
  intro number hnumber
  obtain ⟨hpositive, rfl⟩ := rowIdOf_eq_ok.1 hnumber
  exact ScopeM.ends_pure ⟨hrefl, .deleted id hstate (requireId_eq_ok.1 hid) hpositive⟩

/-- Each record has the image that its state asks for. -/
theorem image?_made (env : Environment) (scope : Scope) (handle : Handle) :
    (image? env handle).Ends scope
      (fun image after => scope.Steady env after ∧
        ∃ s, scope.standing handle = some s ∧ Image env after s image)
      (scope.Steady env) := by
  have hrefl := Steady.refl env scope
  unfold image?
  refine ScopeM.ends_entry_bind ?_ hrefl
  intro entry hentry
  have hstanding := standing_of_entry hentry
  cases hstate : entry.state with
  | pending =>
      refine ScopeM.ends_bind (insertImage_made env hentry hstate) ?_
      rintro image after ⟨hafter, himage⟩
      exact ScopeM.ends_pure ⟨hafter, _, hstanding, himage⟩
  | persistent =>
      by_cases hdirty : entry.record.isDirty = true
      · simp only [hdirty, if_true]
        refine ScopeM.ends_bind (updateImage_made hentry hstate) ?_
        rintro image after ⟨hafter, himage⟩
        exact ScopeM.ends_pure ⟨hafter, _, hstanding, himage⟩
      · simp only [hdirty]
        exact ScopeM.ends_pure ⟨hrefl, _, hstanding, .unchanged hstate⟩
  | deleted =>
      refine ScopeM.ends_bind (deleteImage_made env hentry hstate) ?_
      rintro image after ⟨hafter, himage⟩
      exact ScopeM.ends_pure ⟨hafter, _, hstanding, himage⟩
  | removed => exact ScopeM.ends_pure ⟨hrefl, _, hstanding, .removed hstate⟩

/-- One more record with its image. -/
theorem Images.cons {s : Standing} {image : Option RowImage} {handles : List Handle}
    {images : List RowImage} (h : Images env scope handles images)
    (hstanding : scope.standing handle = some s) (himage : Image env scope s image) :
    Images env scope (handle :: handles) (image.toList ++ images) where
  made other hother := by
    rcases List.mem_append.1 hother with hfirst | hrest
    · obtain rfl := Option.mem_toList.1 hfirst
      exact ⟨handle, s, hstanding, himage⟩
    · exact h.made other hrest
  complete other hother s' hs' hstate := by
    rcases List.mem_cons.1 hother with rfl | hrest
    · obtain rfl : s = s' := Option.some.inj (hstanding.symm.trans hs')
      -- A record that is new or goes away always has an image.
      cases image with
      | some image => exact ⟨image, List.mem_append_left _ (by simp), himage⟩
      | none =>
          cases himage with
          | unchanged hpersistent => rw [hpersistent] at hstate; simp at hstate
          | removed hremoved => rw [hremoved] at hstate; simp at hstate
    · obtain ⟨found, hfound, hmade⟩ := h.complete other hrest s' hs' hstate
      exact ⟨found, List.mem_append_right _ hfound, hmade⟩

theorem imagesOf_made (env : Environment) (scope : Scope) (handles : List Handle) :
    (imagesOf env handles).Ends scope
      (fun images after => scope.Steady env after ∧ Images env after handles images)
      (scope.Steady env) := by
  induction handles generalizing scope with
  | nil =>
      refine ScopeM.ends_pure ⟨.refl env scope, ?_, ?_⟩
      · intro _ hnone
        cases hnone
      · intro _ hnone
        cases hnone
  | cons handle rest ih =>
      unfold imagesOf
      refine ScopeM.ends_bind (image?_made env scope handle) ?_
      rintro image middle ⟨hmiddle, s, hstanding, himage⟩
      have hrest := (ih middle).mono (fun _ _ hdone => hdone)
        fun _ hfailed => hmiddle.trans hfailed
      have hcons : ∀ images last, middle.Steady env last → Images env last rest images →
          Images env last (handle :: rest) (image.toList ++ images) := by
        intro images last hlast himages
        refine himages.cons ?_ (himage.of_steady hlast)
        rw [hlast.standing, hmiddle.standing, hstanding]
      cases image with
      | some image =>
          refine ScopeM.ends_bind hrest ?_
          rintro images last ⟨hlast, himages⟩
          exact ScopeM.ends_pure ⟨hmiddle.trans hlast, hcons images last hlast himages⟩
      | none =>
          refine hrest.mono ?_ fun _ hfailed => hfailed
          rintro images last ⟨hlast, himages⟩
          exact ⟨hmiddle.trans hlast, hcons images last hlast himages⟩

theorem rowImages_made (env : Environment) (scope : Scope) :
    (rowImages env).Ends scope
      (fun images after => scope.Steady env after ∧ Images env after after.handles images)
      (scope.Steady env) := by
  unfold rowImages
  refine ScopeM.ends_get_bind ((imagesOf_made env scope scope.handles).mono ?_ fun _ h => h)
  rintro images after ⟨hafter, himages⟩
  rw [hafter.handles_eq]
  exact ⟨hafter, himages⟩

/-! ## Keys -/

theorem assignId_reaches (hstart : start.Rooted env) (handle : Handle) :
    (assignId env handle).Keeps (start.Reaches env terms) := by
  intro scope h
  -- The scope in which the table is known, and where the new record stands in it.
  have hasked : ∀ (entry : Entry) (asked : Scope), scope.entries[handle]? = some entry →
      entry.state = .pending ∧ entry.record.id = none →
      scope.Asked env entry.record.model.tableName asked → start.Reaches env terms asked ∧
        asked.standing handle = some { state := .pending, model := entry.record.model, id := none } ∧
        ∃ schema, env.storage.table? entry.record.model.tableName = .ok (some schema) := by
    intro entry asked hentry hnew hasked
    obtain ⟨hsteady, hschema⟩ := hasked.steady (hstart.reaches h)
    refine ⟨reaches_steady h hsteady, ?_, hschema⟩
    rw [hsteady.standing, standing_of_entry hentry, Entry.standing, hnew.1, hnew.2]
  refine (assignId_outcome scope env handle).mono ?_ ?_
  · rintro _ _ (_ | ⟨entry, asked, sequence, current, id, hentry, hnew, htable, hsequence, hcurrent, hid⟩)
    · exact h
    · obtain ⟨hreached, hstanding, schema, hschema⟩ := hasked entry asked hentry hnew htable
      exact hreached.tail (.giveKey hstanding hschema hsequence hcurrent hid)
  · rintro _ (_ | _ | ⟨entry, asked, hentry, hnew, htable⟩ |
      ⟨entry, asked, sequence, current, hentry, hnew, htable, hsequence, hcurrent, hlarge⟩)
    · exact h
    · exact reaches_steady h (steady_consulted env scope true)
    · exact (hasked entry _ hentry hnew htable).1
    · obtain ⟨hreached, hstanding, schema, hschema⟩ := hasked entry asked hentry hnew htable
      exact hreached.tail (.exhaust hstanding hschema hsequence hcurrent hlarge)

theorem assignIds_reaches (hstart : start.Rooted env) :
    (assignIds env).Keeps (start.Reaches env terms) := by
  intro scope h
  unfold assignIds
  refine ScopeM.ends_get_bind ?_
  exact ScopeM.ends_forM h fun handle _ scope' h' => assignId_reaches hstart handle scope' h'

/-! ## Flushing -/

theorem flush_reaches (hstart : start.Rooted env) :
    (flush env).Keeps (start.Reaches env terms) := by
  intro scope h
  unfold flush
  refine ScopeM.ends_bind (assignIds_reaches hstart scope h) ?_
  intro _ numbered hnumbered
  refine ScopeM.ends_bind ((resolveLinks_steady env numbered).mono
    (fun _ _ hdone => reaches_steady hnumbered hdone)
    fun _ hfailed => reaches_steady hnumbered hfailed) ?_
  intro _ filled hfilled
  refine ScopeM.ends_bind ((rowImages_made env filled).mono (fun _ _ hdone => hdone)
    fun _ hfailed => reaches_steady hfilled hfailed) ?_
  rintro images made ⟨hmade, himages⟩
  have hreached := reaches_steady hfilled hmade
  refine ScopeM.ends_get_bind (ScopeM.ends_lift_bind ?_ hreached)
  intro _ hchecked
  exact ScopeM.ends_modify (hreached.tail (.settle himages hchecked))

/-! ## Looking records up -/

theorem lookable_reaches (hstart : start.Rooted env) :
    Lookable env (start.Reaches env terms) where
  consulted scope h := reaches_steady h (steady_consulted env scope true)
  flush := flush_reaches hstart
  materialize {scope model id row} h hmodel hid hrow hnone := by
    have hadopt : ∀ record : Record, record.model = model → record.id = some id →
        start.Reaches env terms (scope.appendAs { record, state := .persistent }
          (scope.identity.insert (model.name, id) scope.entries.length)) := by
      rintro record rfl hkey
      exact h.tail (.adopt hmodel hkey hnone fun _ => ⟨hid, row, hrow⟩)
    refine (materialize_cases env scope model id row).mono ?_ ?_
    · rintro _ _ ⟨loaded, rfl⟩
      exact ⟨hadopt _ (Record.loaded_model ..) (Record.loaded_id ..), rfl⟩
    · rintro _ rfl
      exact h

/-! ## Records that come and go -/

theorem create_reaches (hregistry : env.registry.Consistent) (name : String) :
    (create env name).Keeps (start.Reaches env terms) := by
  intro scope h
  refine (create_cases env scope name).mono ?_ ?_
  · rintro _ _ ⟨model, hmodel, rfl⟩
    exact h.tail (.enter (hregistry.model_eq_ok.1 hmodel).1 rfl)
  · rintro _ rfl
    exact h

/-- A record with a key takes the place of the record that stood for its row, or stands for the row
from now on. -/
theorem add_reaches (hregistry : env.registry.Consistent) (hstart : start.Rooted env)
    (h : start.Reaches env terms scope) {record : Record}
    (hmodel : record.model ∈ env.registry.models)
    (hgrounded : terms.grounded → ∀ id, record.id = some id → 0 ≤ id.toInt ∧ ∃ row,
      scope.visibleRow env record.model.tableName id.toUInt64 = .ok (some row)) :
    (add record).Ends scope (fun _ => start.Reaches env terms) (start.Reaches env terms) := by
  refine (add_cases scope record).mono ?_ fun _ => False.elim
  rintro _ _ hadds
  cases hadds with
  | enter hid => exact h.tail (.enter hmodel hid)
  | adopt id hid hnone => exact h.tail (.adopt hmodel hid hnone fun hterms => hgrounded hterms id hid)
  | replace id handle hid hfind =>
      refine reaches_steady h (steady_modifyRecord env ?_)
      exact fun entry hentry => (hstart.reaches h).replaced hregistry hmodel hid hfind hentry

/-- A record that is there is marked for deletion. -/
theorem delete_cases (scope : Scope) (handle : Handle) :
    (delete handle).Ends scope
      (fun _ after => after = scope.withdraw handle) (fun after => after = scope) := by
  unfold delete
  refine ScopeM.ends_entry_bind ?_ rfl
  exact fun _ _ => ScopeM.ends_modify rfl

theorem delete_reaches (hterms : ¬terms.undeleted) (handle : Handle) :
    (delete handle).Keeps (start.Reaches env terms) := by
  intro scope h
  refine (delete_cases scope handle).mono ?_ ?_
  · rintro _ _ rfl
    exact h.tail (.withdraw handle hterms)
  · rintro _ rfl
    exact h

end Scope

end RecordStore
