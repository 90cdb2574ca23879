import RecordStore.Schema.Blueprint

/-!
# Models of experiments

An experiment is a session in which subjects play rounds in groups, each in a role.  The five abstract
templates leave the references between them open; `experimentModels` declares the five concrete models
that refer to each other.
-/

namespace RecordStore

/-! ## Names -/

/-- The name of the model of sessions. -/
def sessionModel : String := "Session"

/-- The name of the model of subjects. -/
def subjectModel : String := "Subject"

/-- The name of the model of rounds. -/
def roundModel : String := "Round"

/-- The name of the model of groups. -/
def groupModel : String := "Group"

/-- The name of the model of roles. -/
def roleModel : String := "Role"

/-! ## Templates -/

/-- A code that is given out when a row is inserted. -/
def codeColumn : FieldType :=
  .column { kind := .varChar 30, unique := true, indexed := true, default := some .shortCode }

/-- A column that no row may leave empty. -/
def requiredColumn (kind : StorageKind) : FieldType :=
  .column { kind, nullable := false }

/-- The declaration of an abstract template. -/
def template (name doc : String) (fields : List (String × FieldType)) : Declaration where
  name
  isAbstract := true
  doc := some doc
  overrides := fields.map fun entry => (entry.1, .typed entry.2)

/-- One run of an experiment with several subjects. -/
def baseSession : Except FieldError Blueprint :=
  (template "BaseSession" "Base model of an experiment session." [
    ("code", codeColumn),
    ("experiment_name", .column { kind := .varChar 255, nullable := false, indexed := true }),
    ("subjects_number", requiredColumn .integer),
    ("demo", requiredColumn .boolean),
    ("len_stages", requiredColumn .integer)]).compose

/-- A participant of one session. -/
def baseSubject : Except FieldError Blueprint :=
  (template "BaseSubject" "Base model of a subject taking part in a session." [
    ("code", codeColumn),
    ("current_stage", .column {
      kind := .integer, nullable := false, default := some (.value (.integer 0)) }),
    ("session", .abstractField)]).compose

/-- A game played in a session. -/
def baseRound : Except FieldError Blueprint :=
  (template "BaseRound" "Base model of a game round inside a session." [
    ("game_name", requiredColumn (.varChar 255)),
    ("part", requiredColumn .integer),
    ("number", requiredColumn .integer),
    ("is_first", requiredColumn .boolean),
    ("is_last", requiredColumn .boolean),
    ("session", .abstractField)]).compose

/-- Subjects who interact in a round. -/
def baseGroup : Except FieldError Blueprint :=
  (template "BaseGroup" "Base model of a group of subjects within a round." [
    ("round", .abstractField)]).compose

/-- A subject in a group. -/
def baseRole : Except FieldError Blueprint :=
  (template "BaseRole" "Base model of the role a subject plays inside a group." [
    ("number", requiredColumn .integer),
    ("in_group_number", requiredColumn .integer),
    ("group", .abstractField),
    ("round", .abstractField),
    ("subject", .abstractField)]).compose

/-! ## Concrete models -/

/-- The declaration of a concrete model over a template, with its references. -/
def concrete (name : String) (ancestor : Blueprint) (table : String)
    (references : List (String × String)) : Declaration where
  name
  ancestor
  tableName := some table
  relatedName := some table
  overrides := references.map fun entry => (entry.1, .typed (.reference entry.2))

/-- The declarations of the five models, each after those it refers to. -/
def experimentModels : Except FieldError (List Declaration) := do
  return [
    concrete sessionModel (← baseSession) "sessions" [],
    concrete subjectModel (← baseSubject) "subjects" [("session", sessionModel)],
    concrete roundModel (← baseRound) "rounds" [("session", sessionModel)],
    concrete groupModel (← baseGroup) "groups" [("round", roundModel)],
    concrete roleModel (← baseRole) "roles"
      [("group", groupModel), ("round", roundModel), ("subject", subjectModel)]]

end RecordStore
