import Ripcord.Schemas

namespace Ripcord

open Foundation

inductive ServiceError
  | duplicateFlag (key : Str)
  | flagNotFound (key : Str)
  | invalidVariant (message : Str)
  | versionConflict (expected : Int) (current : Option Int)
  | databaseError
  /-- The lazy load of an attribute that `rollback` expired, outside an awaited call. -/
  | missingGreenlet
  deriving DecidableEq

/-- What the database hands to a transaction: the keys of the rows it inserts, and its clock. -/
structure Supply where
  flagId : Nat
  ruleIds : Nat → Nat
  variantIds : Nat → Nat
  now : Str

def rulesFromInput (ids : Nat → Nat) (rules : List TargetingRuleIn) : List TargetingRule :=
  rules.mapIdx fun i rule =>
    { id := ids i, attr := rule.attr, operator := rule.operator, values := rule.values,
      priority := rule.priority, variant := rule.variant }

def variantsFromInput (ids : Nat → Nat) (variants : List VariantIn) : List Variant :=
  variants.mapIdx fun i v => { id := ids i, key := v.key, value := v.value, weight := v.weight }

/-- `{v.key: v for v in incoming}`: a later variant of a key replaces an earlier one in its place. -/
def wantedVariants (incoming : List VariantIn) : List VariantIn :=
  incoming.foldl (fun wanted v =>
    if v.key ∈ wanted.map VariantIn.key then wanted.map fun w => if w.key = v.key then v else w
    else wanted ++ [v]) []

/-- `_apply_variants`: rows keep their id when their key stays, and new keys are appended. -/
def applyVariants (ids : Nat → Nat) (rows : List Variant) (incoming : List VariantIn) : List Variant :=
  let wanted := wantedVariants incoming
  let kept := rows.filterMap fun row =>
    (wanted.find? fun v => v.key = row.key).map fun v => { row with value := v.value, weight := v.weight }
  kept ++ variantsFromInput ids (wanted.filter fun v => v.key ∉ rows.map Variant.key)

/-- `get_flag` in a session that holds nothing: the row as the query loads it. -/
def getFlag (db : Database) (key : Str) : Option Flag := (db.row? key).map Flag.load

def listFlags (db : Database) : List Flag := (sortOn Flag.key db.flags).map Flag.load

/-- `get_flag` in the session that has just written `held`. The identity map answers with the object
    in memory, its lists in their order there; only what the write expired is read from the row. A row
    of another id is another flag and is loaded. -/
def getFlagHeld (db : Database) (action : Action) (held : Flag) (key : Str) : Option Flag :=
  (db.row? key).map fun row =>
    if row.id = held.id then
      match action with
      | .updated => { held with updatedAt := row.updatedAt }
      | _ => held
    else row.load

def createDetails (data : FlagCreate) : Json :=
  .obj [(str "enabled", .bool data.enabled), (str "rollout_percentage", .int data.rolloutPercentage),
    (str "variants", if data.variants = [] then .null else .arr (data.variants.map fun v => .str v.key))]

def createdFlag (supply : Supply) (data : FlagCreate) : Flag :=
  { id := supply.flagId, key := data.key, name := data.name, description := data.description,
    enabled := data.enabled, rolloutPercentage := data.rolloutPercentage, offVariant := data.offVariant,
    version := 1, createdAt := supply.now, updatedAt := supply.now,
    rules := rulesFromInput supply.ruleIds data.rules,
    variants := variantsFromInput supply.variantIds data.variants }

def createdEntry (data : FlagCreate) (actor : Str) : AuditLog :=
  { flagKey := data.key, action := .created, actor, details := createDetails data }

def createFlagCommit (db : Database) (supply : Supply) (data : FlagCreate) (actor : Str) :
    Except ServiceError (Database × Flag) :=
  match db.insertFlag (createdFlag supply data) (createdEntry data actor) with
  | .ok after => .ok (after, createdFlag supply data)
  | .error .integrityError => .error (.duplicateFlag data.key)
  | .error _ => .error .databaseError

def assignFields (flag : Flag) (data : FlagUpdate) : Flag :=
  { flag with
    name := data.name.get?.getD flag.name
    description := data.description.get?.or flag.description
    enabled := data.enabled.get?.getD flag.enabled
    rolloutPercentage := data.rolloutPercentage.get?.getD flag.rolloutPercentage }

def effectiveVariants (flag : Flag) (data : FlagUpdate) : List Str :=
  match data.variants.get? with
  | some variants => variants.map VariantIn.key
  | none => flag.variants.map Variant.key

/-- The variants that rules pin; an empty name counts as no pin. -/
def effectiveRuleVariants (flag : Flag) (data : FlagUpdate) : List Str :=
  let pins := match data.rules.get? with
    | some rules => rules.filterMap TargetingRuleIn.variant
    | none => flag.rules.filterMap TargetingRule.variant
  pins.filter fun pin => pin ≠ []

def effectiveOffVariant (flag : Flag) (data : FlagUpdate) : Option Str :=
  if data.offVariant.isSet then data.offVariant.get? else flag.offVariant

def checkReferences (flag : Flag) (data : FlagUpdate) : Except ServiceError Unit :=
  let variants := effectiveVariants flag data
  let unknown := sortOn id ((effectiveRuleVariants flag data).filter fun pin => pin ∉ variants).dedup
  if unknown ≠ [] then
    .error (.invalidVariant (str "rule pins unknown variant(s): " ++ join (str ", ") unknown ++
      definedSuffix variants))
  else
    match effectiveOffVariant flag data with
    | none => .ok ()
    | some off =>
      if off ≠ [] ∧ off ∉ variants then
        .error (.invalidVariant (str "off_variant '" ++ off ++ str "' is not a defined variant" ++
          definedSuffix variants))
      else .ok ()

/-- The assignments after the validation, the version bump and `onupdate` included. -/
def assignCollections (supply : Supply) (flag : Flag) (data : FlagUpdate) : Flag :=
  { flag with
    rules := match data.rules.get? with
      | some rules => rulesFromInput supply.ruleIds rules
      | none => flag.rules
    variants := match data.variants.get? with
      | some variants => applyVariants supply.variantIds flag.variants variants
      | none => flag.variants
    offVariant := if data.offVariant.isSet then data.offVariant.get? else flag.offVariant
    version := flag.version + 1
    updatedAt := supply.now }

def patchedFlag (supply : Supply) (flag : Flag) (data : FlagUpdate) : Flag :=
  assignCollections supply (assignFields flag data) data

def updateDetails (flag : Flag) (data : FlagUpdate) : Json :=
  .obj (
    (data.name.get?.toList.map fun name => (str "name", .str name)) ++
    (data.description.get?.toList.map fun text => (str "description", .str text)) ++
    (data.enabled.get?.toList.map fun enabled => (str "enabled", .bool enabled)) ++
    (data.rolloutPercentage.get?.toList.map fun n => (str "rollout_percentage", .int n)) ++
    (data.rules.get?.toList.map fun rules => (str "rules", .int rules.length)) ++
    (data.variants.get?.toList.map fun variants =>
      (str "variants", .arr (variants.map fun v => .str v.key))) ++
    if data.offVariant.isSet ∧ data.offVariant.get? ≠ flag.offVariant then
      [(str "off_variant", optionalText data.offVariant.get?)]
    else [])

def updatedEntry (flag : Flag) (key : Str) (data : FlagUpdate) (actor : Str) : AuditLog :=
  { flagKey := key, action := .updated, actor, details := updateDetails flag data }

def updateFlagCommit (read : Option Flag) (db : Database) (supply : Supply) (key : Str) (data : FlagUpdate)
    (actor : Str) : Except ServiceError (Database × Flag) :=
  match read with
  | none => .error (.flagNotFound key)
  | some flag =>
    if flag.version ≠ data.version then .error (.versionConflict data.version flag.version)
    else
      match checkReferences flag data with
      | .error refused => .error refused
      | .ok () =>
        match db.updateFlag flag (patchedFlag supply flag data) (updatedEntry flag key data actor) with
        | .ok after => .ok (after, patchedFlag supply flag data)
        | .error .staleDataError => .error (.versionConflict data.version none)
        | .error .integrityError => .error (.invalidVariant (str "update violates a constraint: "))
        | .error .dataError => .error .databaseError

def deletedEntry (key actor : Str) : AuditLog := { flagKey := key, action := .deleted, actor, details := none }

/-- `delete_flag` from the flag its read step returned to its commit; `none` is its `False`. The handler
    of a lost race reads `flag.version` after the rollback has expired it. -/
def deleteFlagCommit (read : Option Flag) (db : Database) (key actor : Str) :
    Except ServiceError (Option Database) :=
  match read with
  | none => .ok none
  | some flag =>
    match db.deleteFlag flag (deletedEntry key actor) with
    | .ok after => .ok (some after)
    | .error .staleDataError => .error .missingGreenlet
    | .error _ => .error .databaseError

/-- `create_flag`, with nothing between its commit and its re-read. -/
def createFlag (db : Database) (supply : Supply) (data : FlagCreate) (actor : Str) :
    Except ServiceError (Database × Option Flag) :=
  (createFlagCommit db supply data actor).map fun (after, held) =>
    (after, getFlagHeld after .created held data.key)

/-- `update_flag`, with nothing between its read, its commit and its re-read. -/
def updateFlag (db : Database) (supply : Supply) (key : Str) (data : FlagUpdate) (actor : Str) :
    Except ServiceError (Database × Option Flag) :=
  (updateFlagCommit (getFlag db key) db supply key data actor).map fun (after, held) =>
    (after, getFlagHeld after .updated held key)

def deleteFlag (db : Database) (key actor : Str) : Except ServiceError (Option Database) :=
  deleteFlagCommit (getFlag db key) db key actor

def toSpec (flag : Flag) : FlagSpec :=
  { key := flag.key
    enabled := flag.enabled
    rolloutPercentage := flag.rolloutPercentage
    offVariant := flag.offVariant
    rules := flag.rules.map fun r =>
      { attr := r.attr, operator := r.operator.value, values := r.values, variant := r.variant }
    variants := flag.variants.map fun v => { key := v.key, value := v.value, weight := v.weight } }

def flagNotFound : Evaluation := { enabled := false, reason := .flagNotFound }

def evaluateFlag (db : Database) (key userId : Str) (context : Option Context) : Except PyError Evaluation :=
  match getFlag db key with
  | none => .ok flagNotFound
  | some flag => evaluate (toSpec flag) userId context

end Ripcord
