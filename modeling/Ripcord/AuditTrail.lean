import Ripcord.RefreshBodies
import Ripcord.StoredFlags

namespace Ripcord

open Foundation

/-! What the audit log says of the flags. -/

def AuditLog.read {α : Type} (entry : AuditLog) (name : String) (decode : Json → Except PyError α) : Option α :=
  ((entry.details.bind (field? name)).bind fun value => (decode value).toOption)

/-- `[v.key for v in data.variants] or None`. -/
def asVariantKeys : Json → Except PyError (List Str)
  | .null => .ok []
  | value => asTextList value

/-- What the entries of a flag record of it. A creation records neither its name nor its rules. -/
structure Recorded where
  enabled : Bool
  rolloutPercentage : Int
  variants : List Str
  name : Option Str := none
  description : Option Str := none
  rules : Option Int := none
  offVariant : Option (Option Str) := none
  deriving DecidableEq

def Recorded.created (entry : AuditLog) : Recorded where
  enabled := (entry.read "enabled" asBool).getD false
  rolloutPercentage := (entry.read "rollout_percentage" asInt).getD 0
  variants := (entry.read "variants" asVariantKeys).getD []

def Recorded.updated (recorded : Recorded) (entry : AuditLog) : Recorded where
  enabled := (entry.read "enabled" asBool).getD recorded.enabled
  rolloutPercentage := (entry.read "rollout_percentage" asInt).getD recorded.rolloutPercentage
  variants := (entry.read "variants" asVariantKeys).getD recorded.variants
  name := (entry.read "name" asText).or recorded.name
  description := (entry.read "description" asText).or recorded.description
  rules := (entry.read "rules" asInt).or recorded.rules
  offVariant := (entry.read "off_variant" asOptionalText).or recorded.offVariant

def Recorded.apply (recorded : Option Recorded) (entry : AuditLog) : Option Recorded :=
  match entry.action with
  | .created => some (.created entry)
  | .updated => recorded.map fun recorded => recorded.updated entry
  | .deleted => none

/-- The entries of a key played back, in the order in which their transactions committed. -/
def replay (audit : List AuditLog) (key : Str) : Option Recorded :=
  (audit.filter fun entry => entry.flagKey = key).foldl Recorded.apply none

/-- The flag has every field as it is recorded, its variants in some order. -/
structure Recorded.Matches (recorded : Recorded) (flag : Flag) : Prop where
  enabled : flag.enabled = recorded.enabled
  rolloutPercentage : flag.rolloutPercentage = recorded.rolloutPercentage
  variants : (flag.variants.map Variant.key).Perm recorded.variants
  name : ∀ name ∈ recorded.name, flag.name = name
  description : ∀ text ∈ recorded.description, flag.description = some text
  rules : ∀ count ∈ recorded.rules, flag.rules.length = count
  offVariant : ∀ off ∈ recorded.offVariant, flag.offVariant = off

section Details

variable {α β : Type} {name other : String} {members more : List (Str × Json)}

theorem member?_append (name : Str) (members more : List (Str × Json)) :
    Json.member? name (members ++ more) = (Json.member? name more).or (Json.member? name members) := by
  simp only [Json.member?, List.reverse_append, List.find?_append]
  cases more.reverse.find? fun member => member.1 = name <;> rfl

theorem member?_toList (name other : Str) (value : α → Json) (given : Option α) :
    Json.member? name (given.toList.map fun a => (other, value a)) =
      if other = name then given.map value else none := by
  cases given with
  | none => simp [Json.member?]
  | some a => by_cases same : other = name <;> simp [Json.member?, same]

theorem member?_ite (name other : Str) (value : Json) (p : Prop) [Decidable p] :
    Json.member? name (if p then [(other, value)] else []) = if other = name ∧ p then some value else none := by
  by_cases holds : p <;> by_cases same : other = name <;> simp [Json.member?, holds, same]

theorem asVariantKeys_map (keys : List Str) : asVariantKeys (.arr (keys.map .str)) = .ok keys := by
  simpa [asVariantKeys, asTextList, List.mapM_map] using mapM_asText keys

structure Writes (flag : Flag) (data : FlagUpdate) (entry : AuditLog) : Prop where
  name : entry.read "name" asText = data.name.get?
  description : entry.read "description" asText = data.description.get?
  enabled : entry.read "enabled" asBool = data.enabled.get?
  rolloutPercentage : entry.read "rollout_percentage" asInt = data.rolloutPercentage.get?
  rules : entry.read "rules" asInt = data.rules.get?.map fun rules => (rules.length : Int)
  variants : entry.read "variants" asVariantKeys = data.variants.get?.map fun variants => variants.map VariantIn.key
  offVariant : entry.read "off_variant" asOptionalText =
    if data.offVariant.isSet ∧ data.offVariant.get? ≠ flag.offVariant then some data.offVariant.get? else none

theorem updatedEntry_read (flag : Flag) (key actor : Str) (data : FlagUpdate) (name : String)
    (decode : Json → Except PyError α) :
    (updatedEntry flag key data actor).read name decode =
      (field? name (updateDetails flag data)).bind fun value => (decode value).toOption := rfl

theorem updatedEntry_writes (flag : Flag) (key actor : Str) (data : FlagUpdate) :
    Writes flag data (updatedEntry flag key data actor) := by
  constructor
  all_goals
    rw [updatedEntry_read]
    simp only [updateDetails, field?, member?_append, member?_toList, member?_ite, str_inj, String.reduceEq, if_true,
      if_false, false_and, true_and, Option.none_or, Option.or_none]
  · cases data.name.get? <;> rfl
  · cases data.description.get? <;> rfl
  · cases data.enabled.get? <;> rfl
  · cases data.rolloutPercentage.get? <;> rfl
  · cases data.rules.get? <;> rfl
  · cases data.variants.get? with
    | none => rfl
    | some variants =>
      have keys := asVariantKeys_map (variants.map VariantIn.key)
      rw [List.map_map] at keys
      exact congrArg Except.toOption keys
  · split
    · simp [asOptionalText_optionalText, Except.toOption]
    · rfl

theorem createdEntry_created (data : FlagCreate) (actor : Str) :
    Recorded.created (createdEntry data actor) =
      { enabled := data.enabled, rolloutPercentage := data.rolloutPercentage,
        variants := data.variants.map VariantIn.key } := by
  have variants : (createdEntry data actor).read "variants" asVariantKeys = some (data.variants.map VariantIn.key) := by
    by_cases none : data.variants = []
    · simp [AuditLog.read, createdEntry, createDetails, field?, Json.member?, none, asVariantKeys, Except.toOption]
    · have keys := asVariantKeys_map (data.variants.map VariantIn.key)
      rw [List.map_map] at keys
      simp only [AuditLog.read, createdEntry, createDetails, if_neg none]
      exact congrArg Except.toOption keys
  rw [Recorded.created, variants]
  rfl

end Details

section Replaying

variable {db after : Database} {supply : Supply} {request : Request} {held : Option Flag}

theorem replay_own (audit : List AuditLog) {entry : AuditLog} {key : Str} (own : entry.flagKey = key) :
    replay (audit ++ [entry]) key = Recorded.apply (replay audit key) entry := by
  simp [replay, own]

theorem replay_other (audit : List AuditLog) {entry : AuditLog} {key : Str} (other : entry.flagKey ≠ key) :
    replay (audit ++ [entry]) key = replay audit key := by
  simp [replay, other]

theorem Recorded.Matches.load {recorded : Recorded} {row : Flag} (is : recorded.Matches row) :
    recorded.Matches row.load where
  enabled := is.enabled
  rolloutPercentage := is.rolloutPercentage
  variants := ((sortOn_perm Variant.key row.variants).map _).trans is.variants
  name := is.name
  description := is.description
  rules count here :=
    (congrArg Nat.cast (sortOn_perm TargetingRule.priority row.rules).length_eq).trans (is.rules count here)
  offVariant := is.offVariant

theorem createdFlag_matches (supply : Supply) (data : FlagCreate) (actor : Str) :
    (Recorded.created (createdEntry data actor)).Matches (createdFlag supply data) := by
  rw [createdEntry_created]
  constructor
  · rfl
  · rfl
  · have keys := congrArg (List.map VariantSpec.key) (variantsFromInput_toSpec supply.variantIds data.variants)
    simpa [createdFlag, Variant.toSpec, VariantIn.toSpec, Function.comp_def] using List.Perm.of_eq keys
  all_goals
    intro value none
    cases none

theorem patchedFlag_matches {recorded : Recorded} {flag : Flag} {key actor : Str} {data : FlagUpdate}
    (distinct : (flag.variants.map Variant.key).Nodup) (is : recorded.Matches flag) :
    (recorded.updated (updatedEntry flag key data actor)).Matches (patchedFlag supply flag data) := by
  have writes := updatedEntry_writes flag key actor data
  constructor
  · show data.enabled.get?.getD flag.enabled = _
    rw [Recorded.updated, writes.enabled, is.enabled]
  · show data.rolloutPercentage.get?.getD flag.rolloutPercentage = _
    rw [Recorded.updated, writes.rolloutPercentage, is.rolloutPercentage]
  · simp only [Recorded.updated, writes.variants, patchedFlag, assignCollections, assignFields]
    cases sent : data.variants.get? with
    | none => exact is.variants
    | some variants =>
      have merged := (applyVariants_perm supply.variantIds distinct (data.variants_distinct sent)).map VariantSpec.key
      simpa [Variant.toSpec, VariantIn.toSpec, Function.comp_def] using merged
  · simp only [Recorded.updated, writes.name, patchedFlag, assignCollections, assignFields]
    cases data.name.get? with
    | none => exact is.name
    | some name => exact fun other same => Option.some.inj same
  · simp only [Recorded.updated, writes.description, patchedFlag, assignCollections, assignFields]
    cases data.description.get? with
    | none => exact is.description
    | some text => exact fun other same => same
  · simp only [Recorded.updated, writes.rules, patchedFlag, assignCollections, assignFields]
    cases data.rules.get? with
    | none => exact is.rules
    | some rules =>
      intro count same
      cases same
      simp [rulesFromInput]
  · simp only [Recorded.updated, writes.offVariant, patchedFlag, assignCollections, assignFields]
    by_cases given : data.offVariant.isSet
    · by_cases same : data.offVariant.get? = flag.offVariant
      · simpa [given, same] using is.offVariant
      · simp [given, same]
    · simpa [given] using is.offVariant

def Recounts (db : Database) : Prop :=
  ∀ key, Option.Rel Recorded.Matches (replay db.audit key) (db.row? key)

theorem Request.commit_recounts (recounts : Recounts db) (commits : request.commit db supply = some (after, held)) :
    Recounts after := by
  intro key
  by_cases same : key = request.key
  · subst same
    cases Request.commit_cases commits with
    | @created data actor held created =>
      have own : (createdEntry data actor).flagKey = data.key := rfl
      show Option.Rel Recorded.Matches (replay after.audit data.key) (after.row? data.key)
      rw [created.audit, replay_own _ own, created.row?, created.holds]
      exact .some (createdFlag_matches supply data actor)
    | @updated data actor held row updated stored =>
      have before : db.row? row.key = some row := Database.row?_eq_some.mpr ⟨updated.stored, rfl⟩
      have distinct := (db.valid.rowsValid row updated.stored).load_variants
      obtain ⟨recorded, known, is⟩ : ∃ recorded, replay db.audit row.key = some recorded ∧ recorded.Matches row := by
        have known := recounts row.key
        rw [before] at known
        cases recorded : replay db.audit row.key <;> rw [recorded] at known <;> cases known
        exact ⟨_, rfl, ‹_›⟩
      have own : (updatedEntry row.load row.key data actor).flagKey = row.key := rfl
      show Option.Rel Recorded.Matches (replay after.audit row.key) (after.row? row.key)
      rw [updated.audit, replay_own _ own, known, stored, updated.holds]
      exact .some (patchedFlag_matches distinct is.load)
    | @deleted actor row deleted =>
      have own : (deletedEntry row.key actor).flagKey = row.key := rfl
      show Option.Rel Recorded.Matches (replay after.audit row.key) (after.row? row.key)
      rw [deleted.audit, replay_own _ own, deleted.row?]
      exact .none
  · have committed := Request.commit_ok commits
    obtain ⟨entry, audit, flagKey, _⟩ := committed.audit
    have other : entry.flagKey ≠ key := fun named => same (named.symm.trans flagKey)
    rw [audit, replay_other _ other, committed.others key same]
    exact recounts key

theorem StoreWorld.recounts_of_run {world : StoreWorld} {acts : List (Nat × StoreAct)}
    (runs : run (World.act storeStep) StoreWorld.start acts = some world) : Recounts world.shared.db := by
  refine StoreWorld.holds_of_run Recounts (fun key => .none) ?_ (StoreWorld.sends_any runs)
  intro db after request supply held _ recounts commits
  exact Request.commit_recounts recounts commits

end Replaying

/-- However the calls interleave, the entries of a key play back, in commit order, to the flag that is stored: there
    is one exactly where they say so, and every field an entry has recorded is as the last one recorded it. -/
theorem audit_recounts {world : StoreWorld} {acts : List (Nat × StoreAct)}
    (runs : run (World.act storeStep) StoreWorld.start acts = some world) (key : Str) :
    Option.Rel Recorded.Matches (replay world.shared.db.audit key) (getFlag world.shared.db key) := by
  have recounts := StoreWorld.recounts_of_run runs key
  rw [getFlag]
  generalize replay world.shared.db.audit key = recorded at recounts ⊢
  generalize world.shared.db.row? key = row at recounts ⊢
  cases recounts with
  | some is => exact .some is.load
  | none => exact .none

theorem audit_recounts_race :
    ∃ world : StoreWorld, run (World.act storeStep) StoreWorld.start race = some world ∧
      ∃ recorded flag, replay world.shared.db.audit (str "search") = some recorded ∧
        getFlag world.shared.db (str "search") = some flag ∧ recorded.Matches flag := by
  obtain ⟨world, runs, stored⟩ := run_reaches (World.act storeStep) StoreWorld.start race
    (fun world => (getFlag world.shared.db (str "search")).isSome) (by decide +kernel)
  obtain ⟨flag, reads⟩ := Option.isSome_iff_exists.mp stored
  have recounts := audit_recounts runs (str "search")
  rw [reads] at recounts
  generalize played : replay world.shared.db.audit (str "search") = recorded at recounts
  cases recounts with
  | some is => exact ⟨world, runs, _, flag, played, reads, is⟩

end Ripcord
