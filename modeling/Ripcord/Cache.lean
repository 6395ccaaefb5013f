import Ripcord.Foundation.Dict
import Ripcord.Payload
import Ripcord.Transactions

namespace Ripcord

open Foundation

abbrev Hash := AList fun _ : Str => Str

def completeField : Str := str "__ruleset__"

def rulesetTtlSeconds : Nat := 300

/-- The keys that the service keeps in Redis, and what it has published. `expiry` is the hash's time to
    live; `epochWrites` counts the writes of the counter, which is what a `WATCH` compares. -/
structure Redis where
  ruleset : Hash
  expiry : Option Nat
  epoch : Option Nat
  epochWrites : Nat
  published : List (Str × Action)
  deriving DecidableEq

def Redis.empty : Redis := ⟨∅, none, none, 0, []⟩

def Redis.hget (redis : Redis) (field : Str) : Option Str := redis.ruleset.lookup field

def Redis.hexists (redis : Redis) (field : Str) : Bool := (redis.hget field).isSome

def Redis.hset (redis : Redis) (field value : Str) : Redis :=
  { redis with ruleset := redis.ruleset.insert field value }

/-- A hash that loses its last field is gone, and its expiry with it. -/
def Redis.hdel (redis : Redis) (field : Str) : Redis :=
  let rest := redis.ruleset.erase field
  { redis with ruleset := rest, expiry := if rest.entries = [] then none else redis.expiry }

def Redis.delete (redis : Redis) : Redis := { redis with ruleset := ∅, expiry := none }

/-- `TTL`: -2 without the key, -1 without an expiry. -/
def Redis.ttl (redis : Redis) : Int :=
  if redis.ruleset.entries = [] then -2
  else
    match redis.expiry with
    | none => -1
    | some seconds => seconds

def Redis.expire (redis : Redis) (seconds : Nat) : Redis :=
  if redis.ruleset.entries = [] then redis else { redis with expiry := some seconds }

def Redis.incr (redis : Redis) : Redis :=
  { redis with epoch := some (redis.epoch.getD 0 + 1), epochWrites := redis.epochWrites + 1 }

def Redis.publish (redis : Redis) (flagKey : Str) (action : Action) : Redis :=
  { redis with published := redis.published ++ [(flagKey, action)] }

/-- The three outcomes of `read_flag`: a payload, `False` and `None`. -/
inductive CachedFlag
  | hit (payload : Str)
  | absent
  | cold
  deriving DecidableEq

def cachedFlag (payload : Option Str) (complete : Bool) : CachedFlag :=
  match payload with
  | some payload => .hit payload
  | none => if complete then .absent else .cold

def readFlag (redis : Redis) (flagKey : Str) : CachedFlag :=
  cachedFlag (redis.hget flagKey) (redis.hexists completeField)

def readEpoch (redis : Redis) : Nat := redis.epoch.getD 0

def Redis.replaceRuleset (redis : Redis) (mapping : Hash) : Redis :=
  { redis with ruleset := mapping.insert completeField (str "1"), expiry := some rulesetTtlSeconds }

/-- `write_ruleset`, with nothing between its `WATCH` and its `EXEC`. -/
def writeRuleset (redis : Redis) (mapping : Hash) (expectedEpoch : Option Nat) : Redis × Bool :=
  match expectedEpoch with
  | none => (redis.replaceRuleset mapping, true)
  | some expected =>
    if readEpoch redis ≠ expected then (redis, false) else (redis.replaceRuleset mapping, true)

def buildRulesetMapping (db : Database) : Hash := dictOf Flag.key flagPayload (listFlags db)

structure Faults where
  readFlag : Bool := false
  readEpoch : Bool := false
  writeRuleset : Bool := false

/-- `evaluate_flag_cached`. `others` is what other clients do to Redis between its read of the epoch
    and its publish. -/
def evaluateFlagCached (faults : Faults) (others : Redis → Redis) (redis : Redis) (db : Database)
    (key userId : Str) (context : Option Context) : Redis × Except PyError Evaluation :=
  match if faults.readFlag then .cold else readFlag redis key with
  | .hit payload => (redis, evaluatePayload payload userId context)
  | .absent => (redis, .ok flagNotFound)
  | .cold =>
    let epoch := if faults.readEpoch then none else some (readEpoch redis)
    let mapping := buildRulesetMapping db
    let after := if faults.writeRuleset then others redis else (writeRuleset (others redis) mapping epoch).1
    match mapping.lookup key with
    | none => (after, .ok flagNotFound)
    | some payload => (after, evaluatePayload payload userId context)

def rowPayload (db : Database) (key : Str) : Option Str := (getFlag db key).map flagPayload

/-- Redis tells no lies about the database: a field is its row's payload, and a complete hash has a field
    for every row. -/
structure Consistent (db : Database) (redis : Redis) : Prop where
  fresh : ∀ key payload, key ≠ completeField → redis.hget key = some payload → rowPayload db key = some payload
  complete : redis.hexists completeField → ∀ key, key ≠ completeField → redis.hget key = none →
    rowPayload db key = none

theorem lookup_buildRulesetMapping (db : Database) (key : Str) :
    (buildRulesetMapping db).lookup key = rowPayload db key := by
  have perm := sortOn_perm Flag.key db.flags
  have distinct : ((listFlags db).map Flag.key).Nodup := by
    have keys := (perm.map Flag.key).nodup_iff.mpr db.valid.keysDistinct
    simpa [listFlags, Function.comp_def, Flag.load] using keys
  have found : (listFlags db).find? (fun flag => flag.key = key) = getFlag db key := by
    have same := find?_eq_of_perm perm ((perm.map Flag.key).nodup_iff.mpr db.valid.keysDistinct) key
    simp only [listFlags, List.find?_map]
    exact congrArg (Option.map Flag.load) same
  rw [buildRulesetMapping, lookup_dictOf distinct, found, rowPayload]

theorem Flag.RowValid.load_variants {row : Flag} (valid : row.RowValid) :
    (row.load.variants.map Variant.key).Nodup :=
  ((sortOn_perm Variant.key row.variants).map _).nodup_iff.mpr valid.2.2.2.1

theorem evaluatePayload_rowPayload (db : Database) (key userId : Str) (context : Option Context) :
    (match rowPayload db key with
      | none => .ok flagNotFound
      | some payload => evaluatePayload payload userId context) = evaluateFlag db key userId context := by
  unfold rowPayload evaluateFlag
  cases stored : getFlag db key with
  | none => rfl
  | some flag =>
    obtain ⟨row, _, _, valid, rfl⟩ := getFlag_spec stored
    exact evaluatePayload_flagPayload row.load valid.load_variants userId context

theorem evaluateFlagCached_answer (faults : Faults) (others : Redis → Redis) (redis : Redis) (db : Database)
    (key userId : Str) (context : Option Context) :
    (evaluateFlagCached faults others redis db key userId context).2 =
      match if faults.readFlag then .cold else readFlag redis key with
      | .hit payload => evaluatePayload payload userId context
      | .absent => .ok flagNotFound
      | .cold => evaluateFlag db key userId context := by
  unfold evaluateFlagCached
  split
  · rfl
  · rfl
  · rw [← evaluatePayload_rowPayload]
    simp only [lookup_buildRulesetMapping]
    split <;> rfl

theorem readFlag_hit {redis : Redis} {key payload : Str} :
    readFlag redis key = .hit payload ↔ redis.hget key = some payload := by
  cases found : redis.hget key with
  | some value => simp [readFlag, cachedFlag, found]
  | none => by_cases complete : redis.hexists completeField <;> simp [readFlag, cachedFlag, found, complete]

theorem readFlag_absent {redis : Redis} {key : Str} :
    readFlag redis key = .absent ↔ redis.hget key = none ∧ redis.hexists completeField := by
  cases found : redis.hget key with
  | some value => simp [readFlag, cachedFlag, found]
  | none => by_cases complete : redis.hexists completeField <;> simp [readFlag, cachedFlag, found, complete]

/-- The cached path is the database path, whatever fails in it and whatever others do meanwhile. -/
theorem evaluateFlagCached_eq_evaluateFlag (faults : Faults) (others : Redis → Redis) {redis : Redis}
    {db : Database} (consistent : Consistent db redis) {key : Str} (pattern : MatchesKeyPattern key)
    (userId : Str) (context : Option Context) :
    (evaluateFlagCached faults others redis db key userId context).2 = evaluateFlag db key userId context := by
  have flagField : key ≠ completeField := pattern.ne_underscore _
  rw [evaluateFlagCached_answer]
  split
  · rename_i payload read
    have hit : redis.hget key = some payload := by
      split at read
      · cases read
      · exact readFlag_hit.mp read
    have row := evaluatePayload_rowPayload db key userId context
    rwa [consistent.fresh key payload flagField hit] at row
  · rename_i read
    have absent : redis.hget key = none ∧ redis.hexists completeField := by
      split at read
      · cases read
      · exact readFlag_absent.mp read
    have row := evaluatePayload_rowPayload db key userId context
    rwa [consistent.complete absent.2 key flagField absent.1] at row
  · rfl

theorem hget_replaceRuleset (redis : Redis) (mapping : Hash) {key : Str} (flagField : key ≠ completeField) :
    (redis.replaceRuleset mapping).hget key = mapping.lookup key :=
  AList.lookup_insert_ne flagField

theorem consistent_replaceRuleset (db : Database) (redis : Redis) :
    Consistent db (redis.replaceRuleset (buildRulesetMapping db)) where
  fresh key payload flagField field := by
    rwa [hget_replaceRuleset _ _ flagField, lookup_buildRulesetMapping] at field
  complete _ key flagField missing := by
    rwa [hget_replaceRuleset _ _ flagField, lookup_buildRulesetMapping] at missing

def firstSupply : Supply := { flagId := 1, ruleIds := id, variantIds := id, now := str "2026-01-03" }

def bannerDatabase : Database := ⟨⟨[bannerFlag], [], [7]⟩, by decide +kernel⟩

end Ripcord
