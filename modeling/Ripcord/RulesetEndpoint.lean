import Ripcord.StoredFlags

namespace Ripcord

open Foundation

structure RulesetFaults where
  readRuleset : Bool := false
  readEpoch : Bool := false
  writeRuleset : Bool := false

/-- The fields of `HGETALL` but for the marker, or `none` for a cold cache. -/
def readRuleset (redis : Redis) : Option (List Str) :=
  if redis.ruleset.entries = [] ∨ redis.hexists completeField = false then none
  else some ((redis.ruleset.entries.filter fun field => field.1 ≠ completeField).map Sigma.snd)

def Hash.values (mapping : Hash) : List Str := mapping.entries.reverse.map Sigma.snd

/-- `GET /ruleset`: the text of its body. `others` is what other clients do to Redis between the handler's
    read of the epoch and its publish, which they may supersede. -/
def getRuleset (faults : RulesetFaults) (others : Redis → Redis) (redis : Redis) (db : Database) :
    Redis × Except PyError Str :=
  if faults.readRuleset then (redis, .error .redisError)
  else
    match readRuleset redis with
    | some cached => (redis, .ok (rulesetBody cached))
    | none =>
      if faults.readEpoch then (redis, .error .redisError)
      else
        let epoch := readEpoch redis
        let mapping := buildRulesetMapping db
        if faults.writeRuleset then (others redis, .error .redisError)
        else ((writeRuleset (others redis) mapping (some epoch)).1, .ok (rulesetBody (Hash.values mapping)))

/-- The body is a JSON array of objects of distinct keys that, taken as a map from key to flag, is the mapping. -/
def Carries (body : Str) (mapping : Hash) : Prop :=
  ∃ (items : List Json) (keys : List Str), loads body = .ok (.arr items) ∧
    items.map (getItem "key") = keys.map (fun key => .ok (.str key)) ∧ keys.Nodup ∧
    ∀ key item, (key, item) ∈ keys.zip items ↔
      ∃ payload, mapping.lookup key = some payload ∧ loads payload = .ok item

/-- Every Redis call that the handler makes succeeds: on a warm cache the one that reads it, on a cold one
    all three. -/
def CallsSucceed (faults : RulesetFaults) (redis : Redis) : Prop :=
  faults.readRuleset = false ∧
    (readRuleset redis = none → faults.readEpoch = false ∧ faults.writeRuleset = false)

section Bodies

variable {db : Database} {redis : Redis}

theorem getItem_key (flag : Flag) : getItem "key" flag.toFlagOut.toJson = .ok (.str flag.key) := rfl

theorem flags_of_entries {entries : List (Sigma fun _ : Str => Str)}
    (fresh : ∀ field ∈ entries, rowPayload db field.1 = some field.2) :
    ∃ flags : List Flag, flags.map Flag.key = entries.map Sigma.fst ∧ flags.map flagPayload = entries.map Sigma.snd ∧
      ∀ flag ∈ flags, getFlag db flag.key = some flag := by
  induction entries with
  | nil => exact ⟨[], rfl, rfl, fun flag none => by cases none⟩
  | cons field rest ih =>
    obtain ⟨flags, keys, payloads, stored⟩ := ih fun other member => fresh other (List.mem_cons_of_mem _ member)
    obtain ⟨flag, reads, payload⟩ := Option.map_eq_some_iff.mp (fresh field List.mem_cons_self)
    obtain ⟨row, _, named, _, rfl⟩ := getFlag_spec reads
    have key : row.load.key = field.1 := named
    refine ⟨row.load :: flags, by rw [List.map_cons, List.map_cons, keys, key],
      by rw [List.map_cons, List.map_cons, payloads, payload], fun other member => ?_⟩
    rcases List.mem_cons.mp member with rfl | later
    · rw [key]
      exact reads
    · exact stored other later

theorem carries_of_entries {entries : List (Sigma fun _ : Str => Str)} (distinct : (entries.map Sigma.fst).Nodup)
    (fresh : ∀ field ∈ entries, rowPayload db field.1 = some field.2)
    (complete : ∀ key payload, rowPayload db key = some payload → key ∈ entries.map Sigma.fst) :
    Carries (rulesetBody (entries.map Sigma.snd)) (buildRulesetMapping db) := by
  obtain ⟨flags, keys, payloads, stored⟩ := flags_of_entries fresh
  rw [← payloads]
  refine ⟨_, flags.map Flag.key, loads_rulesetBody flags, ?_, keys ▸ distinct, fun key item => ?_⟩
  · simp [Function.comp_def, getItem_key]
  · rw [List.zip_map', List.mem_map, lookup_buildRulesetMapping]
    constructor
    · intro found
      obtain ⟨flag, member, same⟩ := found
      cases same
      refine ⟨flagPayload flag, ?_, loads_flagPayload flag⟩
      rw [rowPayload, stored flag member, Option.map_some]
    · intro found
      obtain ⟨payload, row, parses⟩ := found
      have listed := complete key payload row
      rw [← keys] at listed
      obtain ⟨flag, member, rfl⟩ := List.mem_map.mp listed
      rw [rowPayload, stored flag member, Option.map_some] at row
      cases row
      rw [loads_flagPayload] at parses
      cases parses
      exact ⟨flag, member, rfl⟩

theorem cold_carries (db : Database) :
    Carries (rulesetBody (Hash.values (buildRulesetMapping db))) (buildRulesetMapping db) := by
  have distinct : ((buildRulesetMapping db).entries.map Sigma.fst).Nodup := (buildRulesetMapping db).nodupKeys
  apply carries_of_entries
  · rw [List.map_reverse]
    exact List.nodup_reverse.mpr distinct
  · intro field member
    rw [← lookup_buildRulesetMapping]
    exact AList.mem_lookup_iff.mpr (List.mem_reverse.mp member)
  · intro key payload row
    rw [← lookup_buildRulesetMapping] at row
    have member := List.mem_reverse.mpr (AList.mem_lookup_iff.mp row)
    exact List.mem_map_of_mem (f := Sigma.fst) member

theorem warm_carries (keys : ∀ row ∈ db.flags, MatchesKeyPattern row.key) (consistent : Consistent db redis)
    {cached : List Str} (warm : readRuleset redis = some cached) :
    Carries (rulesetBody cached) (buildRulesetMapping db) := by
  unfold readRuleset at warm
  split at warm
  · cases warm
  · rename_i present
    cases warm
    have complete : redis.hexists completeField := by simpa using fun absent => present (.inr absent)
    have distinct : (redis.ruleset.entries.map Sigma.fst).Nodup := redis.ruleset.nodupKeys
    apply carries_of_entries
    · exact distinct.sublist (List.filter_sublist.map _)
    · intro field member
      obtain ⟨stored, flagField⟩ := List.mem_filter.mp member
      exact consistent.fresh field.1 field.2 (by simpa using flagField) (AList.mem_lookup_iff.mpr stored)
    · intro key payload row
      have flagField : key ≠ completeField := by
        obtain ⟨flag, reads, _⟩ := Option.map_eq_some_iff.mp row
        obtain ⟨stored, member, rfl, _⟩ := getFlag_spec reads
        exact (keys stored member).ne_underscore _
      cases field : redis.hget key with
      | none =>
        rw [consistent.complete complete key flagField field] at row
        cases row
      | some cached =>
        have member : Sigma.mk key cached ∈ redis.ruleset.entries := AList.mem_lookup_iff.mp field
        exact List.mem_map_of_mem (f := Sigma.fst) (List.mem_filter.mpr ⟨member, by simpa using flagField⟩)

end Bodies

/-- The handler answers, and then with the database's ruleset, exactly where none of its Redis calls raises. -/
theorem getRuleset_carries_iff (faults : RulesetFaults) (others : Redis → Redis) (redis : Redis) (db : Database)
    (keys : ∀ row ∈ db.flags, MatchesKeyPattern row.key) (consistent : Consistent db redis) :
    (∃ body, (getRuleset faults others redis db).2 = .ok body ∧ Carries body (buildRulesetMapping db)) ↔
      CallsSucceed faults redis := by
  unfold getRuleset CallsSucceed
  cases raises : faults.readRuleset with
  | true => simp
  | false =>
    cases warm : readRuleset redis with
    | some cached => simpa using warm_carries keys consistent warm
    | none =>
      cases epoch : faults.readEpoch with
      | true => simp
      | false =>
        cases publish : faults.writeRuleset with
        | true => simp
        | false => simpa using cold_carries db

theorem StoreWorld.keys_of_run {world : StoreWorld} {acts : List (Nat × StoreAct)}
    (runs : run (World.act storeStep) StoreWorld.start acts = some world) :
    ∀ row ∈ world.shared.db.flags, MatchesKeyPattern row.key := by
  refine StoreWorld.flags_of_run (fun flag => MatchesKeyPattern flag.key) ?_ ?_ (StoreWorld.sends_any runs)
  · exact fun supply data actor _ => data.fieldsValid.2.1
  · exact fun supply row data actor _ _ _ pattern => pattern

theorem getRuleset_carries_iff_superseded :
    ∃ world : StoreWorld, run (World.act storeStep) StoreWorld.start reshaping = some world ∧
      ((∃ body, (getRuleset {} Redis.incr Redis.empty world.shared.db).2 = .ok body ∧
          Carries body (buildRulesetMapping world.shared.db)) ↔
        CallsSucceed {} Redis.empty) ∧
      CallsSucceed {} Redis.empty := by
  obtain ⟨world, runs, _⟩ := run_reaches (World.act storeStep) StoreWorld.start reshaping (fun _ => True)
    (by decide +kernel)
  have empty : Consistent world.shared.db Redis.empty :=
    ⟨fun key payload _ field => (by cases field), fun complete => (by cases complete)⟩
  have keys := StoreWorld.keys_of_run runs
  have carries := getRuleset_carries_iff {} Redis.incr Redis.empty world.shared.db keys empty
  exact ⟨world, runs, carries, rfl, fun _ => ⟨rfl, rfl⟩⟩

/-- With Redis unreachable the request fails, and so it does if only the epoch or only the publish does. -/
theorem getRuleset_raises :
    Consistent bannerDatabase Redis.empty ∧
      (getRuleset { readRuleset := true } id Redis.empty bannerDatabase).2 = .error .redisError ∧
      (getRuleset { readEpoch := true } id Redis.empty bannerDatabase).2 = .error .redisError ∧
      (getRuleset { writeRuleset := true } id Redis.empty bannerDatabase).2 = .error .redisError :=
  ⟨⟨fun key payload _ field => (by cases field), fun complete => (by cases complete)⟩, rfl, rfl, rfl⟩

end Ripcord
