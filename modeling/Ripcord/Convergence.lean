import Ripcord.Rebuilds
import Ripcord.RulePriority

namespace Ripcord

open Foundation

/-! The order in which changes reach the cache. -/

def RulesAscending (rules : List TargetingRuleIn) : Prop :=
  rules.Pairwise fun a b => a.priority ≤ b.priority
  deriving Decidable

def Request.RulesAscending : Request → Prop
  | .create data _ => Ripcord.RulesAscending data.rules
  | .update _ data _ => ∀ rules ∈ data.rules.get?, Ripcord.RulesAscending rules
  | .delete .. => True

instance : DecidablePred Request.RulesAscending
  | .create data _ => inferInstanceAs (Decidable (Ripcord.RulesAscending data.rules))
  | .update _ data _ => inferInstanceAs (Decidable (∀ rules ∈ data.rules.get?, Ripcord.RulesAscending rules))
  | .delete .. => inferInstanceAs (Decidable True)

def Party.fieldWrite? : Party → Option Change
  | .writer ⟨key, action, entry, .field payload⟩ => some ⟨key, action, entry, .field payload⟩
  | _ => none

instance (audit : List AuditLog) (n : Nat) (key : Str) : Decidable (KeyAt audit n key) :=
  inferInstanceAs (Decidable (audit[n]?.map AuditLog.flagKey = some key))

/-- Requests list their rules in ascending priority, and no change writes its field once a change of the
    same flag that committed later has written. -/
def Orderly (world : Traffic) : Nat × Act → Prop
  | (_, .request request _) => request.RulesAscending
  | (who, .next) => ∀ change ∈ (world.parties who).fieldWrite?,
      ∀ n ∈ world.shared.written, KeyAt world.shared.db.audit n change.key → n ≤ change.entry
  | _ => True

instance (world : Traffic) : DecidablePred (Orderly world)
  | (_, .request request _) => inferInstanceAs (Decidable request.RulesAscending)
  | (who, .next) => inferInstanceAs (Decidable (∀ change ∈ (world.parties who).fieldWrite?,
      ∀ n ∈ world.shared.written, KeyAt world.shared.db.audit n change.key → n ≤ change.entry))
  | (_, .evaluateFlagCached _) | (_, .getRuleset) | (_, .fault _) | (_, .lapse) =>
    inferInstanceAs (Decidable True)

def Caught (shared : Shared) (key : Str) : Prop :=
  ∀ n, KeyAt shared.db.audit n key → ∃ m ∈ shared.written, n ≤ m ∧ KeyAt shared.db.audit m key

/-- The cached field is the row's payload, or the whole hash has gone since it was written. -/
def Settled (db : Database) (redis : Redis) (key : Str) : Prop :=
  redis.hget key = rowPayload db key ∨ redis.hget key = none ∧ redis.hexists completeField = false

structure Shared.Converging (shared : Shared) : Prop where
  keys : ∀ row ∈ shared.db.flags, MatchesKeyPattern row.key
  settled : ∀ key, key ≠ completeField → Caught shared key → Settled shared.db shared.redis key

def ChangePoint.Current (db : Database) (key : Str) (action : Action) : ChangePoint → Prop
  | .reload held =>
    action ≠ .deleted ∧ ∃ flag, getFlagHeld db action held key = some flag ∧
      rowPayload db key = some (flagPayload flag)
  | .incr payload | .field payload => payload = rowPayload db key ∧ (action = .deleted ↔ payload = none)
  | _ => True

structure Change.Converging (shared : Shared) (change : Change) : Prop where
  pattern : MatchesKeyPattern change.key
  keyed : KeyAt shared.db.audit change.entry change.key
  current : (∀ n, change.entry < n → ¬ KeyAt shared.db.audit n change.key) →
    change.point.Current shared.db change.key change.action

def Party.Converging (shared : Shared) : Party → Prop
  | .writer change => change.Converging shared
  | .reader rebuild => rebuild.point.IsFenced
  | _ => True

section Rows

variable {before after : Database} {key : Str}

theorem rowPayload_congr (same : after.row? key = before.row? key) : rowPayload after key = rowPayload before key := by
  simp only [rowPayload, getFlag, same]

theorem ChangePoint.Current.congr {action : Action} {point : ChangePoint}
    (same : after.row? key = before.row? key) (current : point.Current before key action) :
    point.Current after key action := by
  cases point with
  | reload held => simpa only [ChangePoint.Current, getFlagHeld, rowPayload, getFlag, same] using current
  | incr payload => simpa only [ChangePoint.Current, rowPayload_congr same] using current
  | field payload => simpa only [ChangePoint.Current, rowPayload_congr same] using current
  | _ => trivial

theorem DatabaseEvolves.last {entry : Nat} (evolves : DatabaseEvolves before after)
    (keyed : KeyAt before.audit entry key) (last : ∀ n, entry < n → ¬ KeyAt after.audit n key) :
    (∀ n, entry < n → ¬ KeyAt before.audit n key) ∧ after.row? key = before.row? key := by
  cases evolves with
  | same unchanged => exact ⟨unchanged ▸ last, unchanged ▸ rfl⟩
  | commit written audit others =>
    rw [audit] at last
    have other : key ≠ written.flagKey := by
      intro same
      exact last _ keyed.lt (keyAt_append_singleton.mpr (.inr ⟨rfl, same.symm⟩))
    exact ⟨fun n later here => last n later (here.append _), others _ other⟩

theorem KeyAt.evolves {entry : Nat} (keyed : KeyAt before.audit entry key) (evolves : DatabaseEvolves before after) :
    KeyAt after.audit entry key := by
  obtain ⟨more, grown⟩ := evolves.audit_grows
  exact grown ▸ keyed.append more

theorem Change.Converging.evolves {shared next : Shared} {change : Change} (own : change.Converging shared)
    (evolves : DatabaseEvolves shared.db next.db) : change.Converging next := by
  refine ⟨own.pattern, own.keyed.evolves evolves, fun last => ?_⟩
  obtain ⟨still, row⟩ := evolves.last own.keyed last
  exact (own.current still).congr row

theorem Party.Converging.evolves {shared next : Shared} {party : Party} (own : party.Converging shared)
    (evolves : DatabaseEvolves shared.db next.db) : party.Converging next := by
  cases party with
  | writer change => exact Change.Converging.evolves own evolves
  | reader rebuild => exact own
  | _ => trivial

end Rows

section Commits

variable {db after : Database} {supply : Supply}

theorem flagPayload_load {flag : Flag} (ascending : flag.rules.Pairwise fun a b => a.priority ≤ b.priority) :
    flagPayload flag.load = flagPayload flag := by
  simp [flagPayload, Flag.toFlagOut, Flag.load, sortOn_of_pairwise ascending]

theorem rulesFromInput_ascending (ids : Nat → Nat) {rules : List TargetingRuleIn} (ascending : RulesAscending rules) :
    (rulesFromInput ids rules).Pairwise fun a b => a.priority ≤ b.priority := by
  have mapped : (rules.map TargetingRuleIn.ranked).Pairwise fun a b => a.priority ≤ b.priority :=
    List.pairwise_map.mpr ascending
  rw [← rulesFromInput_ranked ids, List.pairwise_map] at mapped
  exact mapped

theorem Request.commit_keys {request : Request} {held : Option Flag}
    (keys : ∀ row ∈ db.flags, MatchesKeyPattern row.key)
    (commits : request.commit db supply = some (after, held)) :
    MatchesKeyPattern request.key ∧ ∀ row ∈ after.flags, MatchesKeyPattern row.key := by
  cases Request.commit_cases commits with
  | @created data actor held created =>
    have pattern : MatchesKeyPattern data.key := data.fieldsValid.2.1
    refine ⟨pattern, fun row member => ?_⟩
    rw [created.flags, List.mem_append, List.mem_singleton] at member
    rcases member with old | rfl
    · exact keys row old
    · exact pattern
  | @updated data actor held row updated _ =>
    refine ⟨keys row updated.stored, fun stored member => ?_⟩
    rcases updated.mem_flags.mp member with rfl | ⟨old, _⟩
    · exact keys row updated.stored
    · exact keys stored old
  | @deleted actor row deleted =>
    exact ⟨keys row deleted.stored, fun stored member => keys stored (deleted.mem_flags.mp member).1⟩

theorem Request.held_ascending {request : Request} {held : Flag} (ascending : request.RulesAscending)
    (commits : request.commit db supply = some (after, some held)) :
    held.rules.Pairwise fun a b => a.priority ≤ b.priority := by
  cases Request.commit_cases commits with
  | created created =>
    rw [created.holds]
    exact rulesFromInput_ascending _ ascending
  | @updated data actor held row updated _ =>
    rw [updated.holds]
    cases sent : data.rules.get? with
    | none =>
      have kept : (patchedFlag supply row.load data).rules = row.load.rules := by
        simp [patchedFlag, assignCollections, assignFields, sent]
      rw [kept]
      exact sortOn_pairwise _ _
    | some rules =>
      have replaced : (patchedFlag supply row.load data).rules = rulesFromInput supply.ruleIds rules := by
        simp [patchedFlag, assignCollections, sent]
      rw [replaced]
      exact rulesFromInput_ascending _ (ascending rules sent)

theorem getFlagHeld_stored {action : Action} {key : Str} {held : Flag} (stored : after.row? key = some held) :
    getFlagHeld after action held key = some held := by
  cases action <;> simp [getFlagHeld, stored]

theorem Request.change_converging {request : Request} {shared : Shared} {held : Option Flag}
    (keys : ∀ row ∈ shared.db.flags, MatchesKeyPattern row.key) (ascending : request.RulesAscending)
    (commits : request.commit shared.db supply = some (after, held)) :
    (request.change shared.db.audit.length held).Converging { shared with db := after } := by
  have committed := Request.commit_ok commits
  obtain ⟨entry, audit, flagKey, _⟩ := committed.audit
  have pattern := (Request.commit_keys keys commits).1
  have keyed : KeyAt after.audit shared.db.audit.length request.key :=
    audit ▸ keyAt_append_singleton.mpr (.inr ⟨rfl, flagKey⟩)
  have stored := committed.row
  refine ⟨pattern, keyed, fun _ => ?_⟩
  cases held with
  | none =>
    have gone : rowPayload after request.key = none := by simp [rowPayload, getFlag, stored]
    exact ⟨gone.symm, by simpa [Request.change] using committed.deleted⟩
  | some held =>
    have kept : request.action ≠ .deleted := fun deleted => by simpa using committed.deleted.mp deleted
    refine ⟨kept, held, getFlagHeld_stored stored, ?_⟩
    have payload := flagPayload_load (Request.held_ascending ascending commits)
    simpa [rowPayload, getFlag, Request.change, stored] using payload

end Commits

section Fields

variable {redis : Redis} {key other value : Str}

theorem hget_hset : (redis.hset key value).hget key = some value := AList.lookup_insert _

theorem hget_hset_of_ne (different : other ≠ key) : (redis.hset key value).hget other = redis.hget other :=
  AList.lookup_insert_ne different

theorem hget_hdel : (redis.hdel key).hget key = none := AList.lookup_erase _ _

theorem hget_hdel_of_ne (different : other ≠ key) : (redis.hdel key).hget other = redis.hget other :=
  AList.lookup_erase_ne different

theorem hget_delete : redis.delete.hget key = none := rfl

theorem hget_expire (redis : Redis) (seconds : Nat) (key : Str) : (redis.expire seconds).hget key = redis.hget key := by
  unfold Redis.expire
  split <;> rfl

theorem settled_delete (db : Database) : Settled db redis.delete key := .inr ⟨hget_delete, rfl⟩

theorem Settled.congr {db after : Database} {next : Redis} (settled : Settled db redis key)
    (row : rowPayload after key = rowPayload db key) (field : next.hget key = redis.hget key)
    (marker : next.hget completeField = redis.hget completeField) : Settled after next key := by
  simpa only [Settled, Redis.hexists, row, field, marker] using settled

end Fields

inductive HashEffect (shared : Shared) (party : Party) (after : Shared) : Prop
  | quiet (written : after.written = shared.written)
    (fields : ∀ field, after.redis.hget field = shared.redis.hget field)
  | removes {change : Change} (writes : party.fieldWrite? = some change) (action : change.action = .deleted)
    (written : after.written = change.entry :: shared.written) (redis : after.redis = shared.redis.hdel change.key)
  | sets {change : Change} {payload : Str} (writes : party.fieldWrite? = some change)
    (sent : change.point = .field (some payload)) (written : after.written = change.entry :: shared.written)
    (redis : after.redis = shared.redis.hset change.key payload)
  | drops (redis : after.redis = shared.redis.delete)
  | publishes {fence : Option Fence} {snapshot : Database} (execs : party.exec? = some (fence, snapshot))
    (passes : Fence.Passes shared.redis fence) (written : after.written = shared.written)
    (redis : after.redis = shared.redis.replaceRuleset (buildRulesetMapping snapshot))

section Effects

variable {shared after : Shared} {party next : Party}

theorem Change.next_effect {change : Change} {point : ChangePoint} (steps : change.next shared = some (after, point)) :
    after.db = shared.db ∧ HashEffect shared (.writer change) after := by
  obtain ⟨key, action, entry, old⟩ := change
  cases Change.next_moves steps with
  | removes deleted => exact ⟨rfl, .removes rfl deleted rfl rfl⟩
  | sets => exact ⟨rfl, .sets rfl rfl rfl rfl⟩
  | drops => exact ⟨rfl, .drops rfl⟩
  | expires => exact ⟨rfl, .quiet rfl fun _ => hget_expire _ _ _⟩
  | _ => exact ⟨rfl, .quiet rfl fun _ => rfl⟩

theorem Rebuild.next_effect {rebuild : Rebuild} {redis : Redis} {point : RebuildPoint}
    (steps : rebuild.next shared.db shared.redis = some (redis, point)) :
    HashEffect shared (.reader rebuild) { shared with redis } := by
  rcases Rebuild.next_redis steps with rfl | ⟨fence, snapshot, here, passes, rfl⟩
  · exact .quiet rfl fun _ => rfl
  · obtain ⟨caller, point⟩ := rebuild
    cases here
    exact .publishes rfl passes rfl rfl

theorem Party.next_effect (steps : party.next shared = some (after, next)) :
    after.db = shared.db ∧ HashEffect shared party after := by
  cases Party.next_moves steps with
  | writer changes => exact Change.next_effect changes
  | reader rebuilds => exact ⟨rfl, Rebuild.next_effect rebuilds⟩

theorem Party.fieldWrite?_eq_some {change : Change} (writes : party.fieldWrite? = some change) :
    party = .writer change ∧ ∃ payload, change.point = .field payload := by
  unfold Party.fieldWrite? at writes
  split at writes <;> cases writes
  exact ⟨rfl, _, rfl⟩

end Effects

section Steps

variable {shared after : Shared} {party : Party} {change : Change} {point : ChangePoint}

theorem Caught.of_written {key : Str} {entry : Nat}
    (caught : Caught { shared with written := entry :: shared.written } key)
    (elsewhere : ¬ KeyAt shared.db.audit entry key) : Caught shared key := by
  intro n here
  obtain ⟨m, member, later, also⟩ := caught n here
  rcases List.mem_cons.mp member with rfl | member
  · exact absurd also elsewhere
  · exact ⟨m, member, later, also⟩

theorem Caught.last (ordered : ∀ n ∈ shared.written, KeyAt shared.db.audit n change.key → n ≤ change.entry)
    (caught : Caught { shared with written := change.entry :: shared.written } change.key) (n : Nat)
    (later : change.entry < n) : ¬ KeyAt shared.db.audit n change.key := by
  intro here
  obtain ⟨m, member, after, also⟩ := caught n here
  rcases List.mem_cons.mp member with rfl | member
  · exact absurd after (Nat.not_le.mpr later)
  · exact absurd (ordered m member also) (Nat.not_le.mpr (Nat.lt_of_lt_of_le later after))

theorem Caught.pushed {change : Change} {key : Str} (caught : Caught after key) (db : after.db = shared.db)
    (written : after.written = change.entry :: shared.written) :
    Caught { shared with written := change.entry :: shared.written } key := by
  simpa only [Caught, db, written] using caught

theorem Caught.of_field {change : Change} (keyed : KeyAt shared.db.audit change.entry change.key)
    (other : key ≠ change.key) (db : after.db = shared.db) (written : after.written = change.entry :: shared.written)
    (caught : Caught after key) : Caught shared key := by
  apply (caught.pushed db written).of_written
  intro here
  unfold KeyAt at keyed here
  exact other (Option.some.inj (here.symm.trans keyed))

theorem Party.Sound.past {fence : Option Fence} {snapshot : Database} (known : party.Sound shared)
    (execs : party.exec? = some (fence, snapshot)) : Past shared.db snapshot := by
  obtain ⟨caller, rfl⟩ := Party.exec?_eq_some execs
  cases fence with
  | none => exact known
  | some fence => exact known.1

theorem Shared.Converging.congr (common : shared.Converging) (db : after.db = shared.db)
    (written : after.written = shared.written) (fields : ∀ key, after.redis.hget key = shared.redis.hget key) :
    after.Converging := by
  refine ⟨db ▸ common.keys, fun key flagField caught => ?_⟩
  have before : Caught shared key := by simpa only [Caught, db, written] using caught
  exact (common.settled key flagField before).congr (by rw [db]) (fields _) (fields _)

theorem Change.next_own (own : change.Converging shared) (steps : change.next shared = some (after, point)) :
    Change.Converging after { change with point } := by
  have db := (Change.next_effect steps).1
  obtain ⟨key, action, entry, old⟩ := change
  refine ⟨own.pattern, db ▸ own.keyed, fun last => ?_⟩
  rw [db] at last ⊢
  have current := own.current last
  cases Change.next_moves steps with
  | reloads found =>
    obtain ⟨kept, also, foundAlso, row⟩ := current
    rw [found] at foundAlso
    cases foundAlso
    exact ⟨row.symm, by simp [kept]⟩
  | increments => exact current
  | _ => trivial

/-- A field command leaves its own flag settled because it was the last change of it, and the others because
    it touches neither their field nor the marker. -/
theorem Shared.Converging.of_fieldWrite {change : Change} (common : shared.Converging) (own : change.Converging shared)
    (ordered : ∀ n ∈ shared.written, KeyAt shared.db.audit n change.key → n ≤ change.entry)
    (db : after.db = shared.db) (written : after.written = change.entry :: shared.written)
    (elsewhere : ∀ field, field ≠ change.key → after.redis.hget field = shared.redis.hget field)
    (here : change.point.Current shared.db change.key change.action →
      after.redis.hget change.key = rowPayload shared.db change.key) : after.Converging := by
  refine ⟨db ▸ common.keys, fun key flagField caught => ?_⟩
  rw [db]
  by_cases same : key = change.key
  · subst same
    exact .inl (here (own.current ((caught.pushed db written).last ordered)))
  · have marker : completeField ≠ change.key := (own.pattern.ne_underscore _).symm
    exact (common.settled key flagField (Caught.of_field own.keyed same db written caught)).congr rfl
      (elsewhere key same) (elsewhere completeField marker)

theorem HashEffect.settles (sound : shared.Sound) (known : party.Sound shared) (common : shared.Converging)
    (own : party.Converging shared)
    (ordered : ∀ change ∈ party.fieldWrite?,
      ∀ n ∈ shared.written, KeyAt shared.db.audit n change.key → n ≤ change.entry)
    (db : after.db = shared.db) (effect : HashEffect shared party after) : after.Converging := by
  cases effect with
  | quiet written fields => exact common.congr db written fields
  | @removes change writes action written redis =>
    obtain ⟨rfl, payload, here⟩ := Party.fieldWrite?_eq_some writes
    apply common.of_fieldWrite own (ordered change writes) db written
    · intro field other
      rw [redis, hget_hdel_of_ne other]
    · intro current
      rw [here] at current
      obtain ⟨payload_eq, gone⟩ := current
      rw [redis, hget_hdel, ← payload_eq, gone.mp action]
  | @sets change payload writes sent written redis =>
    obtain ⟨rfl, _⟩ := Party.fieldWrite?_eq_some writes
    apply common.of_fieldWrite own (ordered change writes) db written
    · intro field other
      rw [redis, hget_hset_of_ne other]
    · intro current
      rw [sent] at current
      obtain ⟨payload_eq, _⟩ := current
      rw [redis, hget_hset, payload_eq]
  | drops redis =>
    refine ⟨db ▸ common.keys, fun key _ _ => ?_⟩
    rw [redis]
    exact settled_delete _
  | @publishes fence snapshot execs passes written redis =>
    have past := known.past execs
    have fenced : ∃ f, fence = some f := by
      obtain ⟨caller, rfl⟩ := Party.exec?_eq_some execs
      cases fence with
      | none => exact absurd own id
      | some fence => exact ⟨fence, rfl⟩
    obtain ⟨fence, rfl⟩ := fenced
    obtain ⟨fenced, compared⟩ := known.exec execs
    have included := fenced.current (compared (passes fence rfl))
    refine ⟨db ▸ common.keys, fun key flagField caught => .inl ?_⟩
    rw [redis, db, hget_replaceRuleset _ _ flagField, lookup_buildRulesetMapping]
    -- what the snapshot lacks has not been announced, so a later write of this flag is still to come
    apply past.rowPayload
    intro n late here
    obtain ⟨m, wrote, later, _⟩ := caught n (db ▸ here)
    exact absurd (included m (sound.written m (written ▸ wrote))) (Nat.not_lt.mpr (Nat.le_trans late later))

theorem Caught.of_commit {request : Request} {supply : Supply} {db : Database} {held : Option Flag} {key : Str}
    (sound : shared.Sound) (commits : request.commit shared.db supply = some (db, held))
    (caught : Caught { shared with db } key) : Caught shared key ∧ db.row? key = shared.db.row? key := by
  have committed := Request.commit_ok commits
  obtain ⟨entry, audit, flagKey, _⟩ := committed.audit
  have other : key ≠ request.key := by
    intro same
    have newest : KeyAt db.audit shared.db.audit.length key :=
      audit ▸ keyAt_append_singleton.mpr (.inr ⟨rfl, flagKey.trans same.symm⟩)
    obtain ⟨m, written, later, _⟩ := caught _ newest
    exact absurd (sound.announced m (sound.written m written)) (Nat.not_lt.mpr later)
  refine ⟨fun n here => ?_, committed.others key other⟩
  obtain ⟨m, written, later, also⟩ := caught n (audit ▸ here.append [entry])
  rw [audit] at also
  rcases keyAt_append_singleton.mp also with old | ⟨_, changed⟩
  · exact ⟨m, written, later, old⟩
  · exact absurd (changed.symm.trans flagKey) other

theorem Request.shared_converging {request : Request} {supply : Supply} {db : Database} {held : Option Flag}
    (sound : shared.Sound) (common : shared.Converging)
    (commits : request.commit shared.db supply = some (db, held)) : Shared.Converging { shared with db } := by
  refine ⟨(Request.commit_keys common.keys commits).2, fun key flagField caught => ?_⟩
  obtain ⟨before, row⟩ := caught.of_commit sound commits
  exact (common.settled key flagField before).congr (rowPayload_congr row) rfl rfl

theorem trafficStep_converging {party next : Party} {act : Act} (sound : shared.Sound)
    (known : party.Sound shared) (common : shared.Converging) (own : party.Converging shared)
    (noFault : act.NoFault) (ascending : ∀ request supply, act = .request request supply → request.RulesAscending)
    (ordered : act = .next → ∀ change ∈ party.fieldWrite?,
      ∀ n ∈ shared.written, KeyAt shared.db.audit n change.key → n ≤ change.entry)
    (steps : trafficStep shared party act = some (after, next)) :
    after.Converging ∧ next.Converging after := by
  cases trafficStep_moves steps with
  | commits commits =>
    have changed := Request.change_converging common.keys (ascending _ _ rfl) commits
    exact ⟨Request.shared_converging sound common commits, changed⟩
  | refuses => exact ⟨common, trivial⟩
  | evaluates => exact ⟨common, trivial⟩
  | fetches => exact ⟨common, trivial⟩
  | writer changes =>
    obtain ⟨db, effect⟩ := Change.next_effect changes
    exact ⟨effect.settles sound known common own (ordered rfl) db, Change.next_own own changes⟩
  | reader rebuilds =>
    have effect := Rebuild.next_effect rebuilds
    exact ⟨effect.settles sound known common own (ordered rfl) rfl, Rebuild.next_isFenced own rebuilds⟩
  | raises => exact absurd noFault id
  | lapses =>
    have evolves : DatabaseEvolves shared.db shared.db := .same rfl
    have lapsed : party.Converging { shared with redis := shared.redis.delete } := own.evolves evolves
    exact ⟨⟨common.keys, fun _ _ _ => settled_delete _⟩, lapsed⟩

end Steps

def Traffic.Converging (world : Traffic) : Prop :=
  world.shared.Converging ∧ ∀ who, (world.parties who).Converging world.shared

theorem Traffic.start_converging : Traffic.start.Converging := by
  refine ⟨⟨by simp [Traffic.start, Database.empty], fun key _ _ => ?_⟩, fun _ => trivial⟩
  exact .inl rfl

theorem Traffic.Converging.act {world next : Traffic} {action : Nat × Act} (sound : world.Sound)
    (converging : world.Converging) (noFault : action.2.NoFault) (orderly : Orderly world action)
    (acts : World.act trafficStep world action = some next) : next.Converging := by
  obtain ⟨who, act⟩ := action
  apply World.act_invariant _ (fun shared party => party.Converging shared) acts converging.2
  intro shared party steps
  have keeps := trafficStep_keeps sound.1 (sound.2 who) steps
  obtain ⟨common, own⟩ := trafficStep_converging sound.1 (sound.2 who) converging.1 (converging.2 who) noFault
    (fun request supply same => by subst same; exact orderly) (fun same => by subst same; exact orderly) steps
  exact ⟨common, own, fun _ own => own.evolves keeps.evolves.database⟩

theorem Traffic.converging_of_run {world : Traffic} {acts : List (Nat × Act)}
    (runs : RunWhere (World.act trafficStep) (fun world action => action.2.NoFault ∧ Orderly world action)
      Traffic.start acts world) : world.Sound ∧ world.Converging :=
  runs.invariant (fun world : Traffic => world.Sound ∧ world.Converging)
    (fun _ _ _ allows ⟨sound, converging⟩ acts =>
      ⟨sound.act acts, converging.act sound allows.1 allows.2 acts⟩)
    ⟨Traffic.start_sound, Traffic.start_converging⟩

/-- In every orderly run without faults: once every committed change has finished its notification, the
    cache is consistent with the database. -/
theorem cache_converges {world : Traffic} {acts : List (Nat × Act)}
    (runs : RunWhere (World.act trafficStep) (fun world action => action.2.NoFault ∧ Orderly world action)
      Traffic.start acts world)
    (finished : ∀ n < world.shared.db.audit.length, n ∈ world.shared.completed) :
    Consistent world.shared.db world.shared.redis := by
  obtain ⟨sound, converging⟩ := Traffic.converging_of_run runs
  have settled : ∀ key, key ≠ completeField → Settled world.shared.db world.shared.redis key := by
    intro key flagField
    apply converging.1.settled key flagField
    intro n here
    exact ⟨n, sound.1.completed n (finished n here.lt), Nat.le_refl n, here⟩
  constructor
  · intro key payload flagField field
    rcases settled key flagField with same | ⟨gone, _⟩
    · rw [← same, field]
    · rw [gone] at field
      cases field
  · intro complete key flagField missing
    rcases settled key flagField with same | ⟨_, cold⟩
    · rw [← same, missing]
    · rw [cold] at complete
      cases complete

theorem cache_converges_refill :
    ∃ world, RunWhere (World.act trafficStep) (fun world action => action.2.NoFault ∧ Orderly world action)
        Traffic.start refill world ∧
      (∀ n < world.shared.db.audit.length, n ∈ world.shared.completed) ∧
      Consistent world.shared.db world.shared.redis := by
  obtain ⟨world, runs, finished⟩ := runWhere_reaches (World.act trafficStep)
    (fun world action => action.2.NoFault ∧ Orderly world action) Traffic.start refill
    (fun world => ∀ n < world.shared.db.audit.length, n ∈ world.shared.completed) (by decide +kernel)
  exact ⟨world, runs, finished, cache_converges runs finished⟩

def renameCheckout : FlagUpdate := ⟨{ name := .value (str "Checkout page"), version := 1 }, by decide +kernel⟩

def killCheckout : FlagUpdate := ⟨{ enabled := .value false, version := 2 }, by decide +kernel⟩

/-- A flag is created and announced, renamed, and killed; the kill is announced before the rename, whose
    payload still has the flag on. -/
def lateRename : List (Nat × Act) :=
  [(0, .request (.create checkoutCreate (str "ops")) firstSupply), (0, .next), (0, .next), (0, .next),
    (0, .next), (0, .next), (0, .next),
    (1, .request (.update (str "checkout") renameCheckout (str "ops")) firstSupply), (1, .next),
    (2, .request (.update (str "checkout") killCheckout (str "ops")) firstSupply), (2, .next), (2, .next),
    (2, .next), (2, .next), (2, .next), (1, .next), (1, .next), (1, .next), (1, .next)]

theorem lateRename_diverges :
    (∀ action ∈ lateRename, action.2.NoFault) ∧
      ∃ world, run (World.act trafficStep) Traffic.start lateRename = some world ∧
        (∀ n < world.shared.db.audit.length, n ∈ world.shared.completed) ∧
        (getFlag world.shared.db (str "checkout")).map Flag.enabled = some false ∧
        ((world.shared.redis.hget (str "checkout")).map fun payload =>
          evaluatePayload payload (str "ada") none) = some (.ok { enabled := true, reason := .rolloutIncluded }) ∧
        ¬ Consistent world.shared.db world.shared.redis := by
  refine ⟨by decide, ?_⟩
  obtain ⟨world, runs, finished, killed, served, present, differs⟩ := run_reaches
    (World.act trafficStep) Traffic.start lateRename
    (fun world =>
      (∀ n < world.shared.db.audit.length, n ∈ world.shared.completed) ∧
        (getFlag world.shared.db (str "checkout")).map Flag.enabled = some false ∧
        ((world.shared.redis.hget (str "checkout")).map fun payload =>
          evaluatePayload payload (str "ada") none) = some (.ok { enabled := true, reason := .rolloutIncluded }) ∧
        (world.shared.redis.hget (str "checkout")).isSome ∧
        world.shared.redis.hget (str "checkout") ≠ rowPayload world.shared.db (str "checkout")) (by decide +kernel)
  refine ⟨world, runs, finished, killed, served, fun consistent => ?_⟩
  obtain ⟨payload, field⟩ := Option.isSome_iff_exists.mp present
  exact differs (field.trans (consistent.fresh _ payload (by decide) field).symm)

end Ripcord
