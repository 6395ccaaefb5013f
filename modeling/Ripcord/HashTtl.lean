import Ripcord.Rebuilds

namespace Ripcord

open Foundation

/-- `TTL` answers -1: the hash exists and will never expire. -/
def Redis.Persistent (redis : Redis) : Prop := redis.ttl = -1
  deriving Decidable

def Party.ChecksTtl : Party → Prop
  | .writer change => match change.point with
    | .ttl | .expire => True
    | _ => False
  | _ => False

instance : DecidablePred Party.ChecksTtl := by
  intro party
  unfold Party.ChecksTtl
  repeat' split
  all_goals infer_instance

def Traffic.Quiet (world : Traffic) : Prop :=
  ∀ who change, world.parties who = .writer change → change.point.isCommand = false

section Persistence

variable {redis : Redis} {shared after : Shared} {party next : Party} {act : Act}

theorem Redis.persistent_iff : redis.Persistent ↔ redis.ruleset.entries ≠ [] ∧ redis.expiry = none := by
  unfold Redis.Persistent Redis.ttl
  by_cases empty : redis.ruleset.entries = []
  · simp [empty]
  · cases expiry : redis.expiry with
    | none => simp [empty]
    | some seconds => simp [empty]

theorem Redis.not_persistent_delete : ¬ redis.delete.Persistent := by
  rw [Redis.persistent_iff]
  intro ⟨present, _⟩
  exact present rfl

theorem Redis.not_persistent_expire (seconds : Nat) : ¬ (redis.expire seconds).Persistent := by
  rw [Redis.persistent_iff]
  intro ⟨present, unlimited⟩
  unfold Redis.expire at present unlimited
  split at unlimited
  · rename_i empty
    rw [if_pos empty] at present
    exact present empty
  · cases unlimited

theorem Redis.not_persistent_replaceRuleset (mapping : Hash) : ¬ (redis.replaceRuleset mapping).Persistent := by
  rw [Redis.persistent_iff]
  intro ⟨_, unlimited⟩
  cases unlimited

theorem Redis.Persistent.of_hdel {field : Str} (persists : (redis.hdel field).Persistent) : redis.Persistent := by
  obtain ⟨present, unlimited⟩ := Redis.persistent_iff.mp persists
  have rest : (redis.ruleset.erase field).entries ≠ [] := present
  simp only [Redis.hdel, if_neg rest] at unlimited
  refine Redis.persistent_iff.mpr ⟨fun empty => rest ?_, unlimited⟩
  show redis.ruleset.entries.kerase field = []
  rw [empty]
  rfl

/-- Only its `HSET` makes a hash persistent, and only by its own `EXPIRE` does a call leave it so. -/
theorem Change.next_persistent {change : Change} {point : ChangePoint}
    (steps : change.next shared = some (after, point))
    (persists : after.redis.Persistent) :
    Party.ChecksTtl (.writer { change with point }) ∨
      shared.redis.Persistent ∧ ¬ Party.ChecksTtl (.writer change) := by
  obtain ⟨key, action, entry, old⟩ := change
  cases Change.next_moves steps with
  | reloads | crashes | increments | publishes => exact .inr ⟨persists, id⟩
  | removes => exact .inr ⟨Redis.Persistent.of_hdel persists, id⟩
  | sets | unlimited => exact .inl trivial
  | drops => exact absurd persists Redis.not_persistent_delete
  | limited limited =>
    have unlimited : shared.redis.ttl = -1 := persists
    omega
  | expires => exact absurd persists (Redis.not_persistent_expire _)

theorem trafficStep_persistent (answers : act.NoFault) (steps : trafficStep shared party act = some (after, next))
    (persists : after.redis.Persistent) :
    next.ChecksTtl ∨ shared.redis.Persistent ∧ ¬ party.ChecksTtl := by
  cases trafficStep_moves steps with
  | commits => exact .inr ⟨persists, id⟩
  | refuses => exact .inr ⟨persists, id⟩
  | evaluates => exact .inr ⟨persists, id⟩
  | fetches => exact .inr ⟨persists, id⟩
  | writer changes => exact Change.next_persistent changes persists
  | reader rebuilds =>
    rcases Rebuild.next_redis rebuilds with same | ⟨fence, snapshot, _, _, published⟩
    · exact .inr ⟨same ▸ persists, id⟩
    · rw [published] at persists
      exact absurd persists (Redis.not_persistent_replaceRuleset _)
  | raises => exact absurd answers id
  | lapses => exact absurd persists Redis.not_persistent_delete

end Persistence

/-- A hash without a time to live is always in the hands of a change that has still to look at it, so it
    expires unless one is under way. -/
theorem persistent_hash_checked {world : Traffic} {acts : List (Nat × Act)}
    (runs : RunWhere (World.act trafficStep) (fun _ action => action.2.NoFault) Traffic.start acts world) :
    (world.shared.redis.Persistent → ∃ who, (world.parties who).ChecksTtl) ∧
      (world.Quiet → world.shared.redis.ruleset.entries ≠ [] →
        ∃ seconds, world.shared.redis.expiry = some seconds) := by
  have carried : world.shared.redis.Persistent → ∃ who, (world.parties who).ChecksTtl := by
    refine runs.invariant (fun world : Traffic =>
      world.shared.redis.Persistent → ∃ who, (world.parties who).ChecksTtl) ?_ ?_
    · intro world ⟨who, act⟩ next answers carried acts
      exact World.act_carried (fun shared : Shared => shared.redis.Persistent) Party.ChecksTtl acts carried
        fun shared party steps => trafficStep_persistent answers steps
    · intro persists
      exact absurd persists (by decide)
  refine ⟨carried, fun quiet present => ?_⟩
  cases expiry : world.shared.redis.expiry with
  | some seconds => exact ⟨seconds, rfl⟩
  | none =>
    obtain ⟨who, checks⟩ := carried (Redis.persistent_iff.mpr ⟨present, expiry⟩)
    unfold Party.ChecksTtl at checks
    split at checks
    · rename_i change writes
      have done := quiet who change writes
      split at checks
      · rename_i here
        rw [here] at done
        cases done
      · rename_i here
        rw [here] at done
        cases done
      · exact absurd checks id
    · exact absurd checks id

theorem persistent_hash_checked_refill :
    ∃ world : Traffic,
      RunWhere (World.act trafficStep) (fun _ action => action.2.NoFault) Traffic.start (refill.take 4) world ∧
      world.shared.redis.Persistent ∧
      (world.shared.redis.Persistent → ∃ who, (world.parties who).ChecksTtl) ∧
      (world.Quiet → world.shared.redis.ruleset.entries ≠ [] →
        ∃ seconds, world.shared.redis.expiry = some seconds) := by
  obtain ⟨world, runs, persists⟩ := runWhere_reaches (World.act trafficStep)
    (fun _ action => action.2.NoFault) Traffic.start (refill.take 4) (fun world => world.shared.redis.Persistent)
    (by decide +kernel)
  exact ⟨world, runs, persists, persistent_hash_checked runs⟩

end Ripcord
