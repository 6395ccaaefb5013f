import Ripcord.Rebuilds

namespace Ripcord

open Foundation

/-- Every key is lost. A restart also breaks every `WATCH`; a flush touches the counter only where it exists. -/
def Redis.lose (redis : Redis) (restarted : Bool) : Redis :=
  { redis with
    ruleset := ∅, expiry := none, epoch := none
    epochWrites := if restarted ∨ redis.epoch.isSome then redis.epochWrites + 1 else redis.epochWrites }

structure LossyShared where
  shared : Shared
  losses : Nat

/-- A party, with the number of losses at its last `read_epoch`. -/
structure LossyParty where
  party : Party
  since : Nat

inductive LossAct
  | traffic (act : Act)
  | lose (restarted : Bool)

def Party.readsEpoch : Party → Bool
  | .reader ⟨_, .epoch⟩ => true
  | _ => false

def lossStep (state : LossyShared) (client : LossyParty) : LossAct → Option (LossyShared × LossyParty)
  | .traffic act =>
    (trafficStep state.shared client.party act).map fun (shared, party) =>
      ({ state with shared }, { party, since := if client.party.readsEpoch then state.losses else client.since })
  | .lose restarted =>
    some ({ shared := { state.shared with redis := state.shared.redis.lose restarted }, losses := state.losses + 1 },
      client)

abbrev LossyTraffic := World LossyShared LossyParty

def LossyTraffic.start : LossyTraffic := ⟨⟨Traffic.start.shared, 0⟩, fun _ => ⟨.idle, 0⟩⟩

def LossAct.Executes : LossAct → Prop
  | .traffic act => act.Executes
  | .lose _ => False

instance : DecidablePred LossAct.Executes
  | .traffic act => inferInstanceAs (Decidable act.Executes)
  | .lose _ => inferInstanceAs (Decidable False)

def PublishesFenced (world : LossyTraffic) (action : Nat × LossAct) (fence : Option Fence) : Prop :=
  fence.isSome ∧ action.2.Executes ∧ Fence.Passes world.shared.shared.redis fence
  deriving Decidable

/-- The keys were lost since the rebuild's `read_epoch`, and the counter shows the value that it read again. -/
def CounterRecurs (world : LossyTraffic) (who : Nat) (fence : Option Fence) : Prop :=
  (world.parties who).since ≠ world.shared.losses ∧ ∀ f ∈ fence, readEpoch world.shared.shared.redis = f.expected
  deriving Decidable

/-- No fenced publish replaces the hash by a snapshot without a change that has completed; one that completed
    before the `read_epoch` is in every later snapshot. -/
def FenceHolds (world : LossyTraffic) (action : Nat × LossAct) : Prop :=
  ∀ exec ∈ (world.parties action.1).party.exec?, PublishesFenced world action exec.1 →
    ∀ n ∈ world.shared.shared.completed, n < exec.2.audit.length

/-- No rebuild for which the counter recurs publishes after a change that its snapshot lacks has completed. -/
def RecurrenceHarmless (world : LossyTraffic) (action : Nat × LossAct) : Prop :=
  ∀ exec ∈ (world.parties action.1).party.exec?, CounterRecurs world action.1 exec.1 →
    PublishesFenced world action exec.1 → ∀ n ∈ world.shared.shared.completed, n < exec.2.audit.length

def NeverRecurs (world : LossyTraffic) (action : Nat × LossAct) : Prop :=
  ∀ exec ∈ (world.parties action.1).party.exec?, ¬ CounterRecurs world action.1 exec.1

instance (world : LossyTraffic) (action : Nat × LossAct) : Decidable (FenceHolds world action) := by
  unfold FenceHolds
  infer_instance

instance (world : LossyTraffic) (action : Nat × LossAct) : Decidable (NeverRecurs world action) := by
  unfold NeverRecurs
  infer_instance

structure CounterMoves (before after : Redis) : Prop where
  grows : before.epochWrites ≤ after.epochWrites
  still : after.epochWrites = before.epochWrites → readEpoch after = readEpoch before

def RebuildPoint.Watches (redis : Redis) : RebuildPoint → Prop
  | .compare fence _ => fence.watched ≤ redis.epochWrites
  | .exec (some fence) _ =>
    fence.watched ≤ redis.epochWrites ∧ (fence.watched = redis.epochWrites → readEpoch redis = fence.expected)
  | _ => True

/-- What a client knows. A rebuild that the keys were lost under knows nothing of the counter any more. -/
structure LossyParty.Sound (state : LossyShared) (client : LossyParty) : Prop where
  since : client.since ≤ state.losses
  writer : ∀ change, client.party = .writer change → change.Sound state.shared
  reader : ∀ rebuild, client.party = .reader rebuild → client.since = state.losses →
    rebuild.point.Sound state.shared
  watches : ∀ rebuild, client.party = .reader rebuild → rebuild.point.Watches state.shared.redis

section Counter

variable {before after : Redis} {point : RebuildPoint}

theorem CounterMoves.of_evolves {before after : Shared} (evolves : Evolves before after) :
    CounterMoves before.redis after.redis := by
  rcases evolves.epoch with ⟨epoch, writes, _⟩ | ⟨_, writes, _⟩
  · exact ⟨Nat.le_of_eq writes.symm, fun _ => epoch⟩
  · exact ⟨by omega, fun same => by omega⟩

theorem CounterMoves.lose (redis : Redis) (restarted : Bool) : CounterMoves redis (redis.lose restarted) := by
  by_cases touched : restarted ∨ redis.epoch.isSome
  · have writes : (redis.lose restarted).epochWrites = redis.epochWrites + 1 := if_pos touched
    exact ⟨by omega, fun same => by omega⟩
  · have writes : (redis.lose restarted).epochWrites = redis.epochWrites := if_neg touched
    have unset : redis.epoch = none := by
      cases epoch : redis.epoch with
      | none => rfl
      | some n => exact absurd (.inr (by rw [epoch]; rfl)) touched
    exact ⟨Nat.le_of_eq writes.symm, fun _ => by rw [readEpoch, readEpoch, unset]; rfl⟩

theorem RebuildPoint.Watches.moves (watches : point.Watches before) (moves : CounterMoves before after) :
    point.Watches after := by
  have grows := moves.grows
  cases point with
  | compare fence snapshot => exact Nat.le_trans watches grows
  | exec fence snapshot =>
    cases fence with
    | none => trivial
    | some fence =>
      obtain ⟨watched, compared⟩ := watches
      refine ⟨Nat.le_trans watched grows, fun untouched => ?_⟩
      rw [moves.still (by omega)]
      exact compared (by omega)
  | _ => trivial

theorem Rebuild.next_watches {db : Database} {rebuild : Rebuild} (watches : rebuild.point.Watches before)
    (steps : rebuild.next db before = some (after, point)) : point.Watches after := by
  obtain ⟨caller, old⟩ := rebuild
  cases Rebuild.next_moves steps with
  | watches => exact Nat.le_refl _
  | compares matching => exact ⟨watches, fun _ => matching⟩
  | _ => trivial

theorem Rebuild.raises_watches {redis : Redis} {rebuild : Rebuild} (raises : rebuild.raises = some point) :
    point.Watches redis := by
  obtain ⟨caller, old⟩ := rebuild
  cases old <;> cases caller <;> cases raises <;> trivial

end Counter

section Losses

variable {state after : LossyShared} {client next : LossyParty}

theorem RebuildPoint.Sound.watches {shared : Shared} {point : RebuildPoint} (own : point.Sound shared) :
    point.Watches shared.redis := by
  cases point with
  | compare fence snapshot => exact own.2.2
  | exec fence snapshot =>
    cases fence with
    | none => trivial
    | some fence => exact own.2.2
  | _ => trivial

theorem LossyParty.Sound.party (own : client.Sound state) :
    client.party.Sound state.shared ∨ ∃ rebuild, client.party = .reader rebuild ∧ client.since ≠ state.losses := by
  cases held : client.party with
  | writer change => exact .inl (own.writer change held)
  | reader rebuild =>
    by_cases kept : client.since = state.losses
    · exact .inl (own.reader rebuild held kept)
    · exact .inr ⟨rebuild, rfl, kept⟩
  | idle => exact .inl trivial
  | refused => exact .inl trivial

theorem LossyParty.Sound.of_party (since : client.since ≤ state.losses) (own : client.party.Sound state.shared) :
    client.Sound state where
  since := since
  writer change held := by
    rw [held] at own
    exact own
  reader rebuild held _ := by
    rw [held] at own
    exact own
  watches rebuild held := by
    rw [held] at own
    exact RebuildPoint.Sound.watches own

theorem LossyParty.Sound.evolves {shared : Shared} (own : client.Sound state) (evolves : Evolves state.shared shared) :
    client.Sound { state with shared } where
  since := own.since
  writer change held := (own.writer change held).evolves evolves
  reader rebuild held kept := (own.reader rebuild held kept).evolves evolves
  watches rebuild held := (own.watches rebuild held).moves (.of_evolves evolves)

theorem LossyParty.Sound.lose (own : client.Sound state) (restarted : Bool) :
    client.Sound
      { shared := { state.shared with redis := state.shared.redis.lose restarted }, losses := state.losses + 1 } where
  since := Nat.le_succ_of_le own.since
  writer change held :=
    have sound := own.writer change held
    ⟨sound.entry, sound.announced, sound.written⟩
  reader _ _ kept := absurd kept (Nat.ne_of_lt (Nat.lt_succ_of_le own.since))
  watches rebuild held := (own.watches rebuild held).moves (.lose _ restarted)

structure ReaderKeeps (before after : Shared) (next : Party) : Prop where
  sound : after.Sound
  evolves : Evolves before after
  reader : ∃ rebuild : Rebuild, next = .reader rebuild ∧ rebuild.point.Watches after.redis

theorem trafficStep_reader {shared after : Shared} {rebuild : Rebuild} {next : Party} {act : Act}
    (sound : shared.Sound) (watches : rebuild.point.Watches shared.redis)
    (steps : trafficStep shared (.reader rebuild) act = some (after, next)) : ReaderKeeps shared after next := by
  have moves : ∀ {redis : Redis} {point : RebuildPoint},
      rebuild.next shared.db shared.redis = some (redis, point) → Evolves shared { shared with redis } := by
    intro redis point rebuilds
    rcases Rebuild.next_redis rebuilds with rfl | ⟨fence, snapshot, _, _, rfl⟩
    · exact .refl _
    · exact .quiet rfl rfl rfl rfl fun _ member => member
  cases trafficStep_moves steps with
  | reader rebuilds =>
    exact ⟨sound.withRedis _, moves rebuilds, _, rfl, Rebuild.next_watches watches rebuilds⟩
  | @raises _ _ _ _ executed raises nexts =>
    rcases Party.raises_cases raises with ⟨change, held, _⟩ | ⟨_, point, held, raised, rfl⟩
    · cases held
    · cases Party.next_moves nexts with
      | reader rebuilds =>
        cases executed with
        | true => exact ⟨sound.withRedis _, moves rebuilds, _, rfl, Rebuild.raises_watches raised⟩
        | false => exact ⟨sound, .refl _, _, rfl, Rebuild.raises_watches raised⟩
  | lapses =>
    have evolves : Evolves shared { shared with redis := shared.redis.delete } :=
      .quiet rfl rfl rfl rfl fun _ member => member
    exact ⟨sound.withRedis _, evolves, _, rfl, watches.moves (.of_evolves evolves)⟩

theorem Party.readsEpoch_sound {shared : Shared} {party : Party} (reads : party.readsEpoch) : party.Sound shared := by
  unfold Party.readsEpoch at reads
  split at reads
  · trivial
  · cases reads

theorem lossStep_sound {act : LossAct} (sound : state.shared.Sound) (own : client.Sound state)
    (steps : lossStep state client act = some (after, next)) :
    after.shared.Sound ∧ next.Sound after ∧ ∀ other : LossyParty, other.Sound state → other.Sound after := by
  cases act with
  | lose restarted =>
    cases steps
    exact ⟨sound.withRedis _, own.lose restarted, fun _ own => own.lose restarted⟩
  | traffic act =>
    obtain ⟨⟨shared, party⟩, moves, same⟩ := Option.map_eq_some_iff.mp steps
    cases same
    by_cases known : client.party.Sound state.shared
    · have keeps := trafficStep_keeps sound known moves
      have since : (if client.party.readsEpoch then state.losses else client.since) ≤ state.losses := by
        split
        · exact Nat.le_refl _
        · exact own.since
      exact ⟨keeps.sound, .of_party since keeps.own, fun _ own => own.evolves keeps.evolves⟩
    -- the keys were lost under a rebuild: of what it knew only the watch is left
    · obtain ⟨rebuild, held, lost⟩ := own.party.resolve_left known
      have elsewhere : ¬ client.party.readsEpoch := fun reads => known (Party.readsEpoch_sound reads)
      have watches := own.watches rebuild held
      rw [held] at moves
      obtain ⟨kept, evolves, again, rfl, watched⟩ := trafficStep_reader sound watches moves
      refine ⟨kept, ⟨?_, fun change held => (by cases held), ?_, ?_⟩, fun _ own => own.evolves evolves⟩
      · rw [if_neg elsewhere]
        exact own.since
      · intro _ _ back
        rw [if_neg elsewhere] at back
        exact absurd back lost
      · intro _ same
        cases same
        exact watched

end Losses

def LossyTraffic.Sound (world : LossyTraffic) : Prop :=
  world.shared.shared.Sound ∧ ∀ who, (world.parties who).Sound world.shared

theorem LossyTraffic.start_sound : LossyTraffic.start.Sound :=
  ⟨Traffic.start_sound.1, fun _ => .of_party (Nat.le_refl _) trivial⟩

theorem LossyTraffic.Sound.act {world next : LossyTraffic} {action : Nat × LossAct} (sound : world.Sound)
    (acts : World.act lossStep world action = some next) : next.Sound := by
  apply World.act_invariant (fun state : LossyShared => state.shared.Sound)
    (fun state client => client.Sound state) acts sound.2
  intro state client steps
  exact lossStep_sound sound.1 (sound.2 action.1) steps

/-- Without a loss since its `read_epoch` the comparison tells a rebuild whether a change has completed, and
    after one it tells at least what the counter shows. -/
theorem fenceHolds_of_recurrenceHarmless {world : LossyTraffic} {action : Nat × LossAct} (sound : world.Sound)
    (harmless : RecurrenceHarmless world action) : FenceHolds world action := by
  intro ⟨fence, snapshot⟩ exec publishes n completed
  obtain ⟨fenced, executes, passes⟩ := publishes
  obtain ⟨fence, rfl⟩ := Option.isSome_iff_exists.mp fenced
  by_cases kept : (world.parties action.1).since = world.shared.losses
  · have own := (sound.2 action.1).party.resolve_right fun ⟨_, _, lost⟩ => lost kept
    obtain ⟨fences, compared⟩ := own.exec exec
    exact fences.current (compared (passes fence rfl)) n
      (sound.1.written n (sound.1.completed n completed))
  · obtain ⟨caller, held⟩ := Party.exec?_eq_some exec
    have watches : RebuildPoint.Watches world.shared.shared.redis (.exec (some fence) snapshot) :=
      (sound.2 action.1).watches _ held
    have recurs : CounterRecurs world action.1 (some fence) := by
      refine ⟨kept, fun f same => ?_⟩
      cases same
      exact watches.2 (passes fence rfl)
    exact harmless _ exec recurs ⟨fenced, executes, passes⟩ n completed

/-- The fence holds in exactly the runs in which a recurring counter does no harm, and so in every run in which
    it never recurs. -/
theorem fenceHolds_iff_recurrenceHarmless (acts : List (Nat × LossAct)) (world : LossyTraffic) :
    (RunWhere (World.act lossStep) FenceHolds LossyTraffic.start acts world ↔
      RunWhere (World.act lossStep) RecurrenceHarmless LossyTraffic.start acts world) ∧
    (RunWhere (World.act lossStep) NeverRecurs LossyTraffic.start acts world →
      RunWhere (World.act lossStep) FenceHolds LossyTraffic.start acts world) := by
  have holds : RunWhere (World.act lossStep) RecurrenceHarmless LossyTraffic.start acts world →
      RunWhere (World.act lossStep) FenceHolds LossyTraffic.start acts world := by
    intro runs
    exact runs.weaken_of_invariant LossyTraffic.Sound (fun _ _ _ _ sound acts => LossyTraffic.Sound.act sound acts)
      (fun _ _ sound => fenceHolds_of_recurrenceHarmless sound) LossyTraffic.start_sound
  refine ⟨⟨fun runs => ?_, holds⟩, fun runs => holds ?_⟩
  · exact runs.weaken fun _ _ fence exec here _ publishes => fence exec here publishes
  · exact runs.weaken fun _ _ never exec here recurs => absurd recurs (never exec here)

def notified (who : Nat) (request : Request) (supply : Supply) : List (Nat × LossAct) :=
  (who, .traffic (.request request supply)) :: List.replicate 6 (who, .traffic .next)

/-- A flag is created and notified and Redis loses its keys before a rebuild begins, which then publishes. -/
def lostBefore : List (Nat × LossAct) :=
  notified 1 (.create checkoutCreate (str "ops")) firstSupply ++
    [(2, .lose true), (0, .traffic .getRuleset), (0, .traffic .next), (0, .traffic .next), (0, .traffic .next),
      (0, .traffic .next), (0, .traffic .next), (0, .traffic .next)]

theorem fenceHolds_iff_recurrenceHarmless_lostBefore :
    ∃ world, RunWhere (World.act lossStep) NeverRecurs LossyTraffic.start lostBefore world ∧
      world.shared.losses = 1 ∧ world.shared.shared.redis.hexists completeField ∧
      RunWhere (World.act lossStep) FenceHolds LossyTraffic.start lostBefore world := by
  obtain ⟨world, runs, lost, published⟩ := runWhere_reaches (World.act lossStep) NeverRecurs LossyTraffic.start
    lostBefore (fun world => world.shared.losses = 1 ∧ world.shared.shared.redis.hexists completeField)
    (by decide +kernel)
  exact ⟨world, runs, lost, published, (fenceHolds_iff_recurrenceHarmless lostBefore world).2 runs⟩

/-- A rebuild has read an unset counter and an empty database; a flag is created and notified in full; Redis
    loses its keys, the counter is unset again, and the rebuild publishes. -/
def lostUnder : List (Nat × LossAct) :=
  [(0, .traffic .getRuleset), (0, .traffic .next), (0, .traffic .next), (0, .traffic .next)] ++
    notified 1 (.create checkoutCreate (str "ops")) firstSupply ++
    [(2, .lose true), (0, .traffic .next), (0, .traffic .next), (0, .traffic .next)]

theorem lostUnder_outdone :
    (∃ world, run (World.act lossStep) LossyTraffic.start lostUnder = some world ∧
      world.shared.shared.redis.hexists completeField ∧ world.shared.shared.redis.hget (str "checkout") = none ∧
      (getFlag world.shared.shared.db (str "checkout")).isSome) ∧
    ∀ world, ¬ RunWhere (World.act lossStep) FenceHolds LossyTraffic.start lostUnder world :=
  ⟨run_reaches _ _ _ _ (by decide +kernel), not_runWhere (by decide +kernel)⟩

end Ripcord
