import Ripcord.Cache
import Ripcord.Foundation.Transition
import Ripcord.Requests

namespace Ripcord

open Foundation

/-- What a request does next, its transaction committed: the service's re-read, then the commands of
    `notify_flag_change`. -/
inductive ChangePoint
  | reload (held : Flag)
  | incr (payload : Option Str)
  | field (payload : Option Str)
  | ttl
  | expire
  | publish
  | finished
  | abandoned
  /-- `get_flag` returned `None`, which the route takes for a flag. -/
  | crashed

/-- A committed change; `entry` is the position of its entry in the audit log. -/
structure Change where
  key : Str
  action : Action
  entry : Nat
  point : ChangePoint

def Request.change (request : Request) (entry : Nat) (held : Option Flag) : Change :=
  { key := request.key, action := request.action, entry
    point := match held with
      | some held => .reload held
      | none => .incr none }

/-- The database and Redis, with the changes whose `INCR`, whose `HSET` or `HDEL` and whose last command
    have run, each by its position in the audit log. -/
structure Shared where
  db : Database
  redis : Redis
  announced : List Nat
  written : List Nat
  completed : List Nat

def Change.next (shared : Shared) (change : Change) : Option (Shared × ChangePoint) :=
  match change.point with
  | .reload held =>
    match getFlagHeld shared.db change.action held change.key with
    | some flag => some (shared, .incr (some (flagPayload flag)))
    | none => some (shared, .crashed)
  | .incr payload =>
    some ({ shared with redis := shared.redis.incr, announced := change.entry :: shared.announced },
      .field payload)
  | .field payload =>
    let written := change.entry :: shared.written
    match change.action, payload with
    | .deleted, _ => some ({ shared with redis := shared.redis.hdel change.key, written }, .publish)
    | _, some payload => some ({ shared with redis := shared.redis.hset change.key payload, written }, .ttl)
    | _, none => some ({ shared with redis := shared.redis.delete, written }, .publish)
  | .ttl => some (shared, if shared.redis.ttl < 0 then .expire else .publish)
  | .expire => some ({ shared with redis := shared.redis.expire rulesetTtlSeconds }, .publish)
  | .publish =>
    some ({ shared with
      redis := shared.redis.publish change.key change.action
      completed := change.entry :: shared.completed }, .finished)
  | .finished | .abandoned | .crashed => none

def ChangePoint.isCommand : ChangePoint → Bool
  | .incr _ | .field _ | .ttl | .expire | .publish => true
  | _ => false

inductive Caller
  | evaluateFlagCached
  | getRuleset

/-- The epoch a publish expects, and the count of its writes at the `WATCH`. -/
structure Fence where
  expected : Nat
  watched : Nat

/-- What a reader does next. A snapshot is the database as the query saw it, no commit coming between its three
    SELECTs; `answered` carries what `write_ruleset` returned, if it was called and returned. -/
inductive RebuildPoint
  | hget (flagKey : Str)
  | hexists (payload : Option Str)
  | hgetall
  | epoch
  | query (expectedEpoch : Option Nat)
  | watch (expected : Nat) (snapshot : Database)
  | compare (fence : Fence) (snapshot : Database)
  | exec (fence : Option Fence) (snapshot : Database)
  | answered (published : Option Bool)
  | failed

structure Rebuild where
  caller : Caller
  point : RebuildPoint

/-- An `EXEC` goes through unless the watched counter was written since its `WATCH`. -/
def Fence.Passes (redis : Redis) (fence : Option Fence) : Prop := ∀ f ∈ fence, f.watched = redis.epochWrites
  deriving Decidable

def Rebuild.next (db : Database) (redis : Redis) (rebuild : Rebuild) : Option (Redis × RebuildPoint) :=
  match rebuild.point with
  | .hget flagKey => some (redis, .hexists (redis.hget flagKey))
  | .hexists payload =>
    match cachedFlag payload (redis.hexists completeField) with
    | .cold => some (redis, .epoch)
    | _ => some (redis, .answered none)
  | .hgetall => some (redis, if redis.hexists completeField then .answered none else .epoch)
  | .epoch => some (redis, .query (some (readEpoch redis)))
  | .query none => some (redis, .exec none db)
  | .query (some expected) => some (redis, .watch expected db)
  | .watch expected snapshot => some (redis, .compare ⟨expected, redis.epochWrites⟩ snapshot)
  | .compare fence snapshot =>
    some (redis, if readEpoch redis ≠ fence.expected then .answered (some false) else .exec fence snapshot)
  | .exec fence snapshot =>
    if Fence.Passes redis fence then
      some (redis.replaceRuleset (buildRulesetMapping snapshot), .answered (some true))
    else some (redis, .answered (some false))
  | .answered _ | .failed => none

/-- Where a raising Redis command leaves a reader: `evaluate_flag_cached` goes on without the cache,
    `get_ruleset` fails. -/
def Rebuild.raises (rebuild : Rebuild) : Option RebuildPoint :=
  match rebuild.point, rebuild.caller with
  | .hget _, _ | .hexists _, _ => some .epoch
  | .hgetall, _ => some .failed
  | .epoch, .evaluateFlagCached => some (.query none)
  | .watch .., .evaluateFlagCached | .compare .., .evaluateFlagCached | .exec .., .evaluateFlagCached =>
    some (.answered none)
  | .epoch, .getRuleset | .watch .., .getRuleset | .compare .., .getRuleset | .exec .., .getRuleset =>
    some .failed
  | .query _, _ | .answered _, _ | .failed, _ => none

inductive Party
  | idle
  | refused
  | writer (change : Change)
  | reader (rebuild : Rebuild)

/-- A raising command may have been executed all the same. -/
inductive Act
  | request (request : Request) (supply : Supply)
  | evaluateFlagCached (flagKey : Str)
  | getRuleset
  | next
  | fault (executed : Bool)
  | lapse

def Act.NoFault : Act → Prop
  | .fault _ => False
  | _ => True

instance : DecidablePred Act.NoFault
  | .fault _ => inferInstanceAs (Decidable False)
  | .request .. | .evaluateFlagCached _ | .getRuleset | .next | .lapse => inferInstanceAs (Decidable True)

def Party.next (shared : Shared) : Party → Option (Shared × Party)
  | .writer change =>
    (change.next shared).map fun (after, point) => (after, .writer { change with point })
  | .reader rebuild =>
    (rebuild.next shared.db shared.redis).map fun (redis, point) =>
      ({ shared with redis }, .reader { rebuild with point })
  | _ => none

def Party.raises : Party → Option Party
  | .writer change => if change.point.isCommand then some (.writer { change with point := .abandoned }) else none
  | .reader rebuild => rebuild.raises.map fun point => .reader { rebuild with point }
  | _ => none

def trafficStep (shared : Shared) (party : Party) : Act → Option (Shared × Party)
  | .request request supply =>
    match party with
    | .idle =>
      match request.commit shared.db supply with
      | some (db, held) => some ({ shared with db }, .writer (request.change shared.db.audit.length held))
      | none => some (shared, .refused)
    | _ => none
  | .evaluateFlagCached flagKey =>
    match party with
    | .idle => some (shared, .reader ⟨.evaluateFlagCached, .hget flagKey⟩)
    | _ => none
  | .getRuleset =>
    match party with
    | .idle => some (shared, .reader ⟨.getRuleset, .hgetall⟩)
    | _ => none
  | .next => party.next shared
  | .fault executed =>
    match party.raises, party.next shared with
    | some raised, some (after, _) => some (if executed then after else shared, raised)
    | _, _ => none
  | .lapse =>
    match shared.redis.expiry with
    | some _ => some ({ shared with redis := shared.redis.delete }, party)
    | none => none

inductive Moves (shared : Shared) : Party → Act → Shared → Party → Prop
  | commits {request : Request} {supply : Supply} {db : Database} {held : Option Flag}
    (commits : request.commit shared.db supply = some (db, held)) :
    Moves shared .idle (.request request supply) { shared with db }
      (.writer (request.change shared.db.audit.length held))
  | refuses {request : Request} {supply : Supply} (refused : request.commit shared.db supply = none) :
    Moves shared .idle (.request request supply) shared .refused
  | evaluates {flagKey : Str} :
    Moves shared .idle (.evaluateFlagCached flagKey) shared (.reader ⟨.evaluateFlagCached, .hget flagKey⟩)
  | fetches : Moves shared .idle .getRuleset shared (.reader ⟨.getRuleset, .hgetall⟩)
  | writer {change : Change} {after : Shared} {point : ChangePoint}
    (changes : change.next shared = some (after, point)) :
    Moves shared (.writer change) .next after (.writer { change with point })
  | reader {rebuild : Rebuild} {redis : Redis} {point : RebuildPoint}
    (rebuilds : rebuild.next shared.db shared.redis = some (redis, point)) :
    Moves shared (.reader rebuild) .next { shared with redis } (.reader { rebuild with point })
  | raises {party raised other : Party} {after : Shared} {executed : Bool} (raises : party.raises = some raised)
    (nexts : party.next shared = some (after, other)) :
    Moves shared party (.fault executed) (if executed then after else shared) raised
  | lapses {party : Party} (expires : shared.redis.expiry ≠ none) :
    Moves shared party .lapse { shared with redis := shared.redis.delete } party

inductive ChangeMoves (shared : Shared) (key : Str) (action : Action) (entry : Nat) :
    ChangePoint → Shared → ChangePoint → Prop
  | reloads {held flag : Flag} (found : getFlagHeld shared.db action held key = some flag) :
    ChangeMoves shared key action entry (.reload held) shared (.incr (some (flagPayload flag)))
  | crashes {held : Flag} (lost : getFlagHeld shared.db action held key = none) :
    ChangeMoves shared key action entry (.reload held) shared .crashed
  | increments {payload : Option Str} :
    ChangeMoves shared key action entry (.incr payload)
      { shared with redis := shared.redis.incr, announced := entry :: shared.announced } (.field payload)
  | removes {payload : Option Str} (deleted : action = .deleted) :
    ChangeMoves shared key action entry (.field payload)
      { shared with redis := shared.redis.hdel key, written := entry :: shared.written } .publish
  | sets {payload : Str} (kept : action ≠ .deleted) :
    ChangeMoves shared key action entry (.field (some payload))
      { shared with redis := shared.redis.hset key payload, written := entry :: shared.written } .ttl
  | drops (kept : action ≠ .deleted) :
    ChangeMoves shared key action entry (.field none)
      { shared with redis := shared.redis.delete, written := entry :: shared.written } .publish
  | unlimited (unlimited : shared.redis.ttl < 0) : ChangeMoves shared key action entry .ttl shared .expire
  | limited (limited : 0 ≤ shared.redis.ttl) : ChangeMoves shared key action entry .ttl shared .publish
  | expires :
    ChangeMoves shared key action entry .expire { shared with redis := shared.redis.expire rulesetTtlSeconds } .publish
  | publishes :
    ChangeMoves shared key action entry .publish
      { shared with redis := shared.redis.publish key action, completed := entry :: shared.completed } .finished

theorem Change.next_moves {shared after : Shared} {change : Change} {point : ChangePoint}
    (steps : change.next shared = some (after, point)) :
    ChangeMoves shared change.key change.action change.entry change.point after point := by
  obtain ⟨key, action, entry, old⟩ := change
  cases old with
  | reload held =>
    simp only [Change.next] at steps
    split at steps <;> cases steps
    · rename_i flag found
      exact .reloads found
    · rename_i lost
      exact .crashes lost
  | incr payload =>
    cases steps
    exact .increments
  | field payload =>
    simp only [Change.next] at steps
    split at steps <;> cases steps
    · exact .removes rfl
    · rename_i kept
      exact .sets kept
    · rename_i kept
      exact .drops kept
  | ttl =>
    cases steps
    split
    · rename_i unlimited
      exact .unlimited unlimited
    · rename_i limited
      exact .limited (Int.not_lt.mp limited)
  | expire =>
    cases steps
    exact .expires
  | publish =>
    cases steps
    exact .publishes
  | finished => cases steps
  | abandoned => cases steps
  | crashed => cases steps

inductive RebuildMoves (db : Database) (redis : Redis) : RebuildPoint → Redis → RebuildPoint → Prop
  | gets {flagKey : Str} : RebuildMoves db redis (.hget flagKey) redis (.hexists (redis.hget flagKey))
  | serves {payload : Option Str} (warm : cachedFlag payload (redis.hexists completeField) ≠ .cold) :
    RebuildMoves db redis (.hexists payload) redis (.answered none)
  | misses {payload : Option Str} (cold : cachedFlag payload (redis.hexists completeField) = .cold) :
    RebuildMoves db redis (.hexists payload) redis .epoch
  | servesAll (complete : redis.hexists completeField) : RebuildMoves db redis .hgetall redis (.answered none)
  | missesAll (incomplete : redis.hexists completeField = false) : RebuildMoves db redis .hgetall redis .epoch
  | epoch : RebuildMoves db redis .epoch redis (.query (some (readEpoch redis)))
  | unfenced : RebuildMoves db redis (.query none) redis (.exec none db)
  | fenced {expected : Nat} : RebuildMoves db redis (.query (some expected)) redis (.watch expected db)
  | watches {expected : Nat} {snapshot : Database} :
    RebuildMoves db redis (.watch expected snapshot) redis (.compare ⟨expected, redis.epochWrites⟩ snapshot)
  | outdated {fence : Fence} {snapshot : Database} (moved : readEpoch redis ≠ fence.expected) :
    RebuildMoves db redis (.compare fence snapshot) redis (.answered (some false))
  | compares {fence : Fence} {snapshot : Database} (matching : readEpoch redis = fence.expected) :
    RebuildMoves db redis (.compare fence snapshot) redis (.exec fence snapshot)
  | publishes {fence : Option Fence} {snapshot : Database} (passes : Fence.Passes redis fence) :
    RebuildMoves db redis (.exec fence snapshot) (redis.replaceRuleset (buildRulesetMapping snapshot))
      (.answered (some true))
  | aborts {fence : Option Fence} {snapshot : Database} (broken : ¬ Fence.Passes redis fence) :
    RebuildMoves db redis (.exec fence snapshot) redis (.answered (some false))

theorem Rebuild.next_moves {db : Database} {redis after : Redis} {rebuild : Rebuild} {point : RebuildPoint}
    (steps : rebuild.next db redis = some (after, point)) : RebuildMoves db redis rebuild.point after point := by
  obtain ⟨caller, old⟩ := rebuild
  cases old with
  | hget flagKey =>
    cases steps
    exact .gets
  | hexists payload =>
    simp only [Rebuild.next] at steps
    split at steps <;> cases steps
    · rename_i cold
      exact .misses cold
    · rename_i warm
      exact .serves warm
  | hgetall =>
    cases steps
    split
    · rename_i complete
      exact .servesAll complete
    · rename_i incomplete
      exact .missesAll (Bool.eq_false_iff.mpr incomplete)
  | epoch =>
    cases steps
    exact .epoch
  | query expected =>
    cases expected <;> cases steps
    · exact .unfenced
    · exact .fenced
  | watch expected snapshot =>
    cases steps
    exact .watches
  | compare fence snapshot =>
    cases steps
    split
    · rename_i moved
      exact .outdated moved
    · rename_i matching
      exact .compares (not_not.mp matching)
  | exec fence snapshot =>
    simp only [Rebuild.next] at steps
    split at steps <;> cases steps
    · rename_i passes
      exact .publishes passes
    · rename_i broken
      exact .aborts broken
  | answered published => cases steps
  | failed => cases steps

theorem Party.next_moves {shared after : Shared} {party next : Party}
    (steps : party.next shared = some (after, next)) : Moves shared party .next after next := by
  cases party with
  | writer change =>
    obtain ⟨⟨after, point⟩, changes, same⟩ := Option.map_eq_some_iff.mp steps
    cases same
    exact .writer changes
  | reader rebuild =>
    obtain ⟨⟨redis, point⟩, rebuilds, same⟩ := Option.map_eq_some_iff.mp steps
    cases same
    exact .reader rebuilds
  | idle => cases steps
  | refused => cases steps

theorem trafficStep_moves {shared after : Shared} {party next : Party} {act : Act}
    (steps : trafficStep shared party act = some (after, next)) : Moves shared party act after next := by
  cases act with
  | request request supply =>
    cases party with
    | idle =>
      simp only [trafficStep] at steps
      split at steps <;> cases steps
      · rename_i db held commits
        exact .commits commits
      · rename_i refused
        exact .refuses refused
    | _ => cases steps
  | evaluateFlagCached flagKey =>
    cases party with
    | idle =>
      cases steps
      exact .evaluates
    | _ => cases steps
  | getRuleset =>
    cases party with
    | idle =>
      cases steps
      exact .fetches
    | _ => cases steps
  | next => exact Party.next_moves steps
  | fault executed =>
    simp only [trafficStep] at steps
    split at steps
    · rename_i raised after other raises nexts
      cases steps
      exact .raises raises nexts
    · cases steps
  | lapse =>
    simp only [trafficStep] at steps
    split at steps <;> cases steps
    rename_i deadline expires
    exact .lapses (by simp [expires])

theorem Party.raises_cases {party raised : Party} (raises : party.raises = some raised) :
    (∃ change, party = .writer change ∧ raised = .writer { change with point := .abandoned }) ∨
      ∃ rebuild point, party = .reader rebuild ∧ rebuild.raises = some point ∧
        raised = .reader { rebuild with point } := by
  cases party with
  | writer change =>
    simp only [Party.raises] at raises
    split at raises <;> cases raises
    exact .inl ⟨change, rfl, rfl⟩
  | reader rebuild =>
    obtain ⟨point, here, rfl⟩ := Option.map_eq_some_iff.mp raises
    exact .inr ⟨rebuild, point, rfl, here, rfl⟩
  | idle => cases raises
  | refused => cases raises

abbrev Traffic := World Shared Party

def Traffic.start : Traffic := ⟨⟨.empty, .empty, [], [], []⟩, fun _ => .idle⟩

end Ripcord
