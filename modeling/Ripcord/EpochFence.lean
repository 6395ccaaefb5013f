import Ripcord.CacheTraffic

namespace Ripcord

open Foundation

def KeyAt (audit : List AuditLog) (n : Nat) (key : Str) : Prop := audit[n]?.map AuditLog.flagKey = some key

theorem KeyAt.lt {audit : List AuditLog} {n : Nat} {key : Str} (here : KeyAt audit n key) : n < audit.length := by
  obtain ⟨entry, found, _⟩ := Option.map_eq_some_iff.mp here
  exact (List.getElem?_eq_some_iff.mp found).1

theorem KeyAt.append {audit : List AuditLog} {n : Nat} {key : Str} (here : KeyAt audit n key)
    (more : List AuditLog) : KeyAt (audit ++ more) n key := by
  have bound := here.lt
  unfold KeyAt at here ⊢
  rwa [List.getElem?_append_left bound]

theorem keyAt_append_singleton {audit : List AuditLog} {entry : AuditLog} {n : Nat} {key : Str} :
    KeyAt (audit ++ [entry]) n key ↔ KeyAt audit n key ∨ n = audit.length ∧ entry.flagKey = key := by
  unfold KeyAt
  rcases Nat.lt_trichotomy n audit.length with less | same | more
  · simp [List.getElem?_append_left less, Nat.ne_of_lt less]
  · subst same
    simp
  · have beyond : audit.length + 1 ≤ n := more
    simp [List.getElem?_eq_none (Nat.le_of_lt more),
      List.getElem?_eq_none (l := audit ++ [entry]) (by simpa using beyond), Nat.ne_of_gt more]

inductive DatabaseEvolves (before after : Database) : Prop
  | same (unchanged : after = before)
  | commit (entry : AuditLog) (audit : after.audit = before.audit ++ [entry])
      (others : ∀ key, key ≠ entry.flagKey → after.row? key = before.row? key)

theorem DatabaseEvolves.audit_grows {before after : Database} (evolves : DatabaseEvolves before after) :
    before.audit <+: after.audit := by
  cases evolves with
  | same unchanged => exact unchanged ▸ List.prefix_refl _
  | commit entry audit => exact ⟨[entry], audit.symm⟩

/-- What one step of any party may do to what the others rely on. -/
structure Evolves (before after : Shared) : Prop where
  database : DatabaseEvolves before.db after.db
  epoch :
    (readEpoch after.redis = readEpoch before.redis ∧ after.redis.epochWrites = before.redis.epochWrites ∧
        after.announced = before.announced) ∨
      readEpoch after.redis = readEpoch before.redis + 1 ∧
        after.redis.epochWrites = before.redis.epochWrites + 1 ∧
        ∃ n < before.db.audit.length, after.announced = n :: before.announced
  written : ∀ n ∈ before.written, n ∈ after.written

theorem Evolves.quiet {before after : Shared} (database : after.db = before.db)
    (epoch : readEpoch after.redis = readEpoch before.redis)
    (epochWrites : after.redis.epochWrites = before.redis.epochWrites)
    (announced : after.announced = before.announced) (written : ∀ n ∈ before.written, n ∈ after.written) :
    Evolves before after :=
  ⟨.same database, .inl ⟨epoch, epochWrites, announced⟩, written⟩

theorem Evolves.refl (shared : Shared) : Evolves shared shared := .quiet rfl rfl rfl rfl fun _ member => member

theorem Evolves.announced {before after : Shared} (evolves : Evolves before after) {n : Nat}
    (member : n ∈ before.announced) : n ∈ after.announced := by
  rcases evolves.epoch with ⟨_, _, same⟩ | ⟨_, _, m, _, pushed⟩
  · rwa [same]
  · rw [pushed]
    exact List.mem_cons_of_mem _ member

/-- A database that a query has read: what it lacks are later commits. -/
structure Past (db snapshot : Database) : Prop where
  audit : snapshot.audit <+: db.audit
  rows : ∀ key, (∀ n, snapshot.audit.length ≤ n → ¬ KeyAt db.audit n key) →
    snapshot.row? key = db.row? key

theorem Past.refl (db : Database) : Past db db := ⟨List.prefix_refl _, fun _ _ => rfl⟩

theorem Past.evolves {db after snapshot : Database} (past : Past db snapshot)
    (evolves : DatabaseEvolves db after) : Past after snapshot := by
  refine ⟨past.audit.trans evolves.audit_grows, ?_⟩
  intro key untouched
  cases evolves with
  | same unchanged =>
    subst unchanged
    exact past.rows key untouched
  | commit entry audit others =>
    rw [audit] at untouched
    have before : ∀ n, snapshot.audit.length ≤ n → ¬ KeyAt db.audit n key :=
      fun n late here => untouched n late (here.append _)
    have different : key ≠ entry.flagKey := by
      intro same
      exact untouched db.audit.length past.audit.length_le (keyAt_append_singleton.mpr (.inr ⟨rfl, same.symm⟩))
    rw [past.rows key before, others key different]

/-- The fence of a snapshot: unless the counter has moved past what was expected, no announced change is
    missing from it. -/
structure Fenced (shared : Shared) (expected : Nat) (snapshot : Database) : Prop where
  reached : expected ≤ readEpoch shared.redis
  current : readEpoch shared.redis = expected → ∀ n ∈ shared.announced, n < snapshot.audit.length

theorem Fenced.evolves {shared after : Shared} {expected : Nat} {snapshot : Database}
    (fenced : Fenced shared expected snapshot) (evolves : Evolves shared after) :
    Fenced after expected snapshot := by
  have reached := fenced.reached
  rcases evolves.epoch with ⟨epoch, _, announced⟩ | ⟨epoch, _, _⟩
  · refine ⟨by omega, fun same => ?_⟩
    rw [announced]
    exact fenced.current (by omega)
  · exact ⟨by omega, fun same => by omega⟩

structure Shared.Sound (shared : Shared) : Prop where
  announced : ∀ n ∈ shared.announced, n < shared.db.audit.length
  written : ∀ n ∈ shared.written, n ∈ shared.announced
  completed : ∀ n ∈ shared.completed, n ∈ shared.written

structure Change.Sound (shared : Shared) (change : Change) : Prop where
  entry : change.entry < shared.db.audit.length
  announced : ∀ payload, change.point = .field payload → change.entry ∈ shared.announced
  written : change.point = .ttl ∨ change.point = .expire ∨ change.point = .publish →
    change.entry ∈ shared.written

def RebuildPoint.Sound (shared : Shared) : RebuildPoint → Prop
  | .query (some expected) => expected ≤ readEpoch shared.redis
  | .watch expected snapshot => Past shared.db snapshot ∧ Fenced shared expected snapshot
  | .compare fence snapshot =>
    Past shared.db snapshot ∧ Fenced shared fence.expected snapshot ∧
      fence.watched ≤ shared.redis.epochWrites
  | .exec (some fence) snapshot =>
    Past shared.db snapshot ∧ Fenced shared fence.expected snapshot ∧
      fence.watched ≤ shared.redis.epochWrites ∧
      (fence.watched = shared.redis.epochWrites → readEpoch shared.redis = fence.expected)
  | .exec none snapshot => Past shared.db snapshot
  | _ => True

def Party.Sound (shared : Shared) : Party → Prop
  | .writer change => change.Sound shared
  | .reader rebuild => rebuild.point.Sound shared
  | _ => True

theorem Change.Sound.evolves {shared after : Shared} {change : Change} (sound : change.Sound shared)
    (evolves : Evolves shared after) : change.Sound after where
  entry := Nat.lt_of_lt_of_le sound.entry evolves.database.audit_grows.length_le
  announced payload here := evolves.announced (sound.announced payload here)
  written here := evolves.written _ (sound.written here)

theorem RebuildPoint.Sound.evolves {shared after : Shared} {point : RebuildPoint} (sound : point.Sound shared)
    (evolves : Evolves shared after) : point.Sound after := by
  have epoch : readEpoch shared.redis ≤ readEpoch after.redis := by
    rcases evolves.epoch with ⟨same, _⟩ | ⟨more, _⟩ <;> omega
  cases point with
  | query expected =>
    cases expected with
    | none => trivial
    | some expected => exact Nat.le_trans sound epoch
  | watch expected snapshot => exact ⟨sound.1.evolves evolves.database, sound.2.evolves evolves⟩
  | compare fence snapshot =>
    obtain ⟨past, fenced, watched⟩ := sound
    refine ⟨past.evolves evolves.database, fenced.evolves evolves, ?_⟩
    rcases evolves.epoch with ⟨_, same, _⟩ | ⟨_, more, _⟩ <;> omega
  | exec fence snapshot =>
    cases fence with
    | none => exact Past.evolves sound evolves.database
    | some fence =>
      obtain ⟨past, fenced, watched, compared⟩ := sound
      refine ⟨past.evolves evolves.database, fenced.evolves evolves, ?_⟩
      -- a counter written since the `WATCH` no longer matches, so the comparison need not hold then
      rcases evolves.epoch with ⟨epoch, same, _⟩ | ⟨_, more, _⟩
      · exact ⟨by omega, fun matching => by rw [epoch]; exact compared (by omega)⟩
      · exact ⟨by omega, fun matching => by omega⟩
  | _ => trivial

theorem Party.Sound.evolves {shared after : Shared} {party : Party} (sound : party.Sound shared)
    (evolves : Evolves shared after) : party.Sound after := by
  cases party with
  | writer change => exact Change.Sound.evolves sound evolves
  | reader rebuild => exact RebuildPoint.Sound.evolves sound evolves
  | _ => trivial

/-- What an acting party owes: the others can go on relying, and its own knowledge stays true. -/
structure Keeps (before after : Shared) (party : Party) : Prop where
  sound : after.Sound
  evolves : Evolves before after
  own : party.Sound after

theorem Change.next_keeps {shared after : Shared} {change : Change} {point : ChangePoint}
    (sound : shared.Sound) (own : change.Sound shared) (steps : change.next shared = some (after, point)) :
    Keeps shared after (.writer { change with point }) := by
  obtain ⟨key, action, entry, old⟩ := change
  have bound := own.entry
  cases Change.next_moves steps with
  | reloads | crashes => exact ⟨sound, .refl _, bound, by simp, by simp⟩
  | increments =>
    have announced : ∀ n ∈ entry :: shared.announced, n < shared.db.audit.length :=
      List.forall_mem_cons.mpr ⟨bound, sound.announced⟩
    have written : ∀ n ∈ shared.written, n ∈ entry :: shared.announced :=
      fun n member => List.mem_cons_of_mem _ (sound.written n member)
    have counted : readEpoch shared.redis.incr = readEpoch shared.redis + 1 := by simp [readEpoch, Redis.incr]
    have evolves : Evolves shared { shared with redis := shared.redis.incr, announced := entry :: shared.announced } :=
      ⟨.same rfl, .inr ⟨counted, rfl, entry, bound, rfl⟩, fun _ member => member⟩
    exact ⟨⟨announced, written, sound.completed⟩, evolves, bound, fun _ _ => List.mem_cons_self, by simp⟩
  | removes | sets | drops =>
    have announced := own.announced _ rfl
    have written : ∀ n ∈ entry :: shared.written, n ∈ shared.announced :=
      List.forall_mem_cons.mpr ⟨announced, sound.written⟩
    have completed : ∀ n ∈ shared.completed, n ∈ entry :: shared.written :=
      fun n member => List.mem_cons_of_mem _ (sound.completed n member)
    have kept : ∀ n ∈ shared.written, n ∈ entry :: shared.written := fun _ member => List.mem_cons_of_mem _ member
    exact ⟨⟨sound.announced, written, completed⟩, .quiet rfl rfl rfl rfl kept, bound, by simp, by simp⟩
  | unlimited | limited =>
    have written := own.written (.inl rfl)
    exact ⟨sound, .refl _, bound, by simp, fun _ => written⟩
  | expires =>
    have written := own.written (.inr (.inl rfl))
    have counter : readEpoch (shared.redis.expire rulesetTtlSeconds) = readEpoch shared.redis ∧
        (shared.redis.expire rulesetTtlSeconds).epochWrites = shared.redis.epochWrites := by
      unfold Redis.expire
      split <;> exact ⟨rfl, rfl⟩
    have evolves : Evolves shared { shared with redis := shared.redis.expire rulesetTtlSeconds } :=
      .quiet rfl counter.1 counter.2 rfl fun _ member => member
    exact ⟨⟨sound.announced, sound.written, sound.completed⟩, evolves, bound, by simp, fun _ => written⟩
  | publishes =>
    have written := own.written (.inr (.inr rfl))
    have completed : ∀ n ∈ entry :: shared.completed, n ∈ shared.written :=
      List.forall_mem_cons.mpr ⟨written, sound.completed⟩
    exact ⟨⟨sound.announced, sound.written, completed⟩, .quiet rfl rfl rfl rfl fun _ member => member, bound,
      by simp, by simp⟩

theorem Shared.Sound.withRedis {shared : Shared} (sound : shared.Sound) (redis : Redis) :
    Shared.Sound { shared with redis } := ⟨sound.announced, sound.written, sound.completed⟩

theorem Rebuild.next_redis {db : Database} {redis after : Redis} {rebuild : Rebuild} {point : RebuildPoint}
    (steps : rebuild.next db redis = some (after, point)) :
    after = redis ∨ ∃ fence snapshot, rebuild.point = .exec fence snapshot ∧ Fence.Passes redis fence ∧
      after = redis.replaceRuleset (buildRulesetMapping snapshot) := by
  obtain ⟨caller, old⟩ := rebuild
  cases Rebuild.next_moves steps with
  | publishes passes => exact .inr ⟨_, _, rfl, passes, rfl⟩
  | _ => exact .inl rfl

theorem Rebuild.next_keeps {shared : Shared} {rebuild : Rebuild} {redis : Redis} {point : RebuildPoint}
    (sound : shared.Sound) (own : rebuild.point.Sound shared)
    (steps : rebuild.next shared.db shared.redis = some (redis, point)) :
    Keeps shared { shared with redis } (.reader { rebuild with point }) := by
  obtain ⟨caller, old⟩ := rebuild
  cases Rebuild.next_moves steps with
  | epoch => exact ⟨sound, .refl _, Nat.le_refl _⟩
  | unfenced => exact ⟨sound, .refl _, Past.refl _⟩
  | fenced => exact ⟨sound, .refl _, Past.refl _, own, fun _ => sound.announced⟩
  | watches => exact ⟨sound, .refl _, own.1, own.2, Nat.le_refl _⟩
  | compares matching => exact ⟨sound, .refl _, own.1, own.2.1, own.2.2, fun _ => matching⟩
  | publishes => exact ⟨sound.withRedis _, .quiet rfl rfl rfl rfl fun _ member => member, trivial⟩
  | _ => exact ⟨sound, .refl _, trivial⟩

theorem Party.next_keeps {shared after : Shared} {party next : Party} (sound : shared.Sound)
    (own : party.Sound shared) (steps : party.next shared = some (after, next)) : Keeps shared after next := by
  cases Party.next_moves steps with
  | writer changes => exact Change.next_keeps sound own changes
  | reader rebuilds => exact Rebuild.next_keeps sound own rebuilds

theorem Party.raises_sound {shared : Shared} {party raised : Party} (own : party.Sound shared)
    (raises : party.raises = some raised) : raised.Sound shared := by
  rcases Party.raises_cases raises with ⟨change, rfl, rfl⟩ | ⟨⟨caller, old⟩, point, rfl, raises, rfl⟩
  · exact ⟨own.entry, by simp, by simp⟩
  · cases old <;> cases caller <;> cases raises <;> trivial

theorem trafficStep_keeps {shared after : Shared} {party next : Party} {act : Act} (sound : shared.Sound)
    (own : party.Sound shared) (steps : trafficStep shared party act = some (after, next)) :
    Keeps shared after next := by
  cases trafficStep_moves steps with
  | @commits request supply db held commits =>
    obtain ⟨entry, audit, flagKey, _⟩ := (Request.commit_ok commits).audit
    have others := (Request.commit_ok commits).others
    have grows : shared.db.audit.length < db.audit.length := by simp [audit]
    have announced : ∀ n ∈ shared.announced, n < db.audit.length :=
      fun n member => Nat.lt_trans (sound.announced n member) grows
    have evolves : Evolves shared { shared with db } :=
      ⟨.commit entry audit (flagKey ▸ others), .inl ⟨rfl, rfl, rfl⟩, fun _ member => member⟩
    refine ⟨⟨announced, sound.written, sound.completed⟩, evolves, grows, ?_, ?_⟩
    · cases held <;> simp [Request.change]
    · cases held <;> simp [Request.change]
  | refuses => exact ⟨sound, .refl _, trivial⟩
  | evaluates => exact ⟨sound, .refl _, trivial⟩
  | fetches => exact ⟨sound, .refl _, trivial⟩
  | writer changes => exact Change.next_keeps sound own changes
  | reader rebuilds => exact Rebuild.next_keeps sound own rebuilds
  | @raises _ _ _ _ executed raises nexts =>
    have raised := Party.raises_sound own raises
    have keeps := Party.next_keeps sound own nexts
    cases executed with
    | true => exact ⟨keeps.sound, keeps.evolves, raised.evolves keeps.evolves⟩
    | false => exact ⟨sound, .refl _, raised⟩
  | lapses =>
    have evolves : Evolves shared { shared with redis := shared.redis.delete } :=
      .quiet rfl rfl rfl rfl fun _ member => member
    exact ⟨sound.withRedis _, evolves, own.evolves evolves⟩

def Traffic.Sound (world : Traffic) : Prop := world.shared.Sound ∧ ∀ who, (world.parties who).Sound world.shared

theorem Traffic.start_sound : Traffic.start.Sound :=
  ⟨⟨by simp [Traffic.start], by simp [Traffic.start], by simp [Traffic.start]⟩, fun _ => trivial⟩

theorem Traffic.Sound.act {world next : Traffic} {action : Nat × Act} (sound : world.Sound)
    (acts : World.act trafficStep world action = some next) : next.Sound := by
  apply World.act_invariant _ (fun shared party => party.Sound shared) acts sound.2
  intro shared party steps
  have keeps := trafficStep_keeps sound.1 (sound.2 action.1) steps
  exact ⟨keeps.sound, keeps.own, fun _ own => own.evolves keeps.evolves⟩

theorem Traffic.sound_of_run {world : Traffic} {acts : List (Nat × Act)}
    (runs : run (World.act trafficStep) Traffic.start acts = some world) : world.Sound :=
  run_invariant _ (fun _ _ _ sound acts => Traffic.Sound.act sound acts) runs Traffic.start_sound

end Ripcord
