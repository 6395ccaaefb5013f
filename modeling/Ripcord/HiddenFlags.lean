import Ripcord.Convergence

namespace Ripcord

open Foundation

def LastNotified (shared : Shared) (key : Str) : Prop :=
  ∃ n ∈ shared.completed, KeyAt shared.db.audit n key ∧
    ∀ m < shared.db.audit.length, KeyAt shared.db.audit m key → m ≤ n

instance (shared : Shared) (key : Str) : Decidable (LastNotified shared key) :=
  inferInstanceAs (Decidable (∃ n ∈ shared.completed, KeyAt shared.db.audit n key ∧
    ∀ m < shared.db.audit.length, KeyAt shared.db.audit m key → m ≤ n))

theorem LastNotified.caught {shared : Shared} {key : Str} (notified : LastNotified shared key)
    (sound : shared.Sound) : Caught shared key := by
  obtain ⟨n, completed, here, last⟩ := notified
  intro m there
  exact ⟨n, sound.completed n completed, last m there.lt there, here⟩

/-- No unfenced `EXEC` publishes a snapshot without the flag that misses a change of it which has written
    its field, and no `HDEL` of the flag runs once a later change of it has written. -/
def KeepsField (key : Str) (world : Traffic) (action : Nat × Act) : Prop :=
  action.2.Executes →
    (∀ exec ∈ (world.parties action.1).exec?, exec.1 = none → getFlag exec.2 key = none →
      ∀ n ∈ world.shared.written, KeyAt world.shared.db.audit n key → n < exec.2.audit.length) ∧
    ∀ change ∈ (world.parties action.1).fieldWrite?, change.key = key → change.action = .deleted →
      ∀ n ∈ world.shared.written, KeyAt world.shared.db.audit n key → n ≤ change.entry

instance (key : Str) (world : Traffic) (action : Nat × Act) : Decidable (KeepsField key world action) := by
  unfold KeepsField
  infer_instance

def PublishesNothing (world : Traffic) (action : Nat × Act) : Prop :=
  ∀ exec ∈ (world.parties action.1).exec?, action.2.Executes → ¬ Fence.Passes world.shared.redis exec.1

instance (world : Traffic) (action : Nat × Act) : Decidable (PublishesNothing world action) := by
  unfold PublishesNothing
  infer_instance

def Shared.Shows (key : Str) (shared : Shared) : Prop :=
  Caught shared key → getFlag shared.db key ≠ none → shared.redis.hget key = none →
    shared.redis.hexists completeField = false

structure Change.Grounded (shared : Shared) (change : Change) : Prop where
  pattern : MatchesKeyPattern change.key
  keyed : KeyAt shared.db.audit change.entry change.key
  gone : change.action = .deleted → (∀ n, change.entry < n → ¬ KeyAt shared.db.audit n change.key) →
    getFlag shared.db change.key = none

def Party.Grounded (shared : Shared) : Party → Prop
  | .writer change => change.Grounded shared
  | _ => True

def Traffic.Grounded (world : Traffic) : Prop :=
  (∀ row ∈ world.shared.db.flags, MatchesKeyPattern row.key) ∧
    ∀ who, (world.parties who).Grounded world.shared

section Steps

variable {shared after : Shared} {party next : Party} {key : Str}

theorem Shared.Shows.congr (common : shared.Shows key) (db : after.db = shared.db)
    (caught : Caught after key → Caught shared key) (field : after.redis.hget key = shared.redis.hget key)
    (marker : after.redis.hget completeField = shared.redis.hget completeField) : after.Shows key := by
  intro written stored missing
  rw [db] at stored
  rw [field] at missing
  rw [Redis.hexists, marker]
  exact common (caught written) stored missing

theorem Shared.Shows.publish {snapshot : Database} (flagField : key ≠ completeField) (past : Past shared.db snapshot)
    (included : getFlag snapshot key = none →
      ∀ n ∈ shared.written, KeyAt shared.db.audit n key → n < snapshot.audit.length) :
    Shared.Shows key { shared with redis := shared.redis.replaceRuleset (buildRulesetMapping snapshot) } := by
  intro caught stored missing
  rw [hget_replaceRuleset _ _ flagField, lookup_buildRulesetMapping, rowPayload, Option.map_eq_none_iff] at missing
  have same : snapshot.row? key = shared.db.row? key := by
    apply past.rows
    intro n late here
    obtain ⟨m, written, later, there⟩ := caught n here
    exact absurd (included missing m written there) (Nat.not_lt.mpr (Nat.le_trans late later))
  exact absurd (by simpa only [getFlag, same] using missing) stored

theorem Shared.Shows.of_fieldWrite {change : Change} (common : shared.Shows key) (own : change.Grounded shared)
    (db : after.db = shared.db) (written : after.written = change.entry :: shared.written)
    (elsewhere : ∀ field, field ≠ change.key → after.redis.hget field = shared.redis.hget field)
    (here : key = change.key → after.Shows key) : after.Shows key := by
  by_cases same : key = change.key
  · exact here same
  · have marker : completeField ≠ change.key := (own.pattern.ne_underscore _).symm
    exact common.congr db (Caught.of_field own.keyed same db written) (elsewhere key same)
      (elsewhere completeField marker)

theorem HashEffect.shows (flagField : key ≠ completeField) (sound : shared.Sound) (known : party.Sound shared)
    (common : shared.Shows key) (own : party.Grounded shared)
    (unfenced : ∀ exec ∈ party.exec?, exec.1 = none → getFlag exec.2 key = none →
      ∀ n ∈ shared.written, KeyAt shared.db.audit n key → n < exec.2.audit.length)
    (ordered : ∀ change ∈ party.fieldWrite?, change.key = key → change.action = .deleted →
      ∀ n ∈ shared.written, KeyAt shared.db.audit n key → n ≤ change.entry)
    (db : after.db = shared.db) (effect : HashEffect shared party after) : after.Shows key := by
  cases effect with
  | quiet written fields =>
    exact common.congr db (fun caught => by simpa only [Caught, db, written] using caught) (fields _) (fields _)
  | @removes change writes action written redis =>
    obtain ⟨rfl, _⟩ := Party.fieldWrite?_eq_some writes
    apply common.of_fieldWrite own db written
    · intro field other
      rw [redis, hget_hdel_of_ne other]
    · rintro rfl caught stored _
      have gone := own.gone action ((caught.pushed db written).last (ordered change writes rfl action))
      exact absurd gone (db ▸ stored)
  | @sets change payload writes _ written redis =>
    obtain ⟨rfl, _⟩ := Party.fieldWrite?_eq_some writes
    apply common.of_fieldWrite own db written
    · intro field other
      rw [redis, hget_hset_of_ne other]
    · rintro rfl _ _ missing
      rw [redis, hget_hset] at missing
      cases missing
  | drops redis =>
    intro _ _ _
    rw [redis]
    rfl
  | @publishes fence snapshot execs passes written redis =>
    have past := known.past execs
    have published : Shared.Shows key
        { shared with redis := shared.redis.replaceRuleset (buildRulesetMapping snapshot) } := by
      cases fence with
      | none => exact Shared.Shows.publish flagField past (unfenced _ execs rfl)
      | some fence =>
        obtain ⟨fenced, compared⟩ := known.exec execs
        have included := fenced.current (compared (passes fence rfl))
        exact Shared.Shows.publish flagField past fun _ n there _ => included n (sound.written n there)
    exact published.congr db (fun caught => by simpa only [Caught, db, written] using caught)
      (by rw [redis]) (by rw [redis])

theorem HashEffect.unmarked (own : party.Grounded shared)
    (quiet : ∀ exec ∈ party.exec?, ¬ Fence.Passes shared.redis exec.1) (effect : HashEffect shared party after)
    (cold : shared.redis.hexists completeField = false) : after.redis.hexists completeField = false := by
  cases effect with
  | quiet _ fields => rwa [Redis.hexists, fields]
  | @removes change writes _ _ redis =>
    obtain ⟨rfl, _⟩ := Party.fieldWrite?_eq_some writes
    have changedField : change.key ≠ completeField := own.pattern.ne_underscore _
    rwa [Redis.hexists, redis, hget_hdel_of_ne changedField.symm]
  | @sets change payload writes _ _ redis =>
    obtain ⟨rfl, _⟩ := Party.fieldWrite?_eq_some writes
    have changedField : change.key ≠ completeField := own.pattern.ne_underscore _
    rwa [Redis.hexists, redis, hget_hset_of_ne changedField.symm]
  | drops redis =>
    rw [redis]
    rfl
  | publishes execs passes => exact absurd passes (quiet _ execs)

theorem Change.Grounded.evolves {change : Change} (own : change.Grounded shared)
    (evolves : DatabaseEvolves shared.db after.db) : change.Grounded after := by
  refine ⟨own.pattern, own.keyed.evolves evolves, fun action last => ?_⟩
  obtain ⟨still, row⟩ := evolves.last own.keyed last
  simpa only [getFlag, row] using own.gone action still

theorem Party.Grounded.evolves (own : party.Grounded shared) (evolves : DatabaseEvolves shared.db after.db) :
    party.Grounded after := by
  cases party with
  | writer change => exact Change.Grounded.evolves own evolves
  | _ => trivial

theorem Party.next_grounded (own : party.Grounded shared) (steps : party.next shared = some (after, next)) :
    next.Grounded after := by
  obtain ⟨db, _⟩ := Party.next_effect steps
  cases Party.next_moves steps with
  | writer changes =>
    have evolved := Change.Grounded.evolves own (.same db)
    exact ⟨evolved.pattern, evolved.keyed, evolved.gone⟩
  | reader => trivial

theorem Party.raises_grounded {raised : Party} (own : party.Grounded shared) (raises : party.raises = some raised) :
    raised.Grounded shared := by
  rcases Party.raises_cases raises with ⟨change, rfl, rfl⟩ | ⟨rebuild, point, rfl, _, rfl⟩
  · exact ⟨own.pattern, own.keyed, own.gone⟩
  · trivial

theorem Request.change_grounded {request : Request} {supply : Supply} {db : Database} {held : Option Flag}
    (keys : ∀ row ∈ shared.db.flags, MatchesKeyPattern row.key)
    (commits : request.commit shared.db supply = some (db, held)) :
    (request.change shared.db.audit.length held).Grounded { shared with db } := by
  have committed := Request.commit_ok commits
  obtain ⟨entry, audit, flagKey, _⟩ := committed.audit
  have keyed : KeyAt db.audit shared.db.audit.length request.key :=
    audit ▸ keyAt_append_singleton.mpr (.inr ⟨rfl, flagKey⟩)
  refine ⟨(Request.commit_keys keys commits).1, keyed, fun deleted _ => ?_⟩
  have row : db.row? request.key = none := committed.row.trans (committed.deleted.mp deleted)
  simp [Request.change, getFlag, row]

theorem trafficStep_grounded {act : Act} (keys : ∀ row ∈ shared.db.flags, MatchesKeyPattern row.key)
    (own : party.Grounded shared) (steps : trafficStep shared party act = some (after, next)) :
    (∀ row ∈ after.db.flags, MatchesKeyPattern row.key) ∧ next.Grounded after := by
  have kept : ∀ {other}, party.next shared = some (after, other) → ∀ row ∈ after.db.flags, MatchesKeyPattern row.key :=
    fun nexts => (Party.next_effect nexts).1 ▸ keys
  cases trafficStep_moves steps with
  | commits commits => exact ⟨(Request.commit_keys keys commits).2, Request.change_grounded keys commits⟩
  | refuses => exact ⟨keys, trivial⟩
  | evaluates => exact ⟨keys, trivial⟩
  | fetches => exact ⟨keys, trivial⟩
  | writer => exact ⟨kept steps, Party.next_grounded own steps⟩
  | reader => exact ⟨kept steps, Party.next_grounded own steps⟩
  | @raises _ _ _ _ executed raises nexts =>
    have raised := Party.raises_grounded own raises
    cases executed with
    | true => exact ⟨kept nexts, raised.evolves (.same (Party.next_effect nexts).1)⟩
    | false => exact ⟨keys, raised⟩
  | lapses =>
    have evolves : DatabaseEvolves shared.db shared.db := .same rfl
    exact ⟨keys, own.evolves evolves⟩

theorem Request.shared_shows {request : Request} {supply : Supply} {db : Database} {held : Option Flag}
    (sound : shared.Sound) (common : shared.Shows key)
    (commits : request.commit shared.db supply = some (db, held)) : Shared.Shows key { shared with db } := by
  intro caught stored missing
  obtain ⟨before, row⟩ := caught.of_commit sound commits
  exact common before (by simpa only [getFlag, row] using stored) missing

/-- To hold after a step a property has to survive commits and the commands executed, and to hold of no hash. -/
theorem trafficStep_hash {act : Act} (holds : Shared → Prop)
    (commits : ∀ {request : Request} {supply : Supply} {db : Database} {held : Option Flag},
      request.commit shared.db supply = some (db, held) → holds { shared with db })
    (executes : act.Executes → ∀ after, after.db = shared.db → HashEffect shared party after → holds after)
    (lapses : holds { shared with redis := shared.redis.delete }) (before : holds shared)
    (steps : trafficStep shared party act = some (after, next)) : holds after := by
  have executed : ∀ {after other}, act.Executes → party.next shared = some (after, other) → holds after := by
    intro after other executing nexts
    obtain ⟨db, effect⟩ := Party.next_effect nexts
    exact executes executing after db effect
  cases trafficStep_moves steps with
  | commits commit => exact commits commit
  | writer => exact executed trivial steps
  | reader => exact executed trivial steps
  | @raises _ _ _ _ executing raises nexts =>
    cases executing with
    | true => exact executed trivial nexts
    | false => exact before
  | lapses => exact lapses
  | _ => exact before

theorem trafficStep_shows {act : Act} (flagField : key ≠ completeField) (sound : shared.Sound)
    (known : party.Sound shared) (common : shared.Shows key) (own : party.Grounded shared)
    (keeps : act.Executes →
      (∀ exec ∈ party.exec?, exec.1 = none → getFlag exec.2 key = none →
        ∀ n ∈ shared.written, KeyAt shared.db.audit n key → n < exec.2.audit.length) ∧
      ∀ change ∈ party.fieldWrite?, change.key = key → change.action = .deleted →
        ∀ n ∈ shared.written, KeyAt shared.db.audit n key → n ≤ change.entry)
    (steps : trafficStep shared party act = some (after, next)) : after.Shows key := by
  apply trafficStep_hash (Shared.Shows key) _ _ _ common steps
  · intro request supply db held commits
    exact Request.shared_shows sound common commits
  · intro executes after db effect
    obtain ⟨unfenced, ordered⟩ := keeps executes
    exact effect.shows flagField sound known common own unfenced ordered db
  · intro _ _ _
    rfl

theorem trafficStep_unmarked {act : Act} (own : party.Grounded shared)
    (quiet : ∀ exec ∈ party.exec?, act.Executes → ¬ Fence.Passes shared.redis exec.1)
    (cold : shared.redis.hexists completeField = false)
    (steps : trafficStep shared party act = some (after, next)) : after.redis.hexists completeField = false := by
  apply trafficStep_hash (fun shared => shared.redis.hexists completeField = false) _ _ rfl cold steps
  · intro request supply db held _
    exact cold
  · intro executes after _ effect
    exact effect.unmarked own (fun exec execs => quiet exec execs executes) cold

end Steps

theorem Traffic.start_grounded : Traffic.start.Grounded := ⟨by simp [Traffic.start, Database.empty], fun _ => trivial⟩

theorem Traffic.Grounded.act {world next : Traffic} {action : Nat × Act} (grounded : world.Grounded)
    (sound : world.Sound) (acts : World.act trafficStep world action = some next) : next.Grounded := by
  obtain ⟨who, act⟩ := action
  apply World.act_invariant (fun shared : Shared => ∀ row ∈ shared.db.flags, MatchesKeyPattern row.key)
    (fun shared (party : Party) => party.Grounded shared) acts grounded.2
  intro shared party steps
  have evolves := (trafficStep_keeps sound.1 (sound.2 who) steps).evolves.database
  obtain ⟨keys, own⟩ := trafficStep_grounded grounded.1 (grounded.2 who) steps
  exact ⟨keys, own, fun _ own => own.evolves evolves⟩

theorem Traffic.grounded_of_run {world : Traffic} {acts : List (Nat × Act)}
    (runs : run (World.act trafficStep) Traffic.start acts = some world) : world.Grounded :=
  (run_invariant (fun world : Traffic => world.Sound ∧ world.Grounded)
    (fun _ _ _ ⟨sound, grounded⟩ acts => ⟨sound.act acts, grounded.act sound acts⟩) runs
    ⟨Traffic.start_sound, Traffic.start_grounded⟩).2

theorem Traffic.shows_of_run {world : Traffic} {acts : List (Nat × Act)} {key : Str} (flagField : key ≠ completeField)
    (runs : RunWhere (World.act trafficStep) (KeepsField key) Traffic.start acts world) : world.shared.Shows key := by
  have kept := runs.invariant (fun world : Traffic => world.Sound ∧ world.Grounded ∧ world.shared.Shows key) ?_
    ⟨Traffic.start_sound, Traffic.start_grounded, fun _ _ _ => rfl⟩
  · exact kept.2.2
  · intro world ⟨who, act⟩ next keeps ⟨sound, grounded, shows⟩ acts
    refine ⟨sound.act acts, grounded.act sound acts, ?_⟩
    obtain ⟨shared, party, steps, rfl⟩ := World.act_cases acts
    exact trafficStep_shows flagField sound.1 (sound.2 who) shows (grounded.2 who) keeps steps

theorem Traffic.unmarked_of_run {asked world : Traffic} {acts : List (Nat × Act)} (sound : asked.Sound)
    (grounded : asked.Grounded) (cold : asked.shared.redis.hexists completeField = false)
    (runs : RunWhere (World.act trafficStep) PublishesNothing asked acts world) :
    world.shared.redis.hexists completeField = false := by
  have kept := runs.invariant
    (fun world : Traffic => world.Sound ∧ world.Grounded ∧ world.shared.redis.hexists completeField = false) ?_
    ⟨sound, grounded, cold⟩
  · exact kept.2.2
  · intro world ⟨who, act⟩ next quiet ⟨sound, grounded, cold⟩ acts
    refine ⟨sound.act acts, grounded.act sound acts, ?_⟩
    obtain ⟨shared, party, steps, rfl⟩ := World.act_cases acts
    exact trafficStep_unmarked (grounded.2 who) quiet cold steps

theorem PublishesNothing.marks {world next : Traffic} {action : Nat × Act}
    (acts : World.act trafficStep world action = some next) (publishes : ¬ PublishesNothing world action) :
    next.shared.redis.hexists completeField ∧ ∃ caller fence snapshot,
      world.parties action.1 = .reader ⟨caller, .exec fence snapshot⟩ := by
  obtain ⟨who, act⟩ := action
  simp only [PublishesNothing, not_forall, not_not] at publishes
  obtain ⟨⟨fence, snapshot⟩, execs, executes, passes⟩ := publishes
  obtain ⟨caller, here⟩ := Party.exec?_eq_some execs
  obtain ⟨shared, party, steps, rfl⟩ := World.act_cases acts
  refine ⟨?_, caller, fence, snapshot, here⟩
  have nexts : (world.parties who).next world.shared =
      some ({ world.shared with redis := world.shared.redis.replaceRuleset (buildRulesetMapping snapshot) },
        .reader ⟨caller, .answered (some true)⟩) := by
    rw [here]
    simp [Party.next, Rebuild.next, passes]
  have marked : (world.shared.redis.replaceRuleset (buildRulesetMapping snapshot)).hexists completeField := by
    simp [Redis.hexists, Redis.hget, Redis.replaceRuleset]
  cases act with
  | next =>
    have same := Option.some.inj (nexts.symm.trans steps)
    cases same
    exact marked
  | fault executed =>
    cases executed with
    | true =>
      simp only [trafficStep, nexts] at steps
      cases raised : (world.parties who).raises with
      | none => simp [raised] at steps
      | some raised =>
        simp only [raised] at steps
        cases steps
        exact marked
    | false => exact absurd executes id
  | _ => exact absurd executes id

def Party.hget? : Party → Option Str
  | .reader ⟨_, .hget flagKey⟩ => some flagKey
  | _ => none

theorem Party.hget?_eq_some {party : Party} {key : Str} (asks : party.hget? = some key) :
    ∃ caller, party = .reader ⟨caller, .hget key⟩ := by
  unfold Party.hget? at asks
  split at asks <;> cases asks
  exact ⟨_, rfl⟩

def Party.readFlag? (redis : Redis) : Party → Option CachedFlag
  | .reader ⟨_, .hexists payload⟩ => some (cachedFlag payload (redis.hexists completeField))
  | _ => none

theorem Party.hexists_of_run {asked world : Traffic} {who : Nat} {key : Str} {rest : List (Nat × Act)}
    (asks : (asked.parties who).hget? = some key)
    (reads : run (World.act trafficStep) asked ((who, .next) :: rest) = some world)
    (others : ∀ action ∈ rest, action.1 ≠ who) :
    ∃ caller, world.parties who = .reader ⟨caller, .hexists (asked.shared.redis.hget key)⟩ := by
  obtain ⟨caller, here⟩ := Party.hget?_eq_some asks
  obtain ⟨next, acts, continues⟩ := run_cons reads
  have waits := World.run_others others continues
  obtain ⟨shared, party, steps, rfl⟩ := World.act_cases acts
  rw [here] at steps
  cases steps
  exact ⟨caller, by simpa using waits⟩

/-- `read_flag` finds a flag that is there and whose last change is through, whatever others do between its two
    commands, unless a rebuild publishes after its `HGET` has missed; one that does hides the flag. -/
theorem readFlag_finds {asked world : Traffic} {acts rest : List (Nat × Act)} {who : Nat} {key : Str}
    (runs : RunWhere (World.act trafficStep) (KeepsField key) Traffic.start acts asked)
    (asks : (asked.parties who).hget? = some key) (stored : (getFlag asked.shared.db key).isSome)
    (notified : LastNotified asked.shared key)
    (reads : RunWhere (World.act trafficStep)
      (fun world action => asked.shared.redis.hget key = none → PublishesNothing world action)
      asked ((who, .next) :: rest) world)
    (others : ∀ action ∈ rest, action.1 ≠ who) :
    (∃ answer, (world.parties who).readFlag? world.shared.redis = some answer ∧ answer ≠ .absent) ∧
      ∀ action next, World.act trafficStep world action = some next →
        ¬ (asked.shared.redis.hget key = none → PublishesNothing world action) →
          (next.parties who).readFlag? next.shared.redis = some .absent := by
  obtain ⟨caller, waits⟩ := Party.hexists_of_run asks reads.run others
  constructor
  · have sound := Traffic.sound_of_run runs.run
    have grounded := Traffic.grounded_of_run runs.run
    rw [waits]
    refine ⟨_, rfl, ?_⟩
    cases found : asked.shared.redis.hget key with
    | some payload => simp [cachedFlag]
    | none =>
      have flagField : key ≠ completeField := by
        obtain ⟨flag, stored⟩ := Option.isSome_iff_exists.mp stored
        obtain ⟨row, member, rfl, _⟩ := getFlag_spec stored
        exact (grounded.1 row member).ne_underscore _
      have caught := notified.caught sound.1
      have cold := Traffic.shows_of_run flagField runs caught (Option.isSome_iff_ne_none.mp stored) found
      have still := Traffic.unmarked_of_run sound grounded cold (reads.weaken fun _ _ quiet => quiet found)
      simp [cachedFlag, still]
  · intro action next acts publishes
    obtain ⟨missed, publishes⟩ := Classical.not_imp.mp publishes
    obtain ⟨marked, _, _, _, publisher⟩ := PublishesNothing.marks acts publishes
    have other : action.1 ≠ who := by
      intro same
      subst same
      rw [waits] at publisher
      cases publisher
    obtain ⟨shared, party, _, rfl⟩ := World.act_cases acts
    simp only [Function.update_of_ne other.symm, waits, Party.readFlag?, missed, cachedFlag, marked, if_true]

def lapsedCheckout : List (Nat × Act) :=
  [(1, .request (.create checkoutCreate (str "ops")) firstSupply), (1, .next), (1, .next), (1, .next),
    (1, .next), (1, .next), (1, .next), (0, .evaluateFlagCached (str "checkout")), (1, .lapse)]

def refetch : List (Nat × Act) :=
  [(2, .getRuleset), (2, .next), (2, .next), (2, .next), (2, .next), (2, .next)]

theorem readFlag_finds_checkout :
    ∃ asked world, (∃ answer, (world.parties 0).readFlag? world.shared.redis = some answer ∧ answer ≠ .absent) ∧
      RunWhere (World.act trafficStep) (KeepsField (str "checkout")) Traffic.start lapsedCheckout asked ∧
      RunWhere (World.act trafficStep) PublishesNothing asked ((0, .next) :: refetch) world := by
  obtain ⟨asked, runs, asks, stored, notified, continues⟩ := runWhere_reaches (World.act trafficStep)
    (KeepsField (str "checkout")) Traffic.start lapsedCheckout
    (fun asked => (asked.parties 0).hget? = some (str "checkout") ∧
      (getFlag asked.shared.db (str "checkout")).isSome ∧ LastNotified asked.shared (str "checkout") ∧
      (guardedRun (World.act trafficStep) PublishesNothing asked ((0, .next) :: refetch)).isSome) (by decide +kernel)
  obtain ⟨world, between⟩ := Option.isSome_iff_exists.mp continues
  have reads := guardedRun_eq_some.mp between
  have finds := readFlag_finds runs asks stored notified (reads.weaken fun _ _ quiet _ => quiet) (by decide)
  exact ⟨asked, world, finds.1, runs, reads⟩

theorem refetch_hides :
    (∀ action ∈ lapsedCheckout ++ refetch, action.2.NoFault) ∧
      ∃ asked world, run (World.act trafficStep) Traffic.start lapsedCheckout = some asked ∧
        (asked.parties 0).hget? = some (str "checkout") ∧ (getFlag asked.shared.db (str "checkout")).isSome ∧
        LastNotified asked.shared (str "checkout") ∧
        run (World.act trafficStep) asked ((0, .next) :: refetch ++ [(2, .next)]) = some world ∧
        (∀ action ∈ refetch ++ [(2, .next)], action.1 ≠ 0) ∧ world.shared.db = asked.shared.db ∧
        (world.parties 0).readFlag? world.shared.redis = some .absent := by
  refine ⟨by decide, ?_⟩
  obtain ⟨asked, runs, asks, stored, notified, continues⟩ := run_reaches (World.act trafficStep)
    Traffic.start lapsedCheckout
    (fun asked => (asked.parties 0).hget? = some (str "checkout") ∧
      (getFlag asked.shared.db (str "checkout")).isSome ∧ LastNotified asked.shared (str "checkout") ∧
      ((run (World.act trafficStep) asked ((0, .next) :: refetch ++ [(2, .next)])).any fun world =>
        world.shared.db = asked.shared.db ∧ (world.parties 0).readFlag? world.shared.redis = some .absent) = true)
    (by decide +kernel)
  obtain ⟨world, reads, answered⟩ := (Option.any_eq_true _ _).mp continues
  obtain ⟨unchanged, absent⟩ := of_decide_eq_true answered
  exact ⟨asked, world, runs, asks, stored, notified, reads, by decide, unchanged, absent⟩

end Ripcord
