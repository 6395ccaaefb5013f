import Ripcord.Convergence
import Ripcord.Foundation.History

namespace Ripcord

open Foundation

/-! Where what the cache holds comes from. -/

/-- The payload is that of the key's row, its rules in the order that a query loads them in or in the order
    that they were sent in; a re-read can have put the `updated_at` of a later version on it. -/
inductive PayloadOf (db : Database) (key payload : Str) : Prop
  | loaded {row : Flag} (stored : db.row? key = some row) (same : payload = flagPayload row.load)
  | held {row : Flag} (updatedAt : Str) (stored : db.row? key = some row)
    (same : payload = flagPayload { row with updatedAt })

/-- The answers to every user and context are those that the database gives, or all are those that it would give
    with the rules in the order that they were sent in. -/
def Answers (db : Database) (key : Str) (answer : Str → Option Context → Except PyError Evaluation) : Prop :=
  (∀ userId context, answer userId context = evaluateFlag db key userId context) ∨
    ∃ row, db.row? key = some row ∧ ∀ userId context, answer userId context = evaluate (toSpec row) userId context

/-- Every field is the payload of its flag in a database seen, and what a complete hash lacks was not in one. -/
structure Shared.Sourced (seen : Set Shared) (shared : Shared) : Prop where
  keys : ∀ row ∈ shared.db.flags, MatchesKeyPattern row.key
  fields : ∀ key payload, key ≠ completeField → shared.redis.hget key = some payload →
    ∃ past ∈ seen, PayloadOf past.db key payload
  gaps : shared.redis.hexists completeField → ∀ key, key ≠ completeField → shared.redis.hget key = none →
    ∃ past ∈ seen, past.db.row? key = none

def ChangePoint.Sourced (seen : Set Shared) (key : Str) : ChangePoint → Prop
  | .reload held => ∃ past ∈ seen, past.db.row? key = some held
  | .incr payload | .field payload => ∀ text ∈ payload, ∃ past ∈ seen, PayloadOf past.db key text
  | _ => True

structure Change.Sourced (seen : Set Shared) (change : Change) : Prop where
  pattern : MatchesKeyPattern change.key
  gone : change.action = .deleted → ∃ past ∈ seen, past.db.row? change.key = none
  point : change.point.Sourced seen change.key

def RebuildPoint.Sourced (seen : Set Shared) : RebuildPoint → Prop
  | .watch _ snapshot | .compare _ snapshot | .exec _ snapshot => ∃ past ∈ seen, past.db = snapshot
  | _ => True

def Party.Sourced (seen : Set Shared) : Party → Prop
  | .writer change => change.Sourced seen
  | .reader rebuild => rebuild.point.Sourced seen
  | _ => True

section Looking

variable {seen wider : Set Shared}

theorem exists_seen_mono {holds : Shared → Prop} (more : ∀ past ∈ seen, past ∈ wider)
    (before : ∃ past ∈ seen, holds past) : ∃ past ∈ wider, holds past := by
  obtain ⟨past, member, here⟩ := before
  exact ⟨past, more past member, here⟩

theorem Shared.Sourced.mono {shared : Shared} (more : ∀ past ∈ seen, past ∈ wider)
    (sourced : shared.Sourced seen) : shared.Sourced wider where
  keys := sourced.keys
  fields key payload flagField field := exists_seen_mono more (sourced.fields key payload flagField field)
  gaps complete key flagField missing := exists_seen_mono more (sourced.gaps complete key flagField missing)

theorem Party.Sourced.mono {party : Party} (more : ∀ past ∈ seen, past ∈ wider)
    (sourced : party.Sourced seen) : party.Sourced wider := by
  cases party with
  | writer change =>
    obtain ⟨pattern, gone, point⟩ := sourced
    refine ⟨pattern, fun deleted => exists_seen_mono more (gone deleted), ?_⟩
    obtain ⟨key, action, entry, at_⟩ := change
    cases at_ with
    | reload held => exact exists_seen_mono more point
    | incr payload => exact fun text sent => exists_seen_mono more (point text sent)
    | field payload => exact fun text sent => exists_seen_mono more (point text sent)
    | _ => trivial
  | reader rebuild =>
    obtain ⟨caller, point⟩ := rebuild
    cases point with
    | watch expected snapshot => exact exists_seen_mono more sourced
    | compare fence snapshot => exact exists_seen_mono more sourced
    | exec fence snapshot => exact exists_seen_mono more sourced
    | _ => trivial
  | _ => trivial

end Looking

section Steps

variable {seen : Set Shared} {shared after : Shared} {party next : Party}

theorem Shared.Sourced.congr (sourced : shared.Sourced seen) (db : after.db = shared.db)
    (fields : ∀ field, after.redis.hget field = shared.redis.hget field) : after.Sourced seen where
  keys := db ▸ sourced.keys
  fields key payload flagField field := sourced.fields key payload flagField (by rwa [← fields])
  gaps complete key flagField missing :=
    sourced.gaps (by rwa [Redis.hexists, ← fields]) key flagField (by rwa [← fields])

/-- A field command leaves the marker and the other fields as they were, so only its own field asks for a source. -/
theorem Shared.Sourced.of_fieldWrite {change : Change} (sourced : shared.Sourced seen) (own : change.Sourced seen)
    (db : after.db = shared.db)
    (elsewhere : ∀ field, field ≠ change.key → after.redis.hget field = shared.redis.hget field)
    (field : ∀ payload, after.redis.hget change.key = some payload →
      ∃ past ∈ seen, PayloadOf past.db change.key payload)
    (gap : after.redis.hget change.key = none → ∃ past ∈ seen, past.db.row? change.key = none) :
    after.Sourced seen := by
  have marker : completeField ≠ change.key := (own.pattern.ne_underscore _).symm
  refine ⟨db ▸ sourced.keys, fun key payload flagField present => ?_, fun complete key flagField missing => ?_⟩
  · by_cases same : key = change.key
    · subst same
      exact field payload present
    · exact sourced.fields key payload flagField (by rwa [← elsewhere key same])
  · by_cases same : key = change.key
    · subst same
      exact gap missing
    · rw [Redis.hexists, elsewhere _ marker] at complete
      exact sourced.gaps complete key flagField (by rwa [← elsewhere key same])

theorem HashEffect.sourced (sourced : shared.Sourced seen) (own : party.Sourced seen) (db : after.db = shared.db)
    (effect : HashEffect shared party after) : after.Sourced seen := by
  cases effect with
  | quiet _ fields => exact sourced.congr db fields
  | @removes change writes action _ redis =>
    obtain ⟨rfl, _⟩ := Party.fieldWrite?_eq_some writes
    apply sourced.of_fieldWrite own db
    · intro field other
      rw [redis, hget_hdel_of_ne other]
    · intro payload present
      rw [redis, hget_hdel] at present
      cases present
    · exact fun _ => Change.Sourced.gone own action
  | @sets change payload writes sent _ redis =>
    obtain ⟨rfl, _⟩ := Party.fieldWrite?_eq_some writes
    apply sourced.of_fieldWrite own db
    · intro field other
      rw [redis, hget_hset_of_ne other]
    · intro text present
      have point := Change.Sourced.point own
      rw [sent] at point
      rw [redis, hget_hset] at present
      exact point text present
    · intro missing
      rw [redis, hget_hset] at missing
      cases missing
  | drops redis =>
    refine ⟨db ▸ sourced.keys, fun key payload _ present => ?_, fun complete => ?_⟩
    · rw [redis, hget_delete] at present
      cases present
    · rw [redis] at complete
      cases complete
  | @publishes fence snapshot execs _ _ redis =>
    obtain ⟨caller, rfl⟩ := Party.exec?_eq_some execs
    obtain ⟨past, member, rfl⟩ : ∃ past ∈ seen, past.db = snapshot := own
    have published : ∀ key, key ≠ completeField → after.redis.hget key = rowPayload past.db key := by
      intro key flagField
      rw [redis, hget_replaceRuleset _ _ flagField, lookup_buildRulesetMapping]
    refine ⟨db ▸ sourced.keys, fun key payload flagField present => ⟨past, member, ?_⟩,
      fun _ key flagField missing => ⟨past, member, ?_⟩⟩
    · rw [published key flagField, rowPayload, getFlag, Option.map_map] at present
      obtain ⟨row, stored, same⟩ := Option.map_eq_some_iff.mp present
      exact .loaded stored same.symm
    · rwa [published key flagField, rowPayload, getFlag, Option.map_map, Option.map_eq_none_iff] at missing

theorem payloadOf_held {past db : Database} {action : Action} {held flag : Flag} {key : Str}
    (stored : past.row? key = some held) (found : getFlagHeld db action held key = some flag) :
    PayloadOf past key (flagPayload flag) ∨ PayloadOf db key (flagPayload flag) := by
  obtain ⟨row, now, same⟩ := Option.map_eq_some_iff.mp found
  by_cases own : row.id = held.id
  · left
    rw [if_pos own] at same
    cases action with
    | updated => exact .held row.updatedAt stored (by rw [← same])
    | created => exact .held held.updatedAt stored (by rw [← same])
    | deleted => exact .held held.updatedAt stored (by rw [← same])
  · right
    rw [if_neg own] at same
    exact .loaded now (by rw [same])

theorem Change.next_sourced {change : Change} {point : ChangePoint} (here : shared ∈ seen) (own : change.Sourced seen)
    (steps : change.next shared = some (after, point)) : Change.Sourced seen { change with point } := by
  obtain ⟨key, action, entry, old⟩ := change
  refine ⟨own.pattern, own.gone, ?_⟩
  have known := own.point
  cases Change.next_moves steps with
  | reloads found =>
    obtain ⟨past, member, stored⟩ := known
    intro text sent
    cases sent
    rcases payloadOf_held stored found with own | current
    · exact ⟨past, member, own⟩
    · exact ⟨shared, here, current⟩
  | increments => exact known
  | _ => trivial

theorem Rebuild.next_sourced {rebuild : Rebuild} {redis : Redis} {point : RebuildPoint} (here : shared ∈ seen)
    (own : rebuild.point.Sourced seen) (steps : rebuild.next shared.db shared.redis = some (redis, point)) :
    point.Sourced seen := by
  obtain ⟨caller, old⟩ := rebuild
  cases Rebuild.next_moves steps with
  | unfenced => exact ⟨shared, here, rfl⟩
  | fenced => exact ⟨shared, here, rfl⟩
  | watches => exact own
  | compares => exact own
  | _ => trivial

theorem Party.next_sourced (here : shared ∈ seen) (sourced : shared.Sourced seen) (own : party.Sourced seen)
    (steps : party.next shared = some (after, next)) : after.Sourced seen ∧ next.Sourced seen := by
  obtain ⟨db, effect⟩ := Party.next_effect steps
  refine ⟨effect.sourced sourced own db, ?_⟩
  cases Party.next_moves steps with
  | writer changes => exact Change.next_sourced here own changes
  | reader rebuilds => exact Rebuild.next_sourced here own rebuilds

theorem Party.raises_sourced {raised : Party} (own : party.Sourced seen) (raises : party.raises = some raised) :
    raised.Sourced seen := by
  rcases Party.raises_cases raises with ⟨change, rfl, rfl⟩ | ⟨⟨caller, old⟩, point, rfl, raises, rfl⟩
  · exact ⟨own.pattern, own.gone, trivial⟩
  · cases old <;> cases caller <;> cases raises <;> trivial

theorem Request.change_sourced {request : Request} {supply : Supply} {db : Database} {held : Option Flag}
    (last : { shared with db } ∈ seen) (keys : ∀ row ∈ shared.db.flags, MatchesKeyPattern row.key)
    (commits : request.commit shared.db supply = some (db, held)) :
    (request.change shared.db.audit.length held).Sourced seen := by
  have committed := Request.commit_ok commits
  refine ⟨(Request.commit_keys keys commits).1, fun deleted => ?_, ?_⟩
  · exact ⟨_, last, committed.row.trans (committed.deleted.mp deleted)⟩
  · cases held with
    | none => exact fun text none => by cases none
    | some held => exact ⟨_, last, committed.row⟩

theorem trafficStep_sourced {act : Act} (here : shared ∈ seen) (last : after ∈ seen) (sourced : shared.Sourced seen)
    (own : party.Sourced seen) (steps : trafficStep shared party act = some (after, next)) :
    after.Sourced seen ∧ next.Sourced seen := by
  cases trafficStep_moves steps with
  | commits commits =>
    exact ⟨⟨(Request.commit_keys sourced.keys commits).2, sourced.fields, sourced.gaps⟩,
      Request.change_sourced last sourced.keys commits⟩
  | refuses => exact ⟨sourced, trivial⟩
  | evaluates => exact ⟨sourced, trivial⟩
  | fetches => exact ⟨sourced, trivial⟩
  | writer => exact Party.next_sourced here sourced own steps
  | reader => exact Party.next_sourced here sourced own steps
  | @raises _ _ _ _ executed raises nexts =>
    have raised := Party.raises_sourced own raises
    cases executed with
    | true => exact ⟨(Party.next_sourced here sourced own nexts).1, raised⟩
    | false => exact ⟨sourced, raised⟩
  | lapses =>
    refine ⟨⟨sourced.keys, fun key payload _ present => ?_, fun complete => ?_⟩, own⟩
    · cases present
    · cases complete

end Steps

theorem Traffic.start_sourced (seen : Set Shared) : Traffic.start.shared.Sourced seen := by
  refine ⟨by simp [Traffic.start, Database.empty], fun key payload _ present => ?_, fun complete => ?_⟩
  · cases present
  · cases complete

theorem Traffic.sourced_of_run {world : Traffic} {acts : List (Nat × Act)}
    (runs : run (World.act trafficStep) Traffic.start acts = some world) :
    world.shared.Sourced (World.Seen trafficStep Traffic.start acts) := by
  apply (World.run_seen (fun seen shared => Shared.Sourced seen shared) (fun seen party => party.Sourced seen)
    (fun _ => True) (fun _ _ _ more sourced => sourced.mono more) (fun _ _ _ more own => own.mono more) _
    (fun _ _ => trivial) Traffic.start_sourced (fun _ _ => trivial) runs).1
  intro seen shared party act after next here last _ sourced own steps
  exact trafficStep_sourced here last sourced own steps

section Answers

variable {db : Database} {key : Str}

theorem Database.row?_valid {row : Flag} (stored : db.row? key = some row) :
    row.key = key ∧ row ∈ db.flags ∧ (row.variants.map Variant.key).Nodup := by
  obtain ⟨member, named⟩ := Database.row?_eq_some.mp stored
  exact ⟨named, member, (db.valid.rowsValid row member).2.2.2.1⟩

theorem PayloadOf.answers {payload : Str} (of : PayloadOf db key payload) :
    Answers db key (evaluatePayload payload) := by
  cases of with
  | @loaded row stored same =>
    left
    intro userId context
    have row_ : rowPayload db key = some payload := by simp [rowPayload, getFlag, stored, same]
    have answer := evaluatePayload_rowPayload db key userId context
    rwa [row_] at answer
  | @held row updatedAt stored same =>
    right
    have distinct := (Database.row?_valid stored).2.2
    refine ⟨row, stored, fun userId context => ?_⟩
    rw [same]
    exact evaluatePayload_flagPayload { row with updatedAt } distinct userId context

theorem Answers.of_ascending {answer : Str → Option Context → Except PyError Evaluation}
    (ascending : ∀ row ∈ db.flags, row.rules.Pairwise fun a b => a.priority ≤ b.priority)
    (answers : Answers db key answer) (userId : Str) (context : Option Context) :
    answer userId context = evaluateFlag db key userId context := by
  rcases answers with same | ⟨row, stored, same⟩
  · exact same userId context
  · obtain ⟨_, member, distinct⟩ := Database.row?_valid stored
    have loaded : rowPayload db key = some (flagPayload row) := by
      rw [← flagPayload_load (ascending row member)]
      simp [rowPayload, getFlag, stored]
    have answer := evaluatePayload_rowPayload db key userId context
    rw [loaded] at answer
    rw [same]
    exact (evaluatePayload_flagPayload row distinct userId context).symm.trans answer

theorem Request.commit_ascending {request : Request} {after : Database} {supply : Supply} {held : Option Flag}
    (ascending : request.RulesAscending)
    (rows : ∀ row ∈ db.flags, row.rules.Pairwise fun a b => a.priority ≤ b.priority)
    (commits : request.commit db supply = some (after, held)) :
    ∀ row ∈ after.flags, row.rules.Pairwise fun a b => a.priority ≤ b.priority := by
  intro row member
  by_cases same : row.key = request.key
  · have stored : after.row? request.key = some row := Database.row?_eq_some.mpr ⟨member, same⟩
    rw [(Request.commit_ok commits).row] at stored
    subst stored
    exact Request.held_ascending ascending commits
  · have stored : after.row? row.key = some row := Database.row?_eq_some.mpr ⟨member, rfl⟩
    rw [(Request.commit_ok commits).others row.key same] at stored
    exact rows row (Database.row?_eq_some.mp stored).1

def Act.RulesAscending : Act → Prop
  | .request sent _ => sent.RulesAscending
  | _ => True

instance : DecidablePred Act.RulesAscending
  | .request sent _ => inferInstanceAs (Decidable sent.RulesAscending)
  | .evaluateFlagCached _ | .getRuleset | .next | .fault _ | .lapse => inferInstanceAs (Decidable True)

theorem trafficStep_ascending {shared after : Shared} {party next : Party} {act : Act} (ascending : act.RulesAscending)
    (rows : ∀ row ∈ shared.db.flags, row.rules.Pairwise fun a b => a.priority ≤ b.priority)
    (steps : trafficStep shared party act = some (after, next)) :
    ∀ row ∈ after.db.flags, row.rules.Pairwise fun a b => a.priority ≤ b.priority := by
  cases trafficStep_moves steps with
  | commits commits => exact Request.commit_ascending ascending rows commits
  | writer changes => exact (Change.next_effect changes).1 ▸ rows
  | @raises _ _ _ _ executed _ nexts =>
    cases executed with
    | true => exact (Party.next_effect nexts).1 ▸ rows
    | false => exact rows
  | _ => exact rows

theorem Traffic.ascending_of_run {world : Traffic} {acts : List (Nat × Act)}
    (ascending : ∀ action ∈ acts, action.2.RulesAscending)
    (runs : run (World.act trafficStep) Traffic.start acts = some world) :
    ∀ row ∈ world.shared.db.flags, row.rules.Pairwise fun a b => a.priority ≤ b.priority := by
  have allowed : RunWhere (World.act trafficStep) (fun _ action => action.2.RulesAscending) Traffic.start acts world :=
    RunWhere.of_run (fun _ action member => ascending action member) runs
  apply allowed.invariant (fun world : Traffic =>
    ∀ row ∈ world.shared.db.flags, row.rules.Pairwise fun a b => a.priority ≤ b.priority)
  · intro world action next ascends rows acts
    obtain ⟨shared, party, steps, rfl⟩ := World.act_cases acts
    exact trafficStep_ascending ascends rows steps
  · exact fun row member => by cases member

end Answers

/-- Nothing is served that was never stored: whatever interleaves, fails or lapses, there is one database of the run
    as which `evaluate_flag_cached` answers every user and context. -/
theorem served_answer_committed {world : Traffic} {acts : List (Nat × Act)}
    (runs : run (World.act trafficStep) Traffic.start acts = some world) {key : Str} (flagField : key ≠ completeField)
    (faults : Faults) (others : Redis → Redis) :
    (Once (World.act trafficStep) Traffic.start acts fun past =>
      Answers past.shared.db key fun userId context =>
        (evaluateFlagCached faults others world.shared.redis world.shared.db key userId context).2) ∧
    ((∀ action ∈ acts, action.2.RulesAscending) → Once (World.act trafficStep) Traffic.start acts fun past =>
      ∀ userId context,
        (evaluateFlagCached faults others world.shared.redis world.shared.db key userId context).2 =
          evaluateFlag past.shared.db key userId context) := by
  have sourced := Traffic.sourced_of_run runs
  have served : Once (World.act trafficStep) Traffic.start acts fun past =>
      Answers past.shared.db key fun userId context =>
        (evaluateFlagCached faults others world.shared.redis world.shared.db key userId context).2 := by
    simp only [evaluateFlagCached_answer]
    cases read : if faults.readFlag then CachedFlag.cold else readFlag world.shared.redis key with
    | hit payload =>
      have hit : world.shared.redis.hget key = some payload := by
        split at read
        · cases read
        · exact readFlag_hit.mp read
      obtain ⟨past, seen, of⟩ := sourced.fields key payload flagField hit
      exact Once.imp (fun state same => by subst same; exact of.answers) seen
    | absent =>
      have absent : world.shared.redis.hget key = none ∧ world.shared.redis.hexists completeField := by
        split at read
        · cases read
        · exact readFlag_absent.mp read
      obtain ⟨past, seen, gone⟩ := sourced.gaps absent.2 key flagField absent.1
      have unknown : Answers past.db key fun _ _ => .ok flagNotFound :=
        .inl fun userId context => by simp [evaluateFlag, getFlag, gone]
      exact Once.imp (fun state same => by subst same; exact unknown) seen
    | cold => exact Once.now runs (.inl fun userId context => rfl)
  refine ⟨served, fun ascending => ?_⟩
  obtain ⟨earlier, past, front, reaches, answers⟩ := served
  refine ⟨earlier, past, front, reaches, answers.of_ascending ?_⟩
  exact Traffic.ascending_of_run (fun action member => ascending action (front.subset member)) reaches

theorem served_answer_committed_lateRename :
    ∃ world : Traffic,
      run (World.act trafficStep) Traffic.start lateRename = some world ∧
      (evaluateFlagCached {} id world.shared.redis world.shared.db (str "checkout") (str "ada") none).2 ≠
        evaluateFlag world.shared.db (str "checkout") (str "ada") none ∧
      Once (World.act trafficStep) Traffic.start lateRename fun past => ∀ userId context,
        (evaluateFlagCached {} id world.shared.redis world.shared.db (str "checkout") userId context).2 =
          evaluateFlag past.shared.db (str "checkout") userId context := by
  obtain ⟨world, runs, stale⟩ := run_reaches (World.act trafficStep) Traffic.start lateRename
    (fun world => (evaluateFlagCached {} id world.shared.redis world.shared.db (str "checkout") (str "ada") none).2 ≠
      evaluateFlag world.shared.db (str "checkout") (str "ada") none) (by decide +kernel)
  exact ⟨world, runs, stale, (served_answer_committed runs (by decide) {} id).2 (by decide +kernel)⟩

end Ripcord
