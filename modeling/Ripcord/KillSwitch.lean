import Ripcord.EngineTotality
import Ripcord.Fleet

namespace Ripcord

open Foundation

/-! A flag that nobody changes any more, while the rest of the service and its SDKs go on. -/

def FleetAct.isNext : FleetAct → Bool
  | .traffic .next => true
  | _ => false

def FleetAct.Plain : FleetAct → Prop
  | .traffic act => act.NoFault ∧ act.RulesAscending
  | _ => True

instance : DecidablePred FleetAct.Plain
  | .traffic act => inferInstanceAs (Decidable (act.NoFault ∧ act.RulesAscending))
  | .refresh | .readRuleset _ | .query _ | .refuse .. | .resume _ | .drop _ => inferInstanceAs (Decidable True)

def FleetAct.Leaves (key : Str) : FleetAct → Prop
  | .traffic (.request sent _) => sent.key ≠ key
  | _ => True

instance (key : Str) : DecidablePred (FleetAct.Leaves key)
  | .traffic (.request sent _) => inferInstanceAs (Decidable (sent.key ≠ key))
  | .traffic (.evaluateFlagCached _) | .traffic .getRuleset | .traffic .next | .traffic (.fault _) | .traffic .lapse
  | .refresh | .readRuleset _ | .query _ | .refuse .. | .resume _ | .drop _ => inferInstanceAs (Decidable True)

/-- The field that the agent is about to write has not been written by a change that committed later. -/
def Agent.InOrder (shared : Shared) : Agent → Prop
  | .server party => ∀ change ∈ party.fieldWrite?, ∀ n ∈ shared.written,
      KeyAt shared.db.audit n change.key → n ≤ change.entry
  | .sdk _ => True

instance (shared : Shared) : DecidablePred (Agent.InOrder shared)
  | .server party => inferInstanceAs (Decidable (∀ change ∈ party.fieldWrite?, ∀ n ∈ shared.written,
      KeyAt shared.db.audit n change.key → n ≤ change.entry))
  | .sdk _ => inferInstanceAs (Decidable True)

def Fleet.Orderly (fleet : Fleet) (action : Nat × FleetAct) : Prop :=
  action.2.Plain ∧ (action.2.isNext → (fleet.parties action.1).InOrder fleet.shared)
  deriving Decidable

def Fleet.Leaves (key : Str) (fleet : Fleet) (action : Nat × FleetAct) : Prop :=
  fleet.Orderly action ∧ action.2.Leaves key
  deriving Decidable

def Agent.Converging (shared : Shared) : Agent → Prop
  | .server party => party.Sound shared ∧ party.Converging shared
  | .sdk _ => True

def Fleet.Converging (fleet : Fleet) : Prop :=
  (fleet.shared.Sound ∧ fleet.shared.Converging) ∧ ∀ who, (fleet.parties who).Converging fleet.shared

section Converging

variable {sdks : Nat → Bool} {fleet next : Fleet} {action : Nat × FleetAct} {acts : List (Nat × FleetAct)}

theorem Agent.Converging.evolves {shared after : Shared} {agent : Agent} (own : agent.Converging shared)
    (evolves : Evolves shared after) : agent.Converging after := by
  cases agent with
  | server party => exact ⟨Party.Sound.evolves own.1 evolves, own.2.evolves evolves.database⟩
  | sdk client => trivial

theorem Fleet.Converging.act (converging : fleet.Converging) (orderly : fleet.Orderly action)
    (acts : World.act fleetStep fleet action = some next) : next.Converging := by
  obtain ⟨⟨sound, common⟩, each⟩ := converging
  obtain ⟨who, act⟩ := action
  apply World.act_invariant (fun shared => shared.Sound ∧ shared.Converging)
    (fun shared (agent : Agent) => agent.Converging shared) acts each
  intro shared agent steps
  have own := each who
  obtain ⟨plain, ordered⟩ := orderly
  rcases fleetStep_cases steps with ⟨party, act, party', here, rfl, rfl, moves⟩ | ⟨client, client', _, rfl, rfl, _⟩
  · rw [here] at own
    simp only [here] at ordered
    have keeps := trafficStep_keeps sound own.1 moves
    obtain ⟨commonAfter, ownAfter⟩ := trafficStep_converging sound own.1 common own.2 plain.1
      (fun request supply same => by subst same; exact plain.2) (fun same => by subst same; exact ordered rfl) moves
    exact ⟨⟨keeps.sound, commonAfter⟩, ⟨keeps.own, ownAfter⟩, fun _ other => other.evolves keeps.evolves⟩
  · exact ⟨⟨sound, common⟩, trivial, fun _ other => other⟩

theorem Fleet.converging_of_run (runs : RunWhere (World.act fleetStep) Fleet.Orderly (Fleet.start sdks) acts fleet) :
    fleet.Converging := by
  refine runs.invariant Fleet.Converging (fun _ _ _ orderly converging acts => converging.act orderly acts) ?_
  refine ⟨⟨Traffic.start_sound.1, Traffic.start_converging.1⟩, fun who => ?_⟩
  show (Agent.start (sdks who)).Converging _
  cases sdks who with
  | true => trivial
  | false => exact ⟨trivial, trivial⟩

end Converging

def FieldsNamed (redis : Redis) : Prop :=
  ∀ key payload, key ≠ completeField → redis.hget key = some payload →
    ∃ flag : Flag, flag.key = key ∧ flagPayload flag = payload

section Reading

variable {db after : Database} {redis : Redis} {key : Str}

theorem Shared.Sourced.fieldsNamed {seen : Set Shared} {shared : Shared} (sourced : shared.Sourced seen) :
    FieldsNamed shared.redis := by
  intro key payload flagField field
  obtain ⟨past, _, of⟩ := sourced.fields key payload flagField field
  cases of with
  | @loaded row stored same =>
    obtain ⟨rfl, _⟩ := Database.row?_valid stored
    exact ⟨row.load, rfl, same.symm⟩
  | @held row updatedAt stored same =>
    obtain ⟨rfl, _⟩ := Database.row?_valid stored
    exact ⟨{ row with updatedAt }, rfl, same.symm⟩

theorem getFlag_spec_of_rowPayload {flag : Flag} (row : rowPayload db key = some (flagPayload flag)) :
    (getFlag db key).map (fun stored => toSpec stored.toFlagOut) = some (toSpec flag.toFlagOut) := by
  obtain ⟨stored, reads, same⟩ := Option.map_eq_some_iff.mp row
  have specs := congrArg specFromPayload same
  rw [specFromPayload_flagPayload, specFromPayload_flagPayload] at specs
  injection specs with specs
  rw [reads, Option.map_some, specs]

theorem FieldsNamed.ruleset (named : FieldsNamed redis) :
    ∃ ruleset : List Flag, (ruleset.map fun flag => (⟨flag.key, flagPayload flag⟩ : Sigma fun _ : Str => Str)) =
      redis.ruleset.entries.filter fun field => field.1 ≠ completeField := by
  have each : ∀ field ∈ redis.ruleset.entries.filter fun field => field.1 ≠ completeField,
      ∃ flag : Flag, (⟨flag.key, flagPayload flag⟩ : Sigma fun _ : Str => Str) = field ∧ True := by
    intro field member
    obtain ⟨stored, other⟩ := List.mem_filter.mp member
    obtain ⟨flag, key, payload⟩ := named field.1 field.2 (by simpa using other) (AList.mem_lookup_iff.mpr stored)
    exact ⟨flag, by rw [key, payload], trivial⟩
  obtain ⟨ruleset, same, _⟩ := exists_map_eq each
  exact ⟨ruleset, same⟩

theorem hget_of_ruleset (flagField : key ≠ completeField) {ruleset : List Flag}
    (listed : (ruleset.map fun flag => (⟨flag.key, flagPayload flag⟩ : Sigma fun _ : Str => Str)) =
      redis.ruleset.entries.filter fun field => field.1 ≠ completeField) :
    redis.hget key = (ruleset.find? fun flag => flag.key = key).map flagPayload := by
  have inside {payload : Str} : redis.hget key = some payload ↔
      ∃ flag ∈ ruleset, flag.key = key ∧ flagPayload flag = payload := by
    have field : redis.hget key = some payload ↔
        Sigma.mk key payload ∈ redis.ruleset.entries.filter fun field => field.1 ≠ completeField := by
      have stored : redis.hget key = some payload ↔ Sigma.mk key payload ∈ redis.ruleset.entries := AList.mem_lookup_iff
      simp [stored, List.mem_filter, flagField]
    rw [field, ← listed, List.mem_map]
    simp only [Sigma.mk.injEq, heq_eq_eq]
  cases found : ruleset.find? fun flag => flag.key = key with
  | none =>
    by_contra stored
    obtain ⟨payload, field⟩ := Option.ne_none_iff_exists'.mp stored
    obtain ⟨flag, there, same, _⟩ := inside.mp field
    exact absurd same (by simpa using List.find?_eq_none.mp found flag there)
  | some flag =>
    exact inside.mpr ⟨flag, List.mem_of_find?_eq_some found, by simpa using List.find?_some found, rfl⟩

theorem warm_agreesOn (named : FieldsNamed redis) (flagField : key ≠ completeField) (settled : Settled db redis key)
    {cached : List Str} (warm : readRuleset redis = some cached) :
    ∃ flags, flagsFromBody (rulesetBody cached) = .ok flags ∧ flags.AgreesOn db key := by
  unfold readRuleset at warm
  split at warm
  · cases warm
  · rename_i present
    cases warm
    have complete : redis.hexists completeField := by simpa using fun absent => present (.inr absent)
    have row : redis.hget key = rowPayload db key := settled.resolve_right fun ⟨_, cold⟩ => by
      rw [cold] at complete
      cases complete
    obtain ⟨ruleset, listed⟩ := named.ruleset
    have distinct : (ruleset.map Flag.key).Nodup := by
      have all : (redis.ruleset.entries.map Sigma.fst).Nodup := redis.ruleset.nodupKeys
      have keys := congrArg (List.map Sigma.fst) listed
      rw [List.map_map] at keys
      exact keys ▸ all.sublist (List.filter_sublist.map _)
    have payloads := congrArg (List.map Sigma.snd) listed
    rw [List.map_map] at payloads
    rw [← payloads]
    refine ⟨_, flagsFromBody_rulesetBody ruleset, ?_⟩
    rw [hget_of_ruleset flagField listed] at row
    rw [SdkFlags.AgreesOn, lookup_dictOf distinct]
    cases found : ruleset.find? fun flag => flag.key = key with
    | none =>
      rw [found] at row
      rw [Option.map_eq_none_iff.mp row.symm]
    | some flag =>
      rw [found] at row
      exact (getFlag_spec_of_rowPayload row.symm).symm

theorem cold_agreesOn (db : Database) (key : Str) :
    ∃ flags, flagsFromBody (rulesetBody (Hash.values (buildRulesetMapping db))) = .ok flags ∧
      flags.AgreesOn db key := by
  obtain ⟨flags, decodes, agrees⟩ := (cold_carries db).decodes
  exact ⟨flags, decodes, agrees key⟩

end Reading

def Agent.Holds (holds : SdkFlags → Prop) : Agent → Prop
  | .server _ => False
  | .sdk client => holds client.flags

def Agent.Loads (holds : SdkFlags → Prop) : Agent → Prop
  | .server _ => True
  | .sdk client => ∀ poll ∈ client.polls, poll.Loads holds

/-- From its last change on, the flag is caught up with and stays as it is. -/
structure Fleet.Rests (sdks : Nat → Bool) (db : Database) (key : Str) (fleet : Fleet) : Prop where
  reached : ∃ acts, RunWhere (World.act fleetStep) Fleet.Orderly (Fleet.start sdks) acts fleet
  caught : Caught fleet.shared key
  row : fleet.shared.db.row? key = db.row? key

theorem Agent.Loads.imp {holds also : SdkFlags → Prop} {agent : Agent} (loads : agent.Loads holds)
    (implied : ∀ flags, holds flags → also flags) : agent.Loads also := by
  cases agent with
  | server party => trivial
  | sdk client => exact fun poll member flags due => implied flags (loads poll member flags due)

theorem Agent.Holds.imp {holds also : SdkFlags → Prop} {agent : Agent} (has : agent.Holds holds)
    (implied : ∀ flags, holds flags → also flags) : agent.Holds also := by
  cases agent with
  | server party => exact has
  | sdk client => exact implied _ has

section Resting

variable {shared after : Shared} {party next : Party} {db : Database} {key : Str} {sdks : Nat → Bool}
  {fleet final : Fleet}

theorem Caught.kept (caught : Caught shared key) (db : after.db = shared.db)
    (written : ∀ n ∈ shared.written, n ∈ after.written) : Caught after key := by
  intro n here
  rw [db] at here ⊢
  obtain ⟨m, member, later, also⟩ := caught n here
  exact ⟨m, written m member, later, also⟩

theorem trafficStep_leaves {act : Act} (sound : shared.Sound) (own : party.Sound shared)
    (leaves : FleetAct.Leaves key (.traffic act)) (caught : Caught shared key)
    (steps : trafficStep shared party act = some (after, next)) :
    Caught after key ∧ after.db.row? key = shared.db.row? key := by
  have written := (trafficStep_keeps sound own steps).evolves.written
  have unchanged : after.db = shared.db → Caught after key ∧ after.db.row? key = shared.db.row? key :=
    fun same => ⟨caught.kept same written, by rw [same]⟩
  cases trafficStep_moves steps with
  | @commits request supply db held commits =>
    have committed := Request.commit_ok commits
    obtain ⟨entry, audit, flagKey, _⟩ := committed.audit
    have other : request.key ≠ key := leaves
    refine ⟨fun n here => ?_, committed.others key (Ne.symm other)⟩
    rcases keyAt_append_singleton.mp (audit ▸ here) with old | ⟨_, changed⟩
    · obtain ⟨m, member, later, also⟩ := caught n old
      exact ⟨m, member, later, audit ▸ also.append [entry]⟩
    · exact absurd (flagKey.symm.trans changed) other
  | writer changes => exact unchanged (Change.next_effect changes).1
  | @raises _ _ _ _ executed _ nexts =>
    cases executed with
    | true => exact unchanged (Party.next_effect nexts).1
    | false => exact unchanged rfl
  | _ => exact unchanged rfl

theorem SdkFlags.AgreesOn.congr {flags : SdkFlags} {other : Database} (agrees : flags.AgreesOn db key)
    (row : other.row? key = db.row? key) : flags.AgreesOn other key := by
  simpa only [SdkFlags.AgreesOn, getFlag, row] using agrees

theorem Fleet.Rests.settled (rests : fleet.Rests sdks db key) (flagField : key ≠ completeField) :
    Settled fleet.shared.db fleet.shared.redis key := by
  obtain ⟨acts, runs⟩ := rests.reached
  exact (Fleet.converging_of_run runs).1.2.settled key flagField rests.caught

theorem Fleet.Rests.fieldsNamed (rests : fleet.Rests sdks db key) : FieldsNamed fleet.shared.redis := by
  obtain ⟨acts, runs⟩ := rests.reached
  exact (Fleet.sourced_of_run runs.run).1.fieldsNamed

theorem Fleet.Rests.act {action : Nat × FleetAct} (rests : fleet.Rests sdks db key)
    (leaves : fleet.Leaves key action) (acts : World.act fleetStep fleet action = some final) :
    final.Rests sdks db key := by
  obtain ⟨⟨actions, runs⟩, caught, row⟩ := rests
  obtain ⟨⟨sound, _⟩, each⟩ := Fleet.converging_of_run runs
  have kept : Caught final.shared key ∧ final.shared.db.row? key = fleet.shared.db.row? key := by
    obtain ⟨who, act⟩ := action
    obtain ⟨shared, agent, steps, rfl⟩ := World.act_cases acts
    have own := each who
    rcases fleetStep_cases steps with ⟨party, act, party', here, rfl, rfl, moves⟩ | ⟨client, client', _, rfl, rfl, _⟩
    · rw [here] at own
      exact trafficStep_leaves sound own.1 leaves.2 caught moves
    · exact ⟨caught, rfl⟩
  exact ⟨⟨_, runs.snoc leaves.1 acts⟩, kept.1, kept.2.trans row⟩

theorem Fleet.Rests.reads (rests : fleet.Rests sdks db key) (flagField : key ≠ completeField) :
    (∀ cached, readRuleset fleet.shared.redis = some cached →
      ∃ flags, flagsFromBody (rulesetBody cached) = .ok flags ∧ flags.AgreesOn db key) ∧
    ∃ flags, flagsFromBody (rulesetBody (Hash.values (buildRulesetMapping fleet.shared.db))) = .ok flags ∧
      flags.AgreesOn db key := by
  have row := rests.row.symm
  constructor
  · intro cached warm
    obtain ⟨flags, decodes, agrees⟩ := warm_agreesOn rests.fieldsNamed flagField (rests.settled flagField) warm
    exact ⟨flags, decodes, agrees.congr row⟩
  · obtain ⟨flags, decodes, agrees⟩ := cold_agreesOn fleet.shared.db key
    exact ⟨flags, decodes, agrees.congr row⟩

theorem Fleet.Rests.loads {action : Nat × FleetAct} {who : Nat} (rests : fleet.Rests sdks db key)
    (flagField : key ≠ completeField) (loads : (fleet.parties who).Loads fun flags => flags.AgreesOn db key)
    (acts : World.act fleetStep fleet action = some final) :
    (final.parties who).Loads (fun flags => flags.AgreesOn db key) ∧
      ((fleet.parties who).Holds (fun flags => flags.AgreesOn db key) →
        (final.parties who).Holds fun flags => flags.AgreesOn db key) := by
  rcases World.act_party acts who with ⟨_, steps⟩ | ⟨_, same⟩
  · rcases fleetStep_cases steps with ⟨party, _, party', here, _, next, _⟩ | ⟨client, client', here, next, _, moves⟩
    · rw [here, next]
      exact ⟨trivial, id⟩
    · rw [here] at loads ⊢
      rw [next]
      obtain ⟨warm, cold⟩ := rests.reads flagField
      exact SdkClient.next_loads warm cold loads moves
  · rw [same]
    exact ⟨loads, id⟩

theorem Fleet.Rests.loads_of_run {acts : List (Nat × FleetAct)} {who : Nat} (rests : fleet.Rests sdks db key)
    (flagField : key ≠ completeField) (loads : (fleet.parties who).Loads fun flags => flags.AgreesOn db key)
    (runs : RunWhere (World.act fleetStep) (Fleet.Leaves key) fleet acts final) :
    final.Rests sdks db key ∧ (final.parties who).Loads (fun flags => flags.AgreesOn db key) ∧
      ((fleet.parties who).Holds (fun flags => flags.AgreesOn db key) →
        (final.parties who).Holds fun flags => flags.AgreesOn db key) := by
  induction runs with
  | nil => exact ⟨rests, loads, id⟩
  | cons leaves acts _ ih =>
    obtain ⟨loadsNext, holdsNext⟩ := rests.loads flagField loads acts
    obtain ⟨restsLast, loadsLast, holdsLast⟩ := ih (rests.act leaves acts) loadsNext
    exact ⟨restsLast, loadsLast, fun holds => holdsLast (holdsNext holds)⟩

end Resting

def switchOff : FlagUpdate := ⟨{ enabled := .value false, version := 1 }, by decide +kernel⟩

/-- A flag is created and loaded by an SDK, and then switched off; the cache has been told. -/
def switchedOff : List (Nat × FleetAct) :=
  [(1, .traffic (.request (.create checkoutCreate (str "ops")) firstSupply)), (1, .traffic .next), (1, .traffic .next),
    (1, .traffic .next), (0, .refresh), (0, .readRuleset 0), (0, .query 0), (0, .resume 0),
    (2, .traffic (.request (.update (str "checkout") switchOff (str "ops")) firstSupply)), (2, .traffic .next),
    (2, .traffic .next), (2, .traffic .next)]

def elsewhere : List (Nat × FleetAct) :=
  [(3, .traffic .getRuleset), (3, .traffic .next), (3, .traffic .next),
    (4, .traffic (.request (.create searchCreate (str "ops")) (supplyOf 2))), (4, .traffic .next),
    (3, .traffic .next), (4, .traffic .next), (3, .traffic .next), (4, .traffic .next)]

theorem isEnabled_of_disabled {db : Database} {key : Str} {flags : SdkFlags} {row : Flag}
    (agrees : flags.AgreesOn db key) (stored : db.row? key = some row) (off : row.enabled = false) (userId : Str)
    (context : Option Context) (default : Bool) : flags.isEnabled key userId context default = .ok false := by
  rw [SdkFlags.AgreesOn, getFlag, stored] at agrees
  have spec : flags.lookup key = some (toSpec row.load.toFlagOut) := agrees
  have disabled : (toSpec row.load.toFlagOut).enabled = false := off
  have excluded : evaluateFloat (toSpec row.load.toFlagOut) userId context =
      .ok (offResult (toSpec row.load.toFlagOut) .flagDisabled) := by
    unfold evaluateFloat evaluateWith
    simp [disabled]
  have result : (offResult (toSpec row.load.toFlagOut) .flagDisabled).enabled = false := by
    unfold offResult
    split <;> rfl
  rw [SdkFlags.isEnabled, spec]
  show (evaluateFloat (toSpec row.load.toFlagOut) userId context).map Evaluation.enabled = _
  rw [excluded, Except.map, result]

theorem SdkClient.resume_flags {shared : Shared} {client next : SdkClient} {i : Nat} {loaded : SdkFlags}
    (due : client.polls[i]?.bind Poll.due? = some loaded) (steps : client.next shared (.resume i) = some next) :
    next.flags = loaded ∧ ∃ poll ∈ client.polls, poll.due? = some loaded := by
  obtain ⟨poll, here, installs⟩ := Option.bind_eq_some_iff.mp due
  simp only [SdkClient.next, here] at steps
  split at steps <;> cases steps
  rename_i response answered
  cases answered
  exact ⟨by simp [show response.flags? = some loaded from installs], _, List.mem_of_getElem? here, installs⟩

/-- An SDK with nothing stale on its way that has installed any response since the last change of a flag was
    announced evaluates the flag as its row is, and goes on doing so while nobody changes the flag. A flag that
    was switched off is off for every user, whatever default the caller passes. -/
theorem kill_switch {sdks : Nat → Bool} {acts before after : List (Nat × FleetAct)} {caughtUp polled fleet : Fleet}
    {key : Str} {who i : Nat} {client : SdkClient} {loaded : SdkFlags}
    (runs : RunWhere (World.act fleetStep) Fleet.Orderly (Fleet.start sdks) acts caughtUp)
    (flagField : key ≠ completeField) (caught : Caught caughtUp.shared key)
    (nothingDue : (caughtUp.parties who).Loads fun _ => False)
    (continues : RunWhere (World.act fleetStep) (Fleet.Leaves key) caughtUp before polled)
    (polls : polled.parties who = .sdk client) (due : client.polls[i]?.bind Poll.due? = some loaded)
    (installs : RunWhere (World.act fleetStep) (Fleet.Leaves key) polled ((who, .resume i) :: after) fleet) :
    (fleet.parties who).Holds fun flags =>
      (∀ userId context, flags.evaluate key userId context = evaluateFlag caughtUp.shared.db key userId context) ∧
      ∀ row, caughtUp.shared.db.row? key = some row → row.enabled = false →
        ∀ userId context default, flags.isEnabled key userId context default = .ok false := by
  have start : caughtUp.Rests sdks caughtUp.shared.db key := ⟨⟨acts, runs⟩, caught, rfl⟩
  obtain ⟨rests, loads, _⟩ := start.loads_of_run flagField (nothingDue.imp fun flags never => never.elim) continues
  cases installs with
  | @cons _ installed _ _ _ leaves resumes goesOn =>
    obtain ⟨loadsNext, _⟩ := rests.loads flagField loads resumes
    have holds : (installed.parties who).Holds fun flags => flags.AgreesOn caughtUp.shared.db key := by
      obtain ⟨_, steps⟩ := (World.act_party resumes who).resolve_right fun ⟨elsewhere, _⟩ => elsewhere rfl
      rw [polls] at steps loads
      obtain ⟨next, moves, same⟩ := Option.map_eq_some_iff.mp steps
      obtain ⟨flags, poll, member, installs⟩ := SdkClient.resume_flags due moves
      rw [← (Prod.mk.inj same).2]
      show next.flags.AgreesOn _ _
      rw [flags]
      exact loads poll member loaded installs
    obtain ⟨_, _, kept⟩ := (rests.act leaves resumes).loads_of_run flagField loadsNext goesOn
    refine (kept holds).imp fun flags agrees => ⟨agrees.evaluate, fun row stored off => ?_⟩
    exact isEnabled_of_disabled agrees stored off

def pollAgain : List (Nat × FleetAct) := [(0, .refresh), (0, .readRuleset 0), (0, .query 0)]

theorem kill_switch_checkout :
    ∃ (caughtUp polled fleet : Fleet) (client : SdkClient),
      RunWhere (World.act fleetStep) Fleet.Orderly (Fleet.start fun who => who = 0) switchedOff caughtUp ∧
      RunWhere (World.act fleetStep) (Fleet.Leaves (str "checkout")) caughtUp pollAgain polled ∧
      RunWhere (World.act fleetStep) (Fleet.Leaves (str "checkout")) polled [(0, .resume 0), (2, .traffic .next)]
        fleet ∧
      (caughtUp.parties 0).Holds (fun flags =>
        (flags.isEnabled (str "checkout") (str "ada") none false).toOption = some true) ∧
      fleet.parties 0 = .sdk client ∧
      client.flags.isEnabled (str "checkout") (str "ada") none true = .ok false := by
  obtain ⟨caughtUp, runs, written, off, ⟨client, here, idle, on⟩, goesOn⟩ := runWhere_reaches (World.act fleetStep)
    Fleet.Orderly (Fleet.start fun who => who = 0) switchedOff
    (fun fleet => (∀ n < fleet.shared.db.audit.length, n ∈ fleet.shared.written) ∧
      ((fleet.shared.db.row? (str "checkout")).map Flag.enabled) = some false ∧
      (∃ client ∈ (fleet.parties 0).sdk?, client.polls.isEmpty ∧
        (client.flags.isEnabled (str "checkout") (str "ada") none false).toOption = some true) ∧
      (guardedRun (World.act fleetStep) (Fleet.Leaves (str "checkout")) fleet pollAgain).any fun polled =>
        ((polled.parties 0).sdk?.bind fun client => client.polls[0]?.bind Poll.due?).isSome ∧
        (guardedRun (World.act fleetStep) (Fleet.Leaves (str "checkout")) polled
          [(0, .resume 0), (2, .traffic .next)]).isSome)
    (by decide +kernel)
  obtain ⟨polled, polling, reached⟩ := (Option.any_eq_true _ _).mp goesOn
  obtain ⟨waits, resumes⟩ := of_decide_eq_true reached
  obtain ⟨fleet, installing⟩ := Option.isSome_iff_exists.mp resumes
  obtain ⟨loaded, due⟩ := Option.isSome_iff_exists.mp waits
  obtain ⟨waiting, party, due⟩ := Option.bind_eq_some_iff.mp due
  obtain ⟨row, stored, disabled⟩ := Option.map_eq_some_iff.mp off
  have caught : Caught caughtUp.shared (str "checkout") := fun n here => ⟨n, written n here.lt, Nat.le_refl n, here⟩
  have nothingDue : (caughtUp.parties 0).Loads fun _ => False := by
    rw [Agent.sdk?_eq_some here]
    intro poll member
    rw [List.isEmpty_iff.mp idle] at member
    cases member
  have holds := kill_switch runs (by decide) caught nothingDue (guardedRun_eq_some.mp polling)
    (Agent.sdk?_eq_some party) due (guardedRun_eq_some.mp installing)
  cases ends : fleet.parties 0 with
  | server party =>
    rw [ends] at holds
    cases holds
  | sdk final =>
    rw [ends] at holds
    refine ⟨caughtUp, polled, fleet, final, runs, guardedRun_eq_some.mp polling, guardedRun_eq_some.mp installing, ?_,
      ends, holds.2 row stored disabled (str "ada") none true⟩
    rw [Agent.sdk?_eq_some here]
    exact on

end Ripcord
