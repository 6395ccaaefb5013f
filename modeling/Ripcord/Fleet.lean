import Ripcord.Provenance
import Ripcord.RulesetEndpoint
import Ripcord.SdkRefresh

namespace Ripcord

open Foundation

/-! The service with the SDKs that poll it. -/

/-- A `refresh` with the `get_ruleset` that serves it, up to its answer; what that handler then publishes are
    steps of a reader of the traffic. -/
inductive Poll
  | requested
  | cold
  | answered (response : Response)

structure SdkClient where
  flags : SdkFlags
  polls : List Poll

inductive Agent
  | server (party : Party)
  | sdk (client : SdkClient)

inductive FleetAct
  | traffic (act : Act)
  | refresh
  | readRuleset (poll : Nat)
  /-- The three SELECTs of the handler, with no commit between them. -/
  | query (poll : Nat)
  /-- The handler raises, or something on the way refuses. -/
  | refuse (poll status : Nat) (body : Str)
  | resume (poll : Nat)
  | drop (poll : Nat)

def SdkClient.answer (client : SdkClient) (poll : Nat) (payloads : List Str) : SdkClient :=
  { client with polls := client.polls.set poll (.answered ⟨200, rulesetBody payloads⟩) }

def SdkClient.next (shared : Shared) (client : SdkClient) : FleetAct → Option SdkClient
  | .traffic _ => none
  | .refresh => some { client with polls := client.polls ++ [.requested] }
  | .readRuleset poll =>
    match client.polls[poll]? with
    | some .requested =>
      match readRuleset shared.redis with
      | some cached => some (client.answer poll cached)
      | none => some { client with polls := client.polls.set poll .cold }
    | _ => none
  | .query poll =>
    match client.polls[poll]? with
    | some .cold => some (client.answer poll (Hash.values (buildRulesetMapping shared.db)))
    | _ => none
  | .refuse poll status body =>
    if poll < client.polls.length ∧ (status < 200 ∨ 300 ≤ status) then
      some { client with polls := client.polls.set poll (.answered ⟨status, body⟩) }
    else none
  | .resume poll =>
    match client.polls[poll]? with
    | some (.answered response) =>
      some { flags := response.flags?.getD client.flags, polls := client.polls.eraseIdx poll }
    | _ => none
  | .drop poll =>
    if poll < client.polls.length then some { client with polls := client.polls.eraseIdx poll } else none

def fleetStep (shared : Shared) : Agent → FleetAct → Option (Shared × Agent)
  | .server party, .traffic act =>
    (trafficStep shared party act).map fun (after, party) => (after, .server party)
  | .server _, _ => none
  | .sdk client, act => (client.next shared act).map fun client => (shared, .sdk client)

abbrev Fleet := World Shared Agent

def Agent.start (isSdk : Bool) : Agent := if isSdk then .sdk ⟨∅, []⟩ else .server .idle

def Fleet.start (sdks : Nat → Bool) : Fleet := ⟨Traffic.start.shared, fun who => .start (sdks who)⟩

/-- The spec is that of the key's row, as `/ruleset` carries it. -/
inductive SpecOf (db : Database) (key : Str) (spec : FlagSpec) : Prop
  | loaded {row : Flag} (stored : db.row? key = some row) (same : spec = toSpec row.load.toFlagOut)
  | held {row : Flag} (stored : db.row? key = some row) (same : spec = toSpec row.toFlagOut)

def Agent.sdk? : Agent → Option SdkClient
  | .sdk client => some client
  | .server _ => none

theorem Agent.sdk?_eq_some {agent : Agent} {client : SdkClient} (here : agent.sdk? = some client) :
    agent = .sdk client := by
  cases agent with
  | sdk own => rw [Option.some.inj here]
  | server party => cases here

def FlagsSourced (seen : Set Shared) (flags : SdkFlags) : Prop :=
  ∀ key spec, flags.lookup key = some spec → ∃ past ∈ seen, SpecOf past.db key spec

def Poll.due? : Poll → Option SdkFlags
  | .answered response => response.flags?
  | _ => none

def Poll.Loads (holds : SdkFlags → Prop) (poll : Poll) : Prop := ∀ flags ∈ poll.due?, holds flags

structure SdkClient.Sourced (seen : Set Shared) (client : SdkClient) : Prop where
  flags : FlagsSourced seen client.flags
  polls : ∀ poll ∈ client.polls, poll.Loads (FlagsSourced seen)

def Agent.Sourced (seen : Set Shared) : Agent → Prop
  | .server party => party.Sourced seen
  | .sdk client => client.Sourced seen

section Bodies

variable {db : Database} {key : Str} {seen : Set Shared}

theorem SpecOf.answers {spec : FlagSpec} (of : SpecOf db key spec) : Answers db key (evaluate spec) := by
  cases of with
  | @loaded row stored same =>
    left
    intro userId context
    have distinct := (Database.row?_valid stored).2.1
    rw [same, evaluate_toFlagOut _ (db.valid.rowsValid row distinct).load_variants, evaluateFlag, getFlag, stored]
    rfl
  | @held row stored same =>
    right
    have distinct := (Database.row?_valid stored).2.2
    exact ⟨row, stored, fun userId context => same ▸ evaluate_toFlagOut _ distinct userId context⟩

theorem PayloadOf.flag {payload : Str} (of : PayloadOf db key payload) :
    ∃ flag : Flag, flagPayload flag = payload ∧ SpecOf db flag.key (toSpec flag.toFlagOut) := by
  cases of with
  | @loaded row stored same =>
    obtain ⟨rfl, _⟩ := Database.row?_valid stored
    exact ⟨row.load, same.symm, .loaded stored rfl⟩
  | @held row updatedAt stored same =>
    obtain ⟨rfl, _⟩ := Database.row?_valid stored
    exact ⟨{ row with updatedAt }, same.symm, .held stored rfl⟩

theorem flagsFromBody_rulesetBody (ruleset : List Flag) :
    flagsFromBody (rulesetBody (ruleset.map flagPayload)) =
      .ok (dictOf Flag.key (fun flag => toSpec flag.toFlagOut) ruleset) := by
  have folds : ∀ flags : SdkFlags, (ruleset.map fun flag => flag.toFlagOut.toJson).foldlM (fun flags item => do
      let key ← asText (← getItem "key" item)
      let spec ← specFromJson item
      Except.ok (flags.insert key spec)) flags =
      .ok (ruleset.foldl (fun flags flag => flags.insert flag.key (toSpec flag.toFlagOut)) flags) := by
    induction ruleset with
    | nil => exact fun flags => rfl
    | cons flag rest ih =>
      intro flags
      rw [List.map_cons, List.foldlM_cons, getItem_key, specFromJson_toJson]
      exact ih _
  rw [flagsFromBody, loads_rulesetBody]
  exact folds ∅

theorem flagsFromBody_sourced {payloads : List Str}
    (each : ∀ payload ∈ payloads, ∃ key, ∃ past ∈ seen, PayloadOf past.db key payload) :
    ∃ flags, flagsFromBody (rulesetBody payloads) = .ok flags ∧ FlagsSourced seen flags := by
  have decoded : ∀ payload ∈ payloads, ∃ flag, flagPayload flag = payload ∧
      ∃ past ∈ seen, SpecOf past.db flag.key (toSpec flag.toFlagOut) := by
    intro payload member
    obtain ⟨key, past, there, of⟩ := each payload member
    obtain ⟨flag, same, source⟩ := of.flag
    exact ⟨flag, same, past, there, source⟩
  obtain ⟨ruleset, rfl, sources⟩ := exists_map_eq decoded
  refine ⟨_, flagsFromBody_rulesetBody ruleset, fun key spec found => ?_⟩
  obtain ⟨flag, member, rfl, rfl⟩ := lookup_dictOf_mem found
  exact sources flag member

end Bodies

section Steps

variable {seen wider : Set Shared} {shared after : Shared}

theorem FlagsSourced.mono {flags : SdkFlags} (more : ∀ past ∈ seen, past ∈ wider) (sourced : FlagsSourced seen flags) :
    FlagsSourced wider flags := fun key spec found => exists_seen_mono more (sourced key spec found)

theorem Agent.Sourced.mono {agent : Agent} (more : ∀ past ∈ seen, past ∈ wider) (sourced : agent.Sourced seen) :
    agent.Sourced wider := by
  cases agent with
  | server party => exact Party.Sourced.mono more sourced
  | sdk client =>
    exact ⟨sourced.flags.mono more, fun poll member flags due => (sourced.polls poll member flags due).mono more⟩

theorem SdkClient.set_loads {holds : SdkFlags → Prop} {client : SdkClient}
    (polls : ∀ poll ∈ client.polls, poll.Loads holds) (i : Nat) {poll : Poll} (here : poll.Loads holds) :
    ∀ other ∈ client.polls.set i poll, other.Loads holds := by
  intro other member
  rcases List.mem_or_eq_of_mem_set member with old | rfl
  · exact polls other old
  · exact here

theorem SdkClient.answer_loads {holds : SdkFlags → Prop} {client : SdkClient}
    (polls : ∀ poll ∈ client.polls, poll.Loads holds) (i : Nat) {payloads : List Str}
    (reads : ∃ flags, flagsFromBody (rulesetBody payloads) = .ok flags ∧ holds flags) :
    ∀ poll ∈ (client.answer i payloads).polls, poll.Loads holds := by
  obtain ⟨decoded, decodes, known⟩ := reads
  refine SdkClient.set_loads polls i fun flags installs => ?_
  rw [Option.mem_def, Poll.due?, Response.flags?, decodes] at installs
  cases installs
  exact known

theorem SdkClient.next_loads {holds : SdkFlags → Prop} {client next : SdkClient} {act : FleetAct}
    (warm : ∀ cached, readRuleset shared.redis = some cached →
      ∃ flags, flagsFromBody (rulesetBody cached) = .ok flags ∧ holds flags)
    (cold : ∃ flags, flagsFromBody (rulesetBody (Hash.values (buildRulesetMapping shared.db))) = .ok flags ∧
      holds flags)
    (polls : ∀ poll ∈ client.polls, poll.Loads holds) (steps : client.next shared act = some next) :
    (∀ poll ∈ next.polls, poll.Loads holds) ∧ (holds client.flags → holds next.flags) := by
  cases act with
  | traffic => cases steps
  | refresh =>
    cases steps
    refine ⟨fun poll member => ?_, id⟩
    rcases List.mem_append.mp member with old | new
    · exact polls poll old
    · cases List.mem_singleton.mp new
      exact fun flags none => by cases none
  | readRuleset poll =>
    simp only [SdkClient.next] at steps
    split at steps
    · split at steps <;> cases steps
      · rename_i cached read
        exact ⟨SdkClient.answer_loads polls poll (warm cached read), id⟩
      · exact ⟨SdkClient.set_loads polls poll (fun flags none => by cases none), id⟩
    · cases steps
  | query poll =>
    simp only [SdkClient.next] at steps
    split at steps <;> cases steps
    exact ⟨SdkClient.answer_loads polls poll cold, id⟩
  | refuse poll status body =>
    simp only [SdkClient.next] at steps
    split at steps <;> cases steps
    rename_i refused
    refine ⟨SdkClient.set_loads polls poll fun flags installs => ?_, id⟩
    rw [Option.mem_def, Poll.due?, Response.flags?] at installs
    split at installs
    · cases installs
    · rw [if_pos refused.2] at installs
      cases installs
  | resume poll =>
    simp only [SdkClient.next] at steps
    split at steps <;> cases steps
    rename_i response answered
    refine ⟨fun other member => polls other (List.mem_of_mem_eraseIdx member), fun before => ?_⟩
    have loaded : ∀ flags ∈ response.flags?, holds flags := polls _ (List.mem_of_getElem? answered)
    cases installs : response.flags? with
    | none => exact before
    | some flags => exact loaded flags installs
  | drop poll =>
    simp only [SdkClient.next] at steps
    split at steps <;> cases steps
    exact ⟨fun other member => polls other (List.mem_of_mem_eraseIdx member), id⟩

theorem Shared.Sourced.readRuleset (sourced : shared.Sourced seen) {cached : List Str}
    (warm : readRuleset shared.redis = some cached) :
    ∀ payload ∈ cached, ∃ key, ∃ past ∈ seen, PayloadOf past.db key payload := by
  unfold Ripcord.readRuleset at warm
  split at warm
  · cases warm
  · cases warm
    intro payload member
    obtain ⟨field, kept, rfl⟩ := List.mem_map.mp member
    obtain ⟨stored, flagField⟩ := List.mem_filter.mp kept
    exact ⟨field.1, sourced.fields field.1 field.2 (by simpa using flagField) (AList.mem_lookup_iff.mpr stored)⟩

theorem query_sourced (here : shared ∈ seen) :
    ∀ payload ∈ Hash.values (buildRulesetMapping shared.db),
      ∃ key, ∃ past ∈ seen, PayloadOf past.db key payload := by
  intro payload member
  obtain ⟨field, listed, rfl⟩ := List.mem_map.mp member
  have stored := AList.mem_lookup_iff.mpr (List.mem_reverse.mp listed)
  rw [lookup_buildRulesetMapping, rowPayload, getFlag, Option.map_map] at stored
  obtain ⟨row, found, same⟩ := Option.map_eq_some_iff.mp stored
  exact ⟨field.1, shared, here, .loaded found same.symm⟩

theorem SdkClient.next_sourced {client next : SdkClient} {act : FleetAct} (here : shared ∈ seen)
    (sourced : shared.Sourced seen) (own : client.Sourced seen) (steps : client.next shared act = some next) :
    next.Sourced seen := by
  obtain ⟨polls, flags⟩ := SdkClient.next_loads
    (fun cached warm => flagsFromBody_sourced (sourced.readRuleset warm)) (flagsFromBody_sourced (query_sourced here))
    own.polls steps
  exact ⟨flags own.flags, polls⟩

theorem fleetStep_cases {agent next : Agent} {act : FleetAct}
    (steps : fleetStep shared agent act = some (after, next)) :
    (∃ party act' party', agent = .server party ∧ act = .traffic act' ∧ next = .server party' ∧
      trafficStep shared party act' = some (after, party')) ∨
    ∃ client client', agent = .sdk client ∧ next = .sdk client' ∧ after = shared ∧
      client.next shared act = some client' := by
  cases agent with
  | server party =>
    cases act with
    | traffic act =>
      obtain ⟨⟨after, party'⟩, moves, same⟩ := Option.map_eq_some_iff.mp steps
      cases same
      exact .inl ⟨party, act, party', rfl, rfl, rfl, moves⟩
    | _ => cases steps
  | sdk client =>
    obtain ⟨client', moves, same⟩ := Option.map_eq_some_iff.mp steps
    cases same
    exact .inr ⟨client, client', rfl, rfl, rfl, moves⟩

theorem Fleet.sourced_of_run {sdks : Nat → Bool} {fleet : Fleet} {acts : List (Nat × FleetAct)}
    (runs : run (World.act fleetStep) (Fleet.start sdks) acts = some fleet) :
    fleet.shared.Sourced (World.Seen fleetStep (Fleet.start sdks) acts) ∧
      ∀ who, (fleet.parties who).Sourced (World.Seen fleetStep (Fleet.start sdks) acts) := by
  have opens : ∀ seen, (Fleet.start sdks).shared.Sourced seen := Traffic.start_sourced
  refine World.run_seen (fun seen shared => Shared.Sourced seen shared) (fun seen (agent : Agent) => agent.Sourced seen)
    (fun _ => True) (fun _ _ _ more sourced => sourced.mono more) (fun _ _ _ more own => own.mono more) ?_
    (fun _ _ => trivial) opens ?_ runs
  · intro seen shared agent act after next here last _ sourced own steps
    rcases fleetStep_cases steps with ⟨party, act, party', rfl, rfl, rfl, moves⟩ |
      ⟨client, client', rfl, rfl, rfl, moves⟩
    · exact trafficStep_sourced here last sourced own moves
    · exact ⟨sourced, SdkClient.next_sourced here sourced own moves⟩
  · intro seen who
    show (Agent.start (sdks who)).Sourced seen
    cases sdks who with
    | true =>
      refine ⟨fun key spec absent => ?_, fun poll absent => ?_⟩
      · cases absent
      · cases absent
    | false => trivial

end Steps

/-- An SDK never evaluates a flag that was not stored as it holds it: there is one database of the run with that
    flag, and the SDK answers every user and context as that database would. -/
theorem sdk_answer_committed {sdks : Nat → Bool} {fleet : Fleet} {acts : List (Nat × FleetAct)}
    (runs : run (World.act fleetStep) (Fleet.start sdks) acts = some fleet) {who : Nat} {client : SdkClient}
    (polls : fleet.parties who = .sdk client) {key : Str} {spec : FlagSpec}
    (holds : client.flags.lookup key = some spec) :
    Once (World.act fleetStep) (Fleet.start sdks) acts fun past =>
      SpecOf past.shared.db key spec ∧ Answers past.shared.db key (evaluate spec) := by
  have sourced := (Fleet.sourced_of_run runs).2 who
  rw [polls] at sourced
  obtain ⟨past, seen, of⟩ := SdkClient.Sourced.flags sourced key spec holds
  exact Once.imp (fun state same => by subst same; exact ⟨of, of.answers⟩) seen

/-- An SDK is created and loads a flag from a cold cache; the flag is killed, and the SDK has yet to hear of it. -/
def lateSdk : List (Nat × FleetAct) :=
  [(1, .traffic (.request (.create checkoutCreate (str "ops")) firstSupply)), (0, .refresh), (0, .readRuleset 0),
    (0, .query 0), (0, .resume 0), (2, .traffic (.request (.delete (str "checkout") (str "ops")) firstSupply))]

theorem sdk_answer_committed_lateSdk :
    ∃ (fleet : Fleet) (client : SdkClient) (spec : FlagSpec),
      run (World.act fleetStep) (Fleet.start fun who => who = 0) lateSdk = some fleet ∧
      fleet.parties 0 = .sdk client ∧ client.flags.lookup (str "checkout") = some spec ∧
      getFlag fleet.shared.db (str "checkout") = none ∧
      Once (World.act fleetStep) (Fleet.start fun who => who = 0) lateSdk fun past =>
        SpecOf past.shared.db (str "checkout") spec ∧ Answers past.shared.db (str "checkout") (evaluate spec) := by
  obtain ⟨fleet, runs, loaded, gone⟩ := run_reaches (World.act fleetStep) (Fleet.start fun who => who = 0) lateSdk
    (fun fleet => ((fleet.parties 0).sdk?.bind fun client => client.flags.lookup (str "checkout")).isSome ∧
      getFlag fleet.shared.db (str "checkout") = none) (by decide +kernel)
  obtain ⟨spec, found⟩ := Option.isSome_iff_exists.mp loaded
  obtain ⟨client, here, holds⟩ := Option.bind_eq_some_iff.mp found
  have polls := Agent.sdk?_eq_some here
  exact ⟨fleet, client, spec, runs, polls, holds, gone, sdk_answer_committed runs polls holds⟩

section Agreement

variable {db : Database} {body : Str}

/-- What the SDK answers for a key: the default of `evaluate_flag` when it holds no such flag. -/
def SdkFlags.evaluate (flags : SdkFlags) (key userId : Str) (context : Option Context) : Except PyError Evaluation :=
  match flags.lookup key with
  | none => .ok flagNotFound
  | some spec => Ripcord.evaluate spec userId context

def SdkFlags.AgreesOn (db : Database) (key : Str) (flags : SdkFlags) : Prop :=
  flags.lookup key = (getFlag db key).map fun flag => toSpec flag.toFlagOut

theorem Carries.ruleset (carries : Carries body (buildRulesetMapping db)) :
    ∃ ruleset : List Flag, loads body = loads (rulesetBody (ruleset.map flagPayload)) ∧
      (ruleset.map Flag.key).Nodup ∧ (∀ flag ∈ ruleset, getFlag db flag.key = some flag) ∧
      ∀ key flag, getFlag db key = some flag → key ∈ ruleset.map Flag.key := by
  obtain ⟨items, keys, parses, named, distinct, entries⟩ := carries
  simp only [lookup_buildRulesetMapping] at entries
  have listed : ∃ ruleset : List Flag, ruleset.map (fun flag => flag.toFlagOut.toJson) = items ∧
      ruleset.map Flag.key = keys ∧ ∀ flag ∈ ruleset, getFlag db flag.key = some flag := by
    have each : ∀ key item, (key, item) ∈ keys.zip items → ∃ flag : Flag, flag.key = key ∧
        flag.toFlagOut.toJson = item ∧ getFlag db flag.key = some flag := by
      intro key item member
      obtain ⟨payload, stored, decodes⟩ := (entries key item).mp member
      obtain ⟨flag, reads, rfl⟩ := Option.map_eq_some_iff.mp stored
      obtain ⟨row, _, rfl, _, rfl⟩ := getFlag_spec reads
      rw [loads_flagPayload] at decodes
      cases decodes
      exact ⟨row.load, rfl, rfl, reads⟩
    clear entries parses distinct
    have sameLength : items.length = keys.length := by simpa using congrArg List.length named
    clear named
    induction keys generalizing items with
    | nil => exact ⟨[], (List.eq_nil_of_length_eq_zero sameLength).symm, rfl, fun flag none => by cases none⟩
    | cons key keys ih =>
      obtain ⟨item, items, rfl⟩ := List.exists_cons_of_length_eq_add_one sameLength
      obtain ⟨ruleset, rfl, rfl, stored⟩ := ih items
        (fun key item member => each key item (List.mem_cons_of_mem _ member)) (by simpa using sameLength)
      obtain ⟨flag, rfl, rfl, reads⟩ := each key item List.mem_cons_self
      exact ⟨flag :: ruleset, rfl, rfl, List.forall_mem_cons.mpr ⟨reads, stored⟩⟩
  obtain ⟨ruleset, rfl, rfl, stored⟩ := listed
  refine ⟨ruleset, by rw [parses, loads_rulesetBody], distinct, stored, fun key flag reads => ?_⟩
  have row : rowPayload db key = some (flagPayload flag) := by rw [rowPayload, reads]; rfl
  have member := (entries key flag.toFlagOut.toJson).mpr ⟨_, row, loads_flagPayload flag⟩
  exact (List.of_mem_zip member).1

theorem Carries.decodes (carries : Carries body (buildRulesetMapping db)) :
    ∃ flags, flagsFromBody body = .ok flags ∧ ∀ key, flags.AgreesOn db key := by
  obtain ⟨ruleset, same, distinct, stored, complete⟩ := carries.ruleset
  refine ⟨dictOf Flag.key (fun flag => toSpec flag.toFlagOut) ruleset, ?_, fun key => ?_⟩
  · have decodes := flagsFromBody_rulesetBody ruleset
    unfold flagsFromBody at decodes ⊢
    rw [same]
    exact decodes
  · rw [SdkFlags.AgreesOn, lookup_dictOf distinct]
    cases found : ruleset.find? fun flag => flag.key = key with
    | none =>
      cases reads : getFlag db key with
      | none => rfl
      | some flag =>
        obtain ⟨other, member, named⟩ := List.mem_map.mp (complete key flag reads)
        have missed := List.find?_eq_none.mp found other member
        exact absurd named (by simpa using missed)
    | some flag =>
      have named : flag.key = key := by simpa using List.find?_some found
      have reads := stored flag (List.mem_of_find?_eq_some found)
      rw [named] at reads
      rw [reads]

theorem SdkFlags.AgreesOn.evaluate {flags : SdkFlags} {key : Str} (agrees : flags.AgreesOn db key) (userId : Str)
    (context : Option Context) : flags.evaluate key userId context = evaluateFlag db key userId context := by
  rw [SdkFlags.evaluate, agrees, evaluateFlag]
  cases reads : getFlag db key with
  | none => rfl
  | some flag =>
    obtain ⟨row, _, _, valid, rfl⟩ := getFlag_spec reads
    exact evaluate_toFlagOut row.load valid.load_variants userId context

end Agreement

theorem consistent_of_settled {db : Database} {redis : Redis}
    (settled : ∀ key, key ≠ completeField → Settled db redis key) : Consistent db redis := by
  constructor
  · intro key payload flagField field
    have same := (settled key flagField).resolve_right fun ⟨gone, _⟩ => by
      rw [gone] at field
      cases field
    rw [← same, field]
  · intro complete key flagField missing
    have same := (settled key flagField).resolve_right fun ⟨_, cold⟩ => by
      rw [cold] at complete
      cases complete
    rw [← same, missing]

/-- Once every change has finished its notification, whatever `/ruleset` answers makes an SDK that installs it
    answer as the database does, for every key, user and context. -/
theorem refreshed_sdk_agrees {world : Traffic} {acts : List (Nat × Act)}
    (runs : RunWhere (World.act trafficStep) (fun world action => action.2.NoFault ∧ Orderly world action)
      Traffic.start acts world)
    (finished : ∀ n < world.shared.db.audit.length, n ∈ world.shared.completed) (faults : RulesetFaults)
    (others : Redis → Redis) {body : Str}
    (answers : (getRuleset faults others world.shared.redis world.shared.db).2 = .ok body) :
    ∃ flags, flagsFromBody body = .ok flags ∧ ∀ key userId context,
      flags.evaluate key userId context = evaluateFlag world.shared.db key userId context := by
  obtain ⟨sound, converging⟩ := Traffic.converging_of_run runs
  have keys := converging.1.keys
  have caught : ∀ key, Caught world.shared key :=
    fun key n here => ⟨n, sound.1.completed n (finished n here.lt), Nat.le_refl n, here⟩
  have consistent : Consistent world.shared.db world.shared.redis :=
    consistent_of_settled fun key flagField => converging.1.settled key flagField (caught key)
  have carries : Carries body (buildRulesetMapping world.shared.db) := by
    unfold getRuleset at answers
    split at answers
    · cases answers
    · split at answers
      · rename_i warm
        cases answers
        exact warm_carries keys consistent warm
      · split at answers
        · cases answers
        · split at answers
          · cases answers
          · cases answers
            exact cold_carries _
  obtain ⟨flags, decodes, agrees⟩ := carries.decodes
  exact ⟨flags, decodes, fun key userId context => (agrees key).evaluate userId context⟩

theorem refreshed_sdk_agrees_refill :
    ∃ (world : Traffic) (body : Str) (flags : SdkFlags),
      RunWhere (World.act trafficStep) (fun world action => action.2.NoFault ∧ Orderly world action)
        Traffic.start refill world ∧
      (getRuleset {} id world.shared.redis world.shared.db).2 = .ok body ∧ flagsFromBody body = .ok flags ∧
      ∀ key userId context, flags.evaluate key userId context = evaluateFlag world.shared.db key userId context := by
  obtain ⟨world, runs, finished, answered⟩ := runWhere_reaches (World.act trafficStep)
    (fun world action => action.2.NoFault ∧ Orderly world action) Traffic.start refill
    (fun world => (∀ n < world.shared.db.audit.length, n ∈ world.shared.completed) ∧
      (getRuleset {} id world.shared.redis world.shared.db).2.toOption.isSome) (by decide +kernel)
  cases body : (getRuleset {} id world.shared.redis world.shared.db).2 with
  | error =>
    rw [body] at answered
    cases answered
  | ok body' =>
    obtain ⟨flags, decodes, agrees⟩ := refreshed_sdk_agrees runs finished {} id body
    exact ⟨world, body', flags, runs, body, decodes, agrees⟩

end Ripcord
