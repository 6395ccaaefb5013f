import Ripcord.KillSwitch
import Ripcord.Watch

namespace Ripcord

open Foundation

/-! The service with the SDKs that watch its stream. -/

/-- What `start` and `_watch` of an SDK keep; `forwarded` counts the messages of the channel that the stream has
    behind it, those from before its subscription included. -/
structure WatchTask where
  started : Bool
  watching : Bool
  stream : Stream
  forwarded : Nat

inductive Peer
  | server (party : Party)
  | sdk (client : SdkClient) (task : WatchTask)

inductive PeerAct
  | traffic (act : Act)
  | start
  | readRuleset
  | query
  | refuse (status : Nat) (body : Str)
  | resume
  | drop
  | connect
  | forward
  | line
  | ping
  | disconnect

def Action.value : Action → Str
  | .created => str "created"
  | .updated => str "updated"
  | .deleted => str "deleted"

/-- The message of `notify_flag_change`; a flag's key is ASCII, so that nothing more is escaped in it. -/
def changeMessage (flagKey : Str) (action : Action) : Str :=
  str "\x7b\"flag_key\": " ++ Json.printStr flagKey ++ str ", \"action\": " ++ Json.printStr action.value ++ str "\x7d"

/-- The SDK is one coroutine: `start` waits for its refresh before it watches, and the watch loop for the refresh
    that a line calls for before it reads on. A refresh that fails returns like any other. -/
def WatchTask.next (shared : Shared) (client : SdkClient) (task : WatchTask) :
    PeerAct → Option (SdkClient × WatchTask)
  | .traffic _ => none
  | .start =>
    if task.started then none
    else (client.next shared .refresh).map fun client => (client, { task with started := true })
  | .readRuleset => (client.next shared (.readRuleset 0)).map fun client => (client, task)
  | .query => (client.next shared (.query 0)).map fun client => (client, task)
  | .refuse status body => (client.next shared (.refuse 0 status body)).map fun client => (client, task)
  | .resume => (client.next shared (.resume 0)).map fun client => (client, { task with watching := true })
  | .drop => (client.next shared (.drop 0)).map fun client => (client, { task with watching := true })
  | .connect =>
    match task.stream, client.polls with
    | .closed, [] =>
      if task.watching then
        some (client, { task with
          stream := .subscribed none (eventLines (str "connected") (str "ok"))
          forwarded := shared.redis.published.length })
      else none
    | _, _ => none
  | .forward =>
    match task.stream, shared.redis.published[task.forwarded]? with
    | .subscribed event lines, some (flagKey, action) =>
      some (client, { task with
        stream := .subscribed event (lines ++ eventLines (str "flag-change") (changeMessage flagKey action))
        forwarded := task.forwarded + 1 })
    | _, _ => none
  | .line =>
    match task.stream, client.polls with
    | .subscribed event (line :: rest), [] =>
      let (event, refreshes) := watchLine event line
      if refreshes then
        (client.next shared .refresh).map fun client => (client, { task with stream := .subscribed event rest })
      else some (client, { task with stream := .subscribed event rest })
    | _, _ => none
  | .ping =>
    match task.stream with
    | .subscribed event lines => some (client, { task with stream := .subscribed event (lines ++ pingLines) })
    | .closed => none
  | .disconnect =>
    match task.stream with
    | .subscribed .. => some (client, { task with stream := .closed })
    | .closed => none

def peerStep (shared : Shared) : Peer → PeerAct → Option (Shared × Peer)
  | .server party, .traffic act => (trafficStep shared party act).map fun (after, party) => (after, .server party)
  | .server _, _ => none
  | .sdk client task, act => (task.next shared client act).map fun (client, task) => (shared, .sdk client task)

abbrev LiveFleet := World Shared Peer

def Peer.start (isSdk : Bool) : Peer :=
  if isSdk then .sdk ⟨∅, []⟩ ⟨false, false, .closed, 0⟩ else .server .idle

def LiveFleet.start (sdks : Nat → Bool) : LiveFleet := ⟨Traffic.start.shared, fun who => .start (sdks who)⟩

def Peer.agent : Peer → Agent
  | .server party => .server party
  | .sdk client _ => .sdk client

def LiveFleet.Orderly (fleet : LiveFleet) (action : Nat × PeerAct) : Prop :=
  match action.2 with
  | .traffic act => Fleet.Orderly (fleet.view Peer.agent) (action.1, .traffic act)
  | _ => True

/-- Every change of the flag has been published, or a later one has. -/
def Published (shared : Shared) (key : Str) : Prop :=
  ∀ n, KeyAt shared.db.audit n key → ∃ m ∈ shared.completed, n ≤ m ∧ KeyAt shared.db.audit m key

/-- The SDK has the flag otherwise than it is stored, and no answer on its way that changes this. -/
def SdkClient.Behind (db : Database) (key : Str) (started : Bool) (client : SdkClient) : Prop :=
  match client.polls with
  | [] => started ∧ ¬ client.flags.AgreesOn db key
  | .answered response :: _ => ¬ (response.flags?.getD client.flags).AgreesOn db key
  | _ => False

def WatchTask.Told (shared : Shared) (task : WatchTask) : Prop :=
  match task.stream with
  | .subscribed event lines => task.forwarded < shared.redis.published.length ∨ triggers event lines
  | .closed => False

/-- The last change of the flag is not published past an SDK that is behind, nor lost with its stream, and the
    refresh that it calls for does not fail. -/
def LiveFleet.NothingMissed (who : Nat) (key : Str) (fleet : LiveFleet) (action : Nat × PeerAct) : Prop :=
  match fleet.parties who with
  | .server _ => True
  | .sdk client task =>
    match action.2 with
    | .traffic .next =>
      match fleet.parties action.1 with
      | .server (.writer ⟨changed, _, entry, .publish⟩) =>
        changed = key → task.stream = .closed →
          Published { fleet.shared with completed := entry :: fleet.shared.completed } key →
          ¬ client.Behind fleet.shared.db key task.started
      | _ => True
    | .disconnect =>
      action.1 = who → Published fleet.shared key → task.Told fleet.shared →
        ¬ client.Behind fleet.shared.db key task.started
    | .refuse .. | .drop =>
      action.1 = who → Published fleet.shared key → ¬ task.Told fleet.shared →
        client.flags.AgreesOn fleet.shared.db key
    | _ => True

def LiveFleet.Follows (who : Nat) (key : Str) (fleet : LiveFleet) (action : Nat × PeerAct) : Prop :=
  fleet.Orderly action ∧ fleet.NothingMissed who key action

def WatchTask.Rests (shared : Shared) (client : SdkClient) (task : WatchTask) : Prop :=
  (∃ event, task.stream = .subscribed event []) ∧ client.polls = [] ∧
    task.forwarded = shared.redis.published.length

inductive WatchMoves (shared : Shared) (client : SdkClient) (task : WatchTask) :
    PeerAct → SdkClient → WatchTask → Prop
  | starts (fresh : task.started = false) :
    WatchMoves shared client task .start { client with polls := client.polls ++ [.requested] }
      { task with started := true }
  | loads {cached : List Str} (asks : client.polls = [.requested]) (warm : readRuleset shared.redis = some cached) :
    WatchMoves shared client task .readRuleset { client with polls := [.answered ⟨200, rulesetBody cached⟩] } task
  | misses (asks : client.polls = [.requested]) :
    WatchMoves shared client task .readRuleset { client with polls := [.cold] } task
  | queries (asks : client.polls = [.cold]) :
    WatchMoves shared client task .query
      { client with polls := [.answered ⟨200, rulesetBody (Hash.values (buildRulesetMapping shared.db))⟩] } task
  | refuses {poll : Poll} {status : Nat} {body : Str} (asks : client.polls = [poll])
    (failed : status < 200 ∨ 300 ≤ status) :
    WatchMoves shared client task (.refuse status body) { client with polls := [.answered ⟨status, body⟩] } task
  | installs {response : Response} (answered : client.polls = [.answered response]) :
    WatchMoves shared client task .resume ⟨response.flags?.getD client.flags, []⟩ { task with watching := true }
  | drops {poll : Poll} (asks : client.polls = [poll]) :
    WatchMoves shared client task .drop { client with polls := [] } { task with watching := true }
  | connects (closed : task.stream = .closed) (idle : client.polls = []) (watching : task.watching) :
    WatchMoves shared client task .connect client
      { task with
        stream := .subscribed none (eventLines (str "connected") (str "ok"))
        forwarded := shared.redis.published.length }
  | forwards {event : Option Str} {lines : List Str} {flagKey : Str} {action : Action}
    (up : task.stream = .subscribed event lines)
    (here : shared.redis.published[task.forwarded]? = some (flagKey, action)) :
    WatchMoves shared client task .forward client
      { task with
        stream := .subscribed event (lines ++ eventLines (str "flag-change") (changeMessage flagKey action))
        forwarded := task.forwarded + 1 }
  | reads {event : Option Str} {line : Str} {rest : List Str} (up : task.stream = .subscribed event (line :: rest))
    (idle : client.polls = []) (plain : (watchLine event line).2 = false) :
    WatchMoves shared client task .line client { task with stream := .subscribed (watchLine event line).1 rest }
  | refreshes {event : Option Str} {line : Str} {rest : List Str}
    (up : task.stream = .subscribed event (line :: rest)) (idle : client.polls = [])
    (calls : (watchLine event line).2 = true) :
    WatchMoves shared client task .line { client with polls := [.requested] }
      { task with stream := .subscribed (watchLine event line).1 rest }
  | pings {event : Option Str} {lines : List Str} (up : task.stream = .subscribed event lines) :
    WatchMoves shared client task .ping client { task with stream := .subscribed event (lines ++ pingLines) }
  | disconnects {event : Option Str} {lines : List Str} (up : task.stream = .subscribed event lines) :
    WatchMoves shared client task .disconnect client { task with stream := .closed }

section Steps

variable {shared after : Shared} {client next : SdkClient} {task later : WatchTask} {act : PeerAct}

/-- What the coroutine does to its client is a step of a polling SDK, or none. -/
theorem WatchTask.next_client (steps : task.next shared client act = some (next, later)) :
    (∃ poll, client.next shared poll = some next) ∨ next = client := by
  cases act with
  | traffic act => cases steps
  | start =>
    simp only [WatchTask.next] at steps
    split at steps
    · cases steps
    · obtain ⟨_, moves, same⟩ := Option.map_eq_some_iff.mp steps
      cases same
      exact .inl ⟨_, moves⟩
  | readRuleset | query | refuse | resume | drop =>
    obtain ⟨_, moves, same⟩ := Option.map_eq_some_iff.mp steps
    cases same
    exact .inl ⟨_, moves⟩
  | line =>
    simp only [WatchTask.next] at steps
    split at steps
    · split at steps
      · obtain ⟨_, moves, same⟩ := Option.map_eq_some_iff.mp steps
        cases same
        exact .inl ⟨_, moves⟩
      · cases steps
        exact .inr rfl
    · cases steps
  | connect =>
    simp only [WatchTask.next] at steps
    split at steps
    · split at steps <;> cases steps
      exact .inr rfl
    · cases steps
  | forward | ping | disconnect =>
    simp only [WatchTask.next] at steps
    split at steps <;> cases steps
    exact .inr rfl

theorem SdkClient.polls_eq {poll : Poll} (single : client.polls.length ≤ 1) (here : client.polls[0]? = some poll) :
    client.polls = [poll] := by
  obtain ⟨flags, polls⟩ := client
  match polls, single, here with
  | [_], _, here => exact congrArg ([·]) (Option.some.inj here)

theorem WatchTask.next_moves (single : client.polls.length ≤ 1)
    (steps : task.next shared client act = some (next, later)) : WatchMoves shared client task act next later := by
  cases act with
  | traffic act => cases steps
  | start =>
    simp only [WatchTask.next] at steps
    split at steps <;> cases steps
    rename_i fresh
    exact .starts (by simpa using fresh)
  | readRuleset =>
    simp only [WatchTask.next, SdkClient.next] at steps
    split at steps
    · rename_i here
      have asks := SdkClient.polls_eq single here
      split at steps <;> cases steps
      · rename_i cached warm
        rw [SdkClient.answer, asks]
        exact .loads asks warm
      · rw [asks]
        exact .misses asks
    · cases steps
  | query =>
    simp only [WatchTask.next, SdkClient.next] at steps
    split at steps <;> cases steps
    rename_i here
    have asks := SdkClient.polls_eq single here
    rw [SdkClient.answer, asks]
    exact .queries asks
  | refuse status body =>
    simp only [WatchTask.next, SdkClient.next] at steps
    split at steps <;> cases steps
    rename_i refused
    have asks := SdkClient.polls_eq single (List.getElem?_eq_getElem refused.1)
    rw [asks]
    exact .refuses asks refused.2
  | resume =>
    simp only [WatchTask.next, SdkClient.next] at steps
    split at steps <;> cases steps
    rename_i response here
    have answered := SdkClient.polls_eq single here
    rw [answered]
    exact .installs answered
  | drop =>
    simp only [WatchTask.next, SdkClient.next] at steps
    split at steps <;> cases steps
    rename_i there
    have asks := SdkClient.polls_eq single (List.getElem?_eq_getElem there)
    rw [asks]
    exact .drops asks
  | connect =>
    simp only [WatchTask.next] at steps
    split at steps
    · rename_i closed idle
      split at steps <;> cases steps
      rename_i watching
      exact .connects closed idle watching
    · cases steps
  | forward =>
    simp only [WatchTask.next] at steps
    split at steps <;> cases steps
    rename_i up here
    exact .forwards up here
  | line =>
    simp only [WatchTask.next] at steps
    split at steps
    · rename_i event line rest up idle
      cases calls : (watchLine event line).2 with
      | true =>
        simp only [calls, if_true, SdkClient.next, Option.map_some, idle] at steps
        cases steps
        exact .refreshes up idle calls
      | false =>
        simp only [calls, Bool.false_eq_true, if_false] at steps
        cases steps
        exact .reads up idle calls
    · cases steps
  | ping =>
    simp only [WatchTask.next] at steps
    split at steps <;> cases steps
    rename_i up
    exact .pings up
  | disconnect =>
    simp only [WatchTask.next] at steps
    split at steps <;> cases steps
    rename_i up
    exact .disconnects up

end Steps

theorem peerStep_cases {shared after : Shared} {peer next : Peer} {act : PeerAct}
    (steps : peerStep shared peer act = some (after, next)) :
    (∃ party act' party', peer = .server party ∧ act = .traffic act' ∧ next = .server party' ∧
      trafficStep shared party act' = some (after, party')) ∨
    ∃ client task client' task', peer = .sdk client task ∧ next = .sdk client' task' ∧ after = shared ∧
      task.next shared client act = some (client', task') := by
  cases peer with
  | server party =>
    cases act with
    | traffic act =>
      obtain ⟨⟨after, party'⟩, moves, same⟩ := Option.map_eq_some_iff.mp steps
      cases same
      exact .inl ⟨party, act, party', rfl, rfl, rfl, moves⟩
    | _ => cases steps
  | sdk client task =>
    obtain ⟨⟨client', task'⟩, moves, same⟩ := Option.map_eq_some_iff.mp steps
    cases same
    exact .inr ⟨client, task, client', task', rfl, rfl, rfl, moves⟩

/-! A watching SDK polls, at the times that its stream gives. -/

section Polling

variable {sdks : Nat → Bool} {fleet next : LiveFleet} {action : Nat × PeerAct}

theorem LiveFleet.act_view (orderly : fleet.Orderly action) (acts : World.act peerStep fleet action = some next) :
    (∃ poll, Fleet.Orderly (fleet.view Peer.agent) (action.1, poll) ∧
      World.act fleetStep (fleet.view Peer.agent) (action.1, poll) = some (next.view Peer.agent)) ∨
      next.view Peer.agent = fleet.view Peer.agent := by
  obtain ⟨who, act⟩ := action
  refine World.act_view Peer.agent acts fun shared peer steps => ?_
  rcases peerStep_cases steps with ⟨party, act', party', here, rfl, rfl, moves⟩ |
    ⟨client, task, client', task', here, rfl, rfl, moves⟩
  · refine .inl ⟨.traffic act', orderly, ?_⟩
    rw [here]
    exact Option.map_eq_some_iff.mpr ⟨_, moves, rfl⟩
  · rw [here]
    rcases WatchTask.next_client moves with ⟨poll, polls⟩ | same
    · refine .inl ⟨poll, ?_, Option.map_eq_some_iff.mpr ⟨_, polls, rfl⟩⟩
      cases poll with
      | traffic => cases polls
      | _ => exact ⟨trivial, fun next => absurd next Bool.false_ne_true⟩
    · exact .inr ⟨rfl, congrArg Agent.sdk same⟩

/-- What the watching SDKs and the servers do is what polling SDKs could do. -/
def LiveFleet.Polls (sdks : Nat → Bool) (fleet : LiveFleet) : Prop :=
  ∃ acts, RunWhere (World.act fleetStep) Fleet.Orderly (Fleet.start sdks) acts (fleet.view Peer.agent)

theorem LiveFleet.start_polls (sdks : Nat → Bool) : (LiveFleet.start sdks).Polls sdks := by
  have same : (LiveFleet.start sdks).view Peer.agent = Fleet.start sdks := by
    refine congrArg (World.mk _) (funext fun who => ?_)
    show (Peer.start (sdks who)).agent = Agent.start (sdks who)
    cases sdks who <;> rfl
  exact ⟨[], same ▸ .nil _⟩

theorem LiveFleet.Polls.act (polls : fleet.Polls sdks) (orderly : fleet.Orderly action)
    (acts : World.act peerStep fleet action = some next) : next.Polls sdks := by
  obtain ⟨done, runs⟩ := polls
  rcases LiveFleet.act_view orderly acts with ⟨poll, allows, moves⟩ | same
  · exact ⟨_, runs.snoc allows moves⟩
  · exact ⟨done, same ▸ runs⟩

theorem LiveFleet.Polls.converging (polls : fleet.Polls sdks) :
    (fleet.shared.Sound ∧ fleet.shared.Converging) ∧ ∀ who, (fleet.parties who).agent.Converging fleet.shared := by
  obtain ⟨_, runs⟩ := polls
  exact Fleet.converging_of_run runs

theorem LiveFleet.Polls.fieldsNamed (polls : fleet.Polls sdks) : FieldsNamed fleet.shared.redis := by
  obtain ⟨_, runs⟩ := polls
  exact (Fleet.sourced_of_run runs.run).1.fieldsNamed

end Polling

structure WatchTask.Sound (shared : Shared) (client : SdkClient) (task : WatchTask) : Prop where
  single : client.polls.length ≤ 1
  polling : client.polls ≠ [] → task.started
  watching : task.watching → task.started
  subscribed : task.stream ≠ .closed → task.started
  forwarded : task.forwarded ≤ shared.redis.published.length

def WatchTask.Informed (shared : Shared) (key : Str) (client : SdkClient) (task : WatchTask) : Prop :=
  client.Behind shared.db key task.started → Published shared key → task.Told shared

inductive Broadcast (shared : Shared) (party : Party) (act : Act) (after : Shared) : Prop
  | quiet (db : after.db = shared.db) (completed : after.completed = shared.completed)
    (published : after.redis.published = shared.redis.published)
  | commits {request : Request} {supply : Supply} {db : Database} {held : Option Flag}
    (commits : request.commit shared.db supply = some (db, held)) (same : after = { shared with db })
  | publishes {change : Change} (here : party = .writer change) (point : change.point = .publish) (next : act = .next)
    (same : after = { shared with
      redis := shared.redis.publish change.key change.action
      completed := change.entry :: shared.completed })

section Broadcasts

variable {shared after : Shared} {party next : Party} {act : Act} {client : SdkClient} {task : WatchTask} {key : Str}

theorem Party.next_published (steps : party.next shared = some (after, next)) :
    shared.redis.published.length ≤ after.redis.published.length := by
  cases Party.next_moves steps with
  | @writer change after point changes =>
    obtain ⟨key, action, entry, old⟩ := change
    cases Change.next_moves changes with
    | publishes => simp [Redis.publish]
    | expires =>
      show _ ≤ (shared.redis.expire _).published.length
      unfold Redis.expire
      split <;> exact Nat.le_refl _
    | _ => exact Nat.le_refl _
  | reader rebuilds =>
    rcases Rebuild.next_redis rebuilds with rfl | ⟨fence, snapshot, _, _, rfl⟩
    · exact Nat.le_refl _
    · exact Nat.le_refl _

theorem trafficStep_published (steps : trafficStep shared party act = some (after, next)) :
    shared.redis.published.length ≤ after.redis.published.length := by
  cases trafficStep_moves steps with
  | writer => exact @Party.next_published _ _ (.writer _) _ steps
  | reader => exact @Party.next_published _ _ (.reader _) _ steps
  | @raises _ _ _ _ executed _ nexts =>
    cases executed with
    | true => exact Party.next_published nexts
    | false => exact Nat.le_refl _
  | _ => exact Nat.le_refl _

theorem trafficStep_broadcast (plain : act.NoFault) (steps : trafficStep shared party act = some (after, next)) :
    Broadcast shared party act after := by
  cases trafficStep_moves steps with
  | commits commits => exact .commits commits rfl
  | @writer change after point changes =>
    obtain ⟨key, action, entry, old⟩ := change
    cases Change.next_moves changes with
    | publishes => exact .publishes rfl rfl rfl rfl
    | expires =>
      refine .quiet rfl rfl ?_
      show (shared.redis.expire _).published = _
      unfold Redis.expire
      split <;> rfl
    | _ => exact .quiet rfl rfl rfl
  | reader rebuilds =>
    rcases Rebuild.next_redis rebuilds with rfl | ⟨fence, snapshot, _, _, rfl⟩
    · exact .quiet rfl rfl rfl
    · exact .quiet rfl rfl rfl
  | raises => exact absurd plain id
  | _ => exact .quiet rfl rfl rfl

theorem SdkClient.Behind.congr {db : Database} {started : Bool} (row : db.row? key = shared.db.row? key)
    (behind : client.Behind db key started) : client.Behind shared.db key started := by
  have agrees : ∀ flags : SdkFlags, flags.AgreesOn shared.db key → flags.AgreesOn db key :=
    fun flags same => same.congr row
  unfold SdkClient.Behind at behind ⊢
  split at behind
  · exact behind.imp_right (mt (agrees _))
  · exact mt (agrees _) behind
  · exact behind

theorem published_commit {db : Database} {entry : AuditLog} (sound : shared.Sound)
    (audit : db.audit = shared.db.audit ++ [entry]) (published : Published { shared with db } key) :
    entry.flagKey ≠ key ∧ Published shared key := by
  have old : ∀ m ∈ shared.completed, m < shared.db.audit.length :=
    fun m member => sound.announced m (sound.written m (sound.completed m member))
  have before : ∀ n, KeyAt db.audit n key → ∃ m ∈ shared.completed, n ≤ m ∧ KeyAt shared.db.audit m key := by
    intro n here
    obtain ⟨m, member, later, also⟩ := published n here
    refine ⟨m, member, later, ?_⟩
    rcases keyAt_append_singleton.mp (audit ▸ also) with same | ⟨new, _⟩
    · exact same
    · exact absurd new (Nat.ne_of_lt (old m member))
  constructor
  · intro own
    obtain ⟨m, member, later, _⟩ := before shared.db.audit.length
      (audit ▸ keyAt_append_singleton.mpr (.inr ⟨rfl, own⟩))
    exact absurd later (Nat.not_le.mpr (old m member))
  · exact fun n here => before n (audit ▸ here.append [entry])

theorem Published.caught (published : Published shared key) (sound : shared.Sound) : Caught shared key := by
  intro n here
  obtain ⟨m, member, later⟩ := published n here
  exact ⟨m, sound.completed m member, later⟩

theorem WatchTask.Told.published (told : task.Told shared)
    (grown : shared.redis.published.length ≤ after.redis.published.length) : task.Told after := by
  unfold WatchTask.Told at told ⊢
  split at told
  · exact told.imp_left fun less => Nat.lt_of_lt_of_le less grown
  · exact told.elim

/-- A step of a server keeps an SDK informed, unless it publishes a last change past it. -/
theorem Broadcast.informed (broadcast : Broadcast shared party act after) (sound : shared.Sound)
    (keyed : ∀ change, party = .writer change → KeyAt shared.db.audit change.entry change.key)
    (own : task.Sound shared client)
    (heard : ∀ change, party = .writer change → change.point = .publish → act = .next → change.key = key →
      task.stream = .closed → Published { shared with completed := change.entry :: shared.completed } key →
      ¬ client.Behind shared.db key task.started)
    (informed : task.Informed shared key client) : task.Informed after key client := by
  intro behind published
  cases broadcast with
  | quiet db completed same =>
    have before : Published shared key := by simpa only [Published, db, completed] using published
    exact (informed (db ▸ behind) before).published (by rw [same])
  | commits commits same =>
    subst same
    have committed := Request.commit_ok commits
    obtain ⟨entry, audit, flagKey, _⟩ := committed.audit
    obtain ⟨other, before⟩ := published_commit sound audit published
    have row := committed.others key fun same => other (flagKey.trans same.symm)
    exact (informed (behind.congr row) before).published (Nat.le_refl _)
  | @publishes change here point next same =>
    subst same
    cases streaming : task.stream with
    | subscribed event lines =>
      have less : task.forwarded < (shared.redis.published ++ [(change.key, change.action)]).length := by
        rw [List.length_append]
        exact Nat.lt_succ_of_le own.forwarded
      simpa only [WatchTask.Told, streaming] using .inl less
    | closed =>
      by_cases changed : change.key = key
      · exact absurd behind (heard change here point next changed streaming published)
      · have before : Published shared key := by
          intro n there
          obtain ⟨m, member, later, also⟩ := published n there
          rcases List.mem_cons.mp member with rfl | member
          · exact absurd (Option.some.inj ((keyed change here).symm.trans also)) changed
          · exact ⟨m, member, later, also⟩
        have told : task.Told shared := informed behind before
        simp only [WatchTask.Told, streaming] at told

end Broadcasts

section Moves

variable {shared : Shared} {client next : SdkClient} {task later : WatchTask} {act : PeerAct} {key : Str}

theorem WatchMoves.sound (moves : WatchMoves shared client task act next later) (own : task.Sound shared client) :
    later.Sound shared next := by
  cases moves with
  | starts fresh =>
    have idle : client.polls = [] := by
      by_contra busy
      rw [own.polling busy] at fresh
      cases fresh
    refine ⟨?_, fun _ => rfl, fun _ => rfl, fun _ => rfl, own.forwarded⟩
    rw [idle]
    exact Nat.le_refl 1
  | loads asks | misses asks | queries asks | refuses asks =>
    have started : task.started := own.polling (by simp [asks])
    exact ⟨Nat.le_refl 1, fun _ => started, own.watching, own.subscribed, own.forwarded⟩
  | installs asks | drops asks =>
    have started : task.started := own.polling (by simp [asks])
    exact ⟨Nat.zero_le 1, fun _ => started, fun _ => started, own.subscribed, own.forwarded⟩
  | connects closed idle watching =>
    have started : task.started := own.watching watching
    exact ⟨own.single, own.polling, own.watching, fun _ => started, Nat.le_refl _⟩
  | forwards up here =>
    have started : task.started := own.subscribed (by simp [up])
    exact ⟨own.single, own.polling, own.watching, fun _ => started, (List.getElem?_eq_some_iff.mp here).1⟩
  | reads up idle =>
    have started : task.started := own.subscribed (by simp [up])
    exact ⟨own.single, own.polling, own.watching, fun _ => started, own.forwarded⟩
  | refreshes up idle =>
    have started : task.started := own.subscribed (by simp [up])
    exact ⟨Nat.le_refl 1, fun _ => started, own.watching, fun _ => started, own.forwarded⟩
  | pings up =>
    have started : task.started := own.subscribed (by simp [up])
    exact ⟨own.single, own.polling, own.watching, fun _ => started, own.forwarded⟩
  | disconnects up =>
    exact ⟨own.single, own.polling, own.watching, fun opened => absurd rfl opened, own.forwarded⟩

theorem SdkClient.not_behind_of_answer {db : Database} {flags own : SdkFlags} {payloads : List Str} {started : Bool}
    (reads : flagsFromBody (rulesetBody payloads) = .ok flags) (agrees : flags.AgreesOn db key) :
    ¬ SdkClient.Behind db key started ⟨own, [.answered ⟨200, rulesetBody payloads⟩]⟩ := by
  have installs : Response.flags? ⟨200, rulesetBody payloads⟩ = some flags := by
    rw [Response.flags?, reads]
    rfl
  intro behind
  simp only [SdkClient.Behind, installs, Option.getD_some] at behind
  exact behind agrees

theorem Response.flags?_refused {status : Nat} {body : Str} (failed : status < 200 ∨ 300 ≤ status) :
    Response.flags? ⟨status, body⟩ = none := by
  simp only [Response.flags?, failed, if_true, ite_self]

theorem WatchMoves.informed (moves : WatchMoves shared client task act next later) (own : task.Sound shared client)
    (warm : ∀ cached, readRuleset shared.redis = some cached → Published shared key →
      ∃ flags, flagsFromBody (rulesetBody cached) = .ok flags ∧ flags.AgreesOn shared.db key)
    (kept : act = .disconnect → Published shared key → task.Told shared →
      ¬ client.Behind shared.db key task.started)
    (succeeds : (act = .drop ∨ ∃ status body, act = .refuse status body) → Published shared key →
      ¬ task.Told shared → client.flags.AgreesOn shared.db key)
    (informed : task.Informed shared key client) : later.Informed shared key next := by
  intro behind published
  cases moves with
  | starts fresh =>
    have idle : client.polls = [] := by
      by_contra busy
      rw [own.polling busy] at fresh
      cases fresh
    simp only [SdkClient.Behind, idle, List.nil_append] at behind
  | @loads cached asks read =>
    obtain ⟨flags, decodes, agrees⟩ := warm cached read published
    exact absurd behind (SdkClient.not_behind_of_answer decodes agrees)
  | misses asks => exact behind.elim
  | queries asks =>
    obtain ⟨flags, decodes, agrees⟩ := cold_agreesOn shared.db key
    exact absurd behind (SdkClient.not_behind_of_answer decodes agrees)
  | @refuses poll status body asks failed =>
    by_contra untold
    simp only [SdkClient.Behind, Response.flags?_refused failed, Option.getD_none] at behind
    exact behind (succeeds (.inr ⟨status, body, rfl⟩) published untold)
  | installs answered =>
    refine informed ?_ published
    simpa only [SdkClient.Behind, answered] using behind.2
  | drops asks =>
    by_contra untold
    exact behind.2 (succeeds (.inl rfl) published untold)
  | connects closed idle watching =>
    have told : task.Told shared := informed behind published
    simp only [WatchTask.Told, closed] at told
  | forwards up here => exact .inr (triggers_flagChange _ _ _)
  | @reads event line rest up idle plain =>
    have told : task.Told shared := informed behind published
    simpa only [WatchTask.Told, up, triggers, plain, Bool.false_or] using told
  | refreshes up idle calls => exact behind.elim
  | @pings event lines up =>
    have told : task.Told shared := informed behind published
    simp only [WatchTask.Told, up] at told
    exact told.imp_right (triggers_append event lines pingLines)
  | disconnects up =>
    have told : task.Told shared := informed behind published
    exact absurd behind (kept rfl published told)

end Moves

def LiveFleet.Coroutines (fleet : LiveFleet) : Prop :=
  ∀ p client task, fleet.parties p = .sdk client task → task.Sound fleet.shared client

structure LiveFleet.Sound (sdks : Nat → Bool) (who : Nat) (key : Str) (fleet : LiveFleet) : Prop where
  polls : fleet.Polls sdks
  coroutines : fleet.Coroutines
  informed : ∀ client task, fleet.parties who = .sdk client task → task.Informed fleet.shared key client

section Runs

variable {sdks : Nat → Bool} {fleet next : LiveFleet} {who : Nat} {key : Str} {action : Nat × PeerAct}

theorem LiveFleet.start_sdk {p : Nat} {client : SdkClient} {task : WatchTask}
    (here : (LiveFleet.start sdks).parties p = .sdk client task) :
    client = ⟨∅, []⟩ ∧ task = ⟨false, false, .closed, 0⟩ := by
  have start : Peer.start (sdks p) = .sdk client task := here
  cases kind : sdks p with
  | true =>
    rw [kind] at start
    cases start
    exact ⟨rfl, rfl⟩
  | false =>
    rw [kind] at start
    cases start

theorem LiveFleet.start_coroutines (sdks : Nat → Bool) : (LiveFleet.start sdks).Coroutines := by
  intro p client task here
  obtain ⟨rfl, rfl⟩ := LiveFleet.start_sdk here
  exact ⟨Nat.zero_le 1, fun busy => absurd rfl busy, id, fun opened => absurd rfl opened, Nat.zero_le _⟩

theorem LiveFleet.start_sound (sdks : Nat → Bool) (who : Nat) (key : Str) :
    (LiveFleet.start sdks).Sound sdks who key := by
  refine ⟨LiveFleet.start_polls sdks, LiveFleet.start_coroutines sdks, fun client task here => ?_⟩
  obtain ⟨rfl, rfl⟩ := LiveFleet.start_sdk here
  exact fun behind => absurd behind.1 Bool.false_ne_true

theorem LiveFleet.Polls.warm (polls : fleet.Polls sdks) (flagField : key ≠ completeField) (cached : List Str)
    (warm : readRuleset fleet.shared.redis = some cached) (published : Published fleet.shared key) :
    ∃ flags, flagsFromBody (rulesetBody cached) = .ok flags ∧ flags.AgreesOn fleet.shared.db key := by
  obtain ⟨⟨sound, converging⟩, _⟩ := polls.converging
  exact warm_agreesOn polls.fieldsNamed flagField (converging.settled key flagField (published.caught sound)) warm

theorem LiveFleet.Sound.server {p : Nat} {act : Act} {party party' : Party} {after : Shared}
    (sound : fleet.Sound sdks who key) (plain : act.NoFault)
    (missesNothing : fleet.NothingMissed who key (p, .traffic act)) (here : fleet.parties p = .server party)
    (moves : trafficStep fleet.shared party act = some (after, party')) {client : SdkClient} {task : WatchTask}
    (watches : fleet.parties who = .sdk client task) : task.Informed after key client := by
  obtain ⟨⟨shared, _⟩, each⟩ := sound.polls.converging
  have own := each p
  rw [here] at own
  refine (trafficStep_broadcast plain moves).informed shared ?_ (sound.coroutines who client task watches) ?_
    (sound.informed client task watches)
  · intro change writes
    subst writes
    exact own.2.keyed
  · intro change writes point next changed
    obtain ⟨changedKey, changeAction, entry, stage⟩ := change
    subst writes point next
    simp only [LiveFleet.NothingMissed, watches, here] at missesNothing
    exact missesNothing changed

theorem LiveFleet.Sound.own {act : PeerAct} {client client' : SdkClient} {task task' : WatchTask}
    (sound : fleet.Sound sdks who key) (flagField : key ≠ completeField)
    (missesNothing : fleet.NothingMissed who key (who, act)) (here : fleet.parties who = .sdk client task)
    (moves : WatchMoves fleet.shared client task act client' task') : task'.Informed fleet.shared key client' := by
  refine moves.informed (sound.coroutines who client task here) (sound.polls.warm flagField) ?_ ?_
    (sound.informed client task here)
  · intro disconnects
    subst disconnects
    simp only [LiveFleet.NothingMissed, here] at missesNothing
    exact missesNothing trivial
  · rintro (rfl | ⟨status, body, rfl⟩)
    · simp only [LiveFleet.NothingMissed, here] at missesNothing
      exact missesNothing trivial
    · simp only [LiveFleet.NothingMissed, here] at missesNothing
      exact missesNothing trivial

theorem LiveFleet.act_cases (coroutines : fleet.Coroutines)
    (acts : World.act peerStep fleet action = some next) {p : Nat} {client : SdkClient} {task : WatchTask}
    (watches : next.parties p = .sdk client task) :
    (∃ before task', action.1 = p ∧ fleet.parties p = .sdk before task' ∧ next.shared = fleet.shared ∧
      WatchMoves fleet.shared before task' action.2 client task) ∨
    fleet.parties p = .sdk client task ∧ (next.shared = fleet.shared ∨
      ∃ party act party', fleet.parties action.1 = .server party ∧ action.2 = .traffic act ∧
        trafficStep fleet.shared party act = some (next.shared, party')) := by
  obtain ⟨q, act⟩ := action
  obtain ⟨shared, peer, steps, rfl⟩ := World.act_cases acts
  rcases World.act_party acts p with ⟨rfl, own⟩ | ⟨elsewhere, same⟩
  · rcases peerStep_cases own with ⟨_, _, _, _, _, serverNext, _⟩ |
      ⟨before, task', _, _, here, sdkNext, unchanged, moves⟩
    · rw [watches] at serverNext
      cases serverNext
    · rw [watches] at sdkNext
      cases sdkNext
      exact .inl ⟨before, task', rfl, here, unchanged,
        WatchTask.next_moves (coroutines _ before task' here).single moves⟩
  · refine .inr ⟨same ▸ watches, ?_⟩
    rcases peerStep_cases steps with ⟨party, act', party', here, rfl, _, moves⟩ | ⟨_, _, _, _, _, _, unchanged, _⟩
    · exact .inr ⟨party, act', party', here, rfl, moves⟩
    · exact .inl unchanged

theorem LiveFleet.Coroutines.act (coroutines : fleet.Coroutines) (acts : World.act peerStep fleet action = some next) :
    next.Coroutines := by
  intro p client task watches
  rcases LiveFleet.act_cases coroutines acts watches with ⟨before, task', rfl, here, same, moves⟩ |
    ⟨here, same | ⟨party, act, party', _, _, moves⟩⟩
  · exact same ▸ moves.sound (coroutines _ before task' here)
  · exact same ▸ coroutines p client task here
  · obtain ⟨single, polling, watching, subscribed, forwarded⟩ := coroutines p client task here
    exact ⟨single, polling, watching, subscribed, Nat.le_trans forwarded (trafficStep_published moves)⟩

theorem LiveFleet.Sound.act (sound : fleet.Sound sdks who key) (flagField : key ≠ completeField)
    (follows : fleet.Follows who key action) (acts : World.act peerStep fleet action = some next) :
    next.Sound sdks who key := by
  obtain ⟨orderly, missesNothing⟩ := follows
  obtain ⟨p, act⟩ := action
  refine ⟨sound.polls.act orderly acts, LiveFleet.Coroutines.act sound.coroutines acts,
    fun client task watches => ?_⟩
  rcases LiveFleet.act_cases sound.coroutines acts watches with ⟨before, task', rfl, here, same, moves⟩ |
    ⟨here, same | ⟨party, act, party', serves, rfl, moves⟩⟩
  · exact same ▸ sound.own flagField missesNothing here moves
  · exact same ▸ sound.informed client task here
  · exact sound.server orderly.1.1 missesNothing serves moves here

theorem LiveFleet.sound_of_run {acts : List (Nat × PeerAct)} (flagField : key ≠ completeField)
    (runs : RunWhere (World.act peerStep) (LiveFleet.Follows who key) (LiveFleet.start sdks) acts fleet) :
    fleet.Sound sdks who key :=
  runs.invariant (LiveFleet.Sound sdks who key) (fun _ _ _ follows sound acts => sound.act flagField follows acts)
    (LiveFleet.start_sound sdks who key)

theorem LiveFleet.Sound.current {client : SdkClient} {task : WatchTask} (sound : fleet.Sound sdks who key)
    (here : fleet.parties who = .sdk client task) (published : Published fleet.shared key)
    (rests : task.Rests fleet.shared client) : client.flags.AgreesOn fleet.shared.db key := by
  obtain ⟨⟨event, up⟩, idle, read⟩ := rests
  by_contra differs
  have started : task.started := (sound.coroutines who client task here).subscribed (by simp [up])
  have behind : client.Behind fleet.shared.db key task.started := by
    simpa only [SdkClient.Behind, idle] using And.intro started differs
  have told : task.Told fleet.shared := sound.informed client task here behind published
  simp [WatchTask.Told, up, read, triggers] at told

end Runs

/-- An SDK whose stream is up and read to its end evaluates each flag, once that is published, as its row is: a
    flag that was switched off is off for every user, whatever default the caller passes. -/
theorem watching_sdk_current {sdks : Nat → Bool} {acts : List (Nat × PeerAct)} {fleet : LiveFleet} {key : Str}
    {who : Nat} {client : SdkClient} {task : WatchTask}
    (runs : RunWhere (World.act peerStep) (LiveFleet.Follows who key) (LiveFleet.start sdks) acts fleet)
    (flagField : key ≠ completeField) (published : Published fleet.shared key)
    (here : fleet.parties who = .sdk client task) (rests : task.Rests fleet.shared client) :
    (∀ userId context, client.flags.evaluate key userId context = evaluateFlag fleet.shared.db key userId context) ∧
      ∀ row, fleet.shared.db.row? key = some row → row.enabled = false →
        ∀ userId context default, client.flags.isEnabled key userId context default = .ok false := by
  have agrees := (LiveFleet.sound_of_run flagField runs).current here published rests
  exact ⟨agrees.evaluate, fun row stored off => isEnabled_of_disabled agrees stored off⟩

section Decisions

instance (shared : Shared) (key : Str) : Decidable (Published shared key) :=
  decidable_of_iff (∀ n < shared.db.audit.length, KeyAt shared.db.audit n key →
    ∃ m ∈ shared.completed, n ≤ m ∧ KeyAt shared.db.audit m key)
    ⟨fun bounded n here => bounded n here.lt here, fun published n _ => published n⟩

instance (db : Database) (key : Str) : DecidablePred (SdkFlags.AgreesOn db key) := fun flags =>
  inferInstanceAs (Decidable (flags.lookup key = (getFlag db key).map fun flag => toSpec flag.toFlagOut))

instance (db : Database) (key : Str) (started : Bool) (client : SdkClient) :
    Decidable (client.Behind db key started) := by
  unfold SdkClient.Behind
  split <;> infer_instance

instance (shared : Shared) (task : WatchTask) : Decidable (task.Told shared) := by
  unfold WatchTask.Told
  split <;> infer_instance

instance (who : Nat) (key : Str) (fleet : LiveFleet) : DecidablePred (fleet.NothingMissed who key) := fun action => by
  unfold LiveFleet.NothingMissed
  split
  · infer_instance
  · split
    · split <;> infer_instance
    · infer_instance
    · infer_instance
    · infer_instance
    · infer_instance

instance (fleet : LiveFleet) : DecidablePred fleet.Orderly := fun action => by
  unfold LiveFleet.Orderly
  split <;> infer_instance

instance (who : Nat) (key : Str) (fleet : LiveFleet) : DecidablePred (fleet.Follows who key) := fun action =>
  inferInstanceAs (Decidable (fleet.Orderly action ∧ fleet.NothingMissed who key action))

end Decisions

/-- A flag is created, an SDK loads it and subscribes, and the flag is switched off on another server. -/
def switchedLive : List (Nat × PeerAct) :=
  (1, .traffic (.request (.create checkoutCreate (str "ops")) firstSupply)) ::
    List.replicate 6 (1, .traffic .next) ++
    [(0, .start), (0, .readRuleset), (0, .query), (0, .resume), (0, .connect), (0, .line), (0, .line), (0, .line),
      (2, .traffic (.request (.update (str "checkout") switchOff (str "ops")) firstSupply))] ++
    List.replicate 5 (2, .traffic .next)

def hears : List (Nat × PeerAct) :=
  [(0, .forward), (0, .line), (0, .line), (0, .readRuleset), (0, .query), (0, .resume), (0, .line)]

def Peer.watches? : Peer → Option (SdkClient × WatchTask)
  | .sdk client task => some (client, task)
  | .server _ => none

theorem Peer.watches?_eq_some {peer : Peer} {client : SdkClient} {task : WatchTask}
    (here : peer.watches? = some (client, task)) : peer = .sdk client task := by
  cases peer with
  | sdk own watch =>
    cases here
    rfl
  | server party => cases here

theorem watching_sdk_current_switchedLive :
    ∃ (fleet : LiveFleet) (client : SdkClient) (task : WatchTask),
      RunWhere (World.act peerStep) (LiveFleet.Follows 0 (str "checkout")) (LiveFleet.start fun who => who = 0)
        (switchedLive ++ hears) fleet ∧
      fleet.parties 0 = .sdk client task ∧
      client.flags.isEnabled (str "checkout") (str "ada") none true = .ok false := by
  obtain ⟨fleet, runs, published, off, ⟨client, task⟩, here, up, idle, read⟩ := runWhere_reaches (World.act peerStep)
    (LiveFleet.Follows 0 (str "checkout")) (LiveFleet.start fun who => who = 0) (switchedLive ++ hears)
    (fun fleet => Published fleet.shared (str "checkout") ∧
      (fleet.shared.db.row? (str "checkout")).map Flag.enabled = some false ∧
      ∃ watches ∈ (fleet.parties 0).watches?, watches.2.stream = .subscribed none [] ∧ watches.1.polls.isEmpty ∧
        watches.2.forwarded = fleet.shared.redis.published.length)
    (by decide +kernel)
  obtain ⟨row, stored, disabled⟩ := Option.map_eq_some_iff.mp off
  have watches := Peer.watches?_eq_some here
  have current := watching_sdk_current runs (by decide) published watches ⟨⟨none, up⟩, List.isEmpty_iff.mp idle, read⟩
  exact ⟨fleet, client, task, runs, watches, current.2 row stored disabled (str "ada") none true⟩

end Ripcord
