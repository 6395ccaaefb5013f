import Ripcord.LiveUpdates

namespace Ripcord

open Foundation

/-! What the watching SDKs ask of the service. -/

def refreshCalls : Option Str → List Str → Nat
  | _, [] => 0
  | event, line :: rest => (watchLine event line).2.toNat + refreshCalls (watchLine event line).1 rest

def Stream.refreshCalls : Stream → Nat
  | .closed => 0
  | .subscribed event lines => Ripcord.refreshCalls event lines

def PeerAct.endsRefresh : PeerAct → Bool
  | .resume | .drop => true
  | _ => false

/-- The refreshes that the SDK may yet make: its first, the one under way, those that its stream calls for, and one
    for each message that is not forwarded to it. -/
def WatchTask.outstanding (shared : Shared) (client : SdkClient) (task : WatchTask) : Nat :=
  (!task.started).toNat + client.polls.length + task.stream.refreshCalls +
    (shared.redis.published.length - task.forwarded)

def Peer.outstanding (shared : Shared) : Peer → Nat
  | .server _ => 0
  | .sdk client task => task.outstanding shared client

section Lines

theorem refreshCalls_flagChange (event : Option Str) (lines : List Str) (data : Str) :
    refreshCalls event (lines ++ eventLines (str "flag-change") data) = refreshCalls event lines + 1 := by
  induction lines generalizing event with
  | nil =>
    have blank : watchLine (some (str "flag-change")) [] = (none, false) := by decide
    simp [eventLines, refreshCalls, watchLine_flagChange, watchLine_data, blank]
  | cons line rest ih => rw [List.cons_append, refreshCalls, refreshCalls, ih, Nat.add_assoc]

theorem refreshCalls_connected : refreshCalls none (eventLines (str "connected") (str "ok")) = 0 := by decide

theorem refreshCalls_pings (event : Option Str) (lines : List Str) :
    refreshCalls event (lines ++ pingLines) = refreshCalls event lines := by
  induction lines generalizing event with
  | nil =>
    have comment : watchLine event (str ": ping") = (event, false) := by
      have unnamed : (str "event:").isPrefixOf (str ": ping") = false := by decide
      have empty : (str "data:").isPrefixOf (str ": ping") = false := by decide
      have given : str ": ping" ≠ [] := by decide
      simp [watchLine, unnamed, empty, given]
    have blank : (watchLine event []).2 = false := by simp [watchLine, str]
    simp [pingLines, refreshCalls, comment, blank]
  | cons line rest ih => rw [List.cons_append, refreshCalls, refreshCalls, ih]

end Lines

section Steps

variable {shared after : Shared} {client next : SdkClient} {task later : WatchTask} {act : PeerAct}

/-- A refresh that ends was outstanding, and the coroutine makes none that was not. -/
theorem WatchMoves.outstanding (moves : WatchMoves shared client task act next later) :
    act.endsRefresh.toNat + later.outstanding shared next ≤ task.outstanding shared client := by
  cases moves with
  | starts fresh =>
    simp only [PeerAct.endsRefresh, WatchTask.outstanding, fresh, List.length_append, List.length_singleton,
      Bool.toNat_false, Bool.not_true, Bool.not_false, Bool.toNat_true]
    omega
  | loads asks | misses asks | queries asks | refuses asks =>
    simp [PeerAct.endsRefresh, WatchTask.outstanding, asks]
  | installs asks | drops asks =>
    simp only [PeerAct.endsRefresh, WatchTask.outstanding, asks, List.length_nil, List.length_singleton,
      Bool.toNat_true]
    omega
  | connects closed =>
    simp only [PeerAct.endsRefresh, WatchTask.outstanding, closed, Stream.refreshCalls, refreshCalls_connected,
      Bool.toNat_false]
    omega
  | @forwards event lines flagKey action up here =>
    have less := (List.getElem?_eq_some_iff.mp here).1
    simp only [PeerAct.endsRefresh, WatchTask.outstanding, up, Stream.refreshCalls, refreshCalls_flagChange,
      Bool.toNat_false]
    omega
  | reads up idle plain =>
    simp [PeerAct.endsRefresh, WatchTask.outstanding, up, Stream.refreshCalls, refreshCalls, plain]
  | refreshes up idle calls =>
    simp only [PeerAct.endsRefresh, WatchTask.outstanding, up, idle, Stream.refreshCalls, refreshCalls, calls,
      List.length_nil, List.length_singleton, Bool.toNat_false, Bool.toNat_true]
    omega
  | pings up => simp [PeerAct.endsRefresh, WatchTask.outstanding, up, Stream.refreshCalls, refreshCalls_pings]
  | disconnects up =>
    simp only [PeerAct.endsRefresh, WatchTask.outstanding, up, Stream.refreshCalls, Bool.toNat_false]
    omega

theorem Peer.outstanding_grown (peer : Peer)
    (grown : shared.redis.published.length ≤ after.redis.published.length) :
    peer.outstanding after + shared.redis.published.length ≤
      peer.outstanding shared + after.redis.published.length := by
  cases peer with
  | server => simpa [Peer.outstanding] using grown
  | sdk client task =>
    simp only [Peer.outstanding, WatchTask.outstanding]
    omega

end Steps

section Runs

variable {fleet next : LiveFleet} {action : Nat × PeerAct}

def EndsRefresh (who : Nat) (action : Nat × PeerAct) : Bool := action.1 = who ∧ action.2.endsRefresh

theorem LiveFleet.outstanding_act (coroutines : LiveFleet.Coroutines fleet)
    (acts : World.act peerStep fleet action = some next) (who : Nat) :
    (EndsRefresh who action).toNat + (next.parties who).outstanding next.shared +
        fleet.shared.redis.published.length ≤
      (fleet.parties who).outstanding fleet.shared + next.shared.redis.published.length := by
  obtain ⟨p, act⟩ := action
  obtain ⟨shared, peer, steps, rfl⟩ := World.act_cases acts
  rcases peerStep_cases steps with ⟨party, act', party', here, rfl, rfl, moves⟩ |
    ⟨client, task, client', task', here, rfl, rfl, moves⟩
  · have grown := trafficStep_published moves
    have waits : EndsRefresh who (p, .traffic act') = false := by simp [EndsRefresh, PeerAct.endsRefresh]
    by_cases own : who = p
    · subst own
      simpa [waits, here, Peer.outstanding] using grown
    · simpa [waits, Function.update_of_ne own] using (fleet.parties who).outstanding_grown grown
  · by_cases own : who = p
    · subst own
      have single := (coroutines who client task here).single
      have spends := (WatchTask.next_moves single moves).outstanding
      have ends : EndsRefresh who (who, act) = act.endsRefresh := by simp [EndsRefresh]
      simp only [ends, Function.update_self, Peer.outstanding, here]
      omega
    · have other : EndsRefresh who (p, act) = false := by simp [EndsRefresh, Ne.symm own]
      simp [other, Function.update_of_ne own]

end Runs

/-- An SDK calls for the ruleset once when it starts and at most once for each change that is published, one call at
    a time, whatever is written, lost, raised or reconnected. -/
theorem refreshes_le_published {sdks : Nat → Bool} {acts : List (Nat × PeerAct)} {fleet : LiveFleet} {who : Nat}
    {client : SdkClient} {task : WatchTask}
    (runs : run (World.act peerStep) (LiveFleet.start sdks) acts = some fleet)
    (here : fleet.parties who = .sdk client task) :
    acts.countP (EndsRefresh who) + client.polls.length ≤ 1 + fleet.shared.redis.published.length ∧
      client.polls.length ≤ 1 := by
  have allowed : RunWhere (World.act peerStep) (fun _ _ => True) (LiveFleet.start sdks) acts fleet :=
    RunWhere.of_run (fun _ _ _ => trivial) runs
  have kept : ∀ (fleet : LiveFleet) action next, True → LiveFleet.Coroutines fleet →
      World.act peerStep fleet action = some next → LiveFleet.Coroutines next :=
    fun _ _ _ _ coroutines acts => LiveFleet.Coroutines.act coroutines acts
  have coroutines := allowed.invariant LiveFleet.Coroutines kept (LiveFleet.start_coroutines sdks)
  refine ⟨?_, (coroutines who client task here).single⟩
  have spent := allowed.budget LiveFleet.Coroutines (fun fleet => (fleet.parties who).outstanding fleet.shared)
    (fun fleet => fleet.shared.redis.published.length) (EndsRefresh who) kept
    (fun _ _ _ _ coroutines acts => LiveFleet.outstanding_act coroutines acts who) (LiveFleet.start_coroutines sdks)
  have first : ((LiveFleet.start sdks).parties who).outstanding (LiveFleet.start sdks).shared ≤ 1 := by
    show (Peer.start (sdks who)).outstanding _ ≤ 1
    cases sdks who with
    | true => exact Nat.le_refl 1
    | false => exact Nat.zero_le 1
  have unspent : client.polls.length ≤ (fleet.parties who).outstanding fleet.shared := by
    rw [here]
    simp only [Peer.outstanding, WatchTask.outstanding]
    omega
  have nothing : (LiveFleet.start sdks).shared.redis.published.length = 0 := rfl
  simp only [nothing] at spent
  omega

theorem refreshes_le_published_switchedLive :
    ∃ fleet : LiveFleet,
      run (World.act peerStep) (LiveFleet.start fun who => who = 0) (switchedLive ++ hears) = some fleet ∧
      (switchedLive ++ hears).countP (EndsRefresh 0) = 2 ∧ fleet.shared.redis.published.length = 2 ∧
      (switchedLive ++ hears).countP (EndsRefresh 0) ≤ 1 + fleet.shared.redis.published.length := by
  obtain ⟨fleet, runs, watches, published⟩ := run_reaches (World.act peerStep) (LiveFleet.start fun who => who = 0)
    (switchedLive ++ hears)
    (fun fleet => (fleet.parties 0).watches?.isSome ∧ fleet.shared.redis.published.length = 2) (by decide +kernel)
  obtain ⟨⟨client, task⟩, here⟩ := Option.isSome_iff_exists.mp watches
  have bound := (refreshes_le_published runs (Peer.watches?_eq_some here)).1
  exact ⟨fleet, runs, by decide, published, Nat.le_trans (Nat.le_add_right _ _) bound⟩

end Ripcord
