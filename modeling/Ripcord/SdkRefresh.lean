import Ripcord.Foundation.Transition
import Ripcord.Payload

namespace Ripcord

open Foundation

abbrev SdkFlags := AList fun _ : Str => FlagSpec

structure Response where
  status : Nat
  body : Str
  deriving DecidableEq

/-- `{item["key"]: _spec_from_json(item) for item in response.json()}`. -/
def flagsFromBody (body : Str) : Except PyError SdkFlags := do
  let items ← iterate (← loads body)
  items.foldlM (fun flags item => do
    let key ← asText (← getItem "key" item)
    let spec ← specFromJson item
    .ok (flags.insert key spec)) ∅

/-- The ruleset that `refresh` installs from a response. It keeps what it has when it is refused, when
    `raise_for_status` raises and when the body cannot be read. -/
def Response.flags? (response : Response) : Option SdkFlags :=
  if response.status = 401 ∨ response.status = 403 then none
  else if response.status < 200 ∨ 300 ≤ response.status then none
  else (flagsFromBody response.body).toOption

/-- A `refresh` call between its request and its assignment; an answer carries the time it was produced at. -/
inductive Refresh
  | requested
  | answered (produced : Nat) (response : Response)
  deriving DecidableEq

def Refresh.due? : Refresh → Option Nat
  | .requested => none
  | .answered produced response => response.flags?.map fun _ => produced

/-- A client and its server. `ruleset` is the body that `GET /ruleset` returns, and `clock` advances with
    every answer; `installs` are the production times of what the client has installed, in that order. -/
structure Sdk where
  ruleset : Str
  clock : Nat
  calls : List Refresh
  flags : SdkFlags
  installs : List Nat
  deriving DecidableEq

def Sdk.start (ruleset : Str) : Sdk := ⟨ruleset, 0, [], ∅, []⟩

inductive SdkAct
  | refresh
  | serve (call status : Nat)
  | resume (call : Nat)
  | drop (call : Nat)
  | write (ruleset : Str)

/-- A call is resumed with its response and runs to its end without another await. -/
def Sdk.finish (sdk : Sdk) (produced : Nat) (response : Response) : Sdk :=
  match response.flags? with
  | some flags => { sdk with flags, installs := sdk.installs ++ [produced] }
  | none => sdk

def sdkStep (sdk : Sdk) : SdkAct → Option Sdk
  | .refresh => some { sdk with calls := sdk.calls ++ [.requested] }
  | .serve call status =>
    match sdk.calls[call]? with
    | some .requested =>
      some { sdk with
        clock := sdk.clock + 1
        calls := sdk.calls.set call (.answered sdk.clock ⟨status, sdk.ruleset⟩) }
    | _ => none
  | .resume call =>
    match sdk.calls[call]? with
    | some (.answered produced response) =>
      some ({ sdk with calls := sdk.calls.eraseIdx call }.finish produced response)
    | _ => none
  | .drop call =>
    if call < sdk.calls.length then some { sdk with calls := sdk.calls.eraseIdx call } else none
  | .write ruleset => some { sdk with ruleset }

/-- No call installs its answer while another holds an earlier one that it has yet to install. -/
def InOrder (sdk : Sdk) : SdkAct → Prop
  | .resume call => ∀ produced ∈ (sdk.calls[call]?).bind Refresh.due?, ∀ other ∈ sdk.calls, ∀ earlier ∈ other.due?,
      produced ≤ earlier
  | _ => True

instance (sdk : Sdk) : DecidablePred (InOrder sdk)
  | .resume call => inferInstanceAs (Decidable (∀ produced ∈ (sdk.calls[call]?).bind Refresh.due?,
      ∀ other ∈ sdk.calls, ∀ earlier ∈ other.due?, produced ≤ earlier))
  | .refresh | .serve .. | .drop _ | .write _ => inferInstanceAs (Decidable True)

def Sdk.Forward (sdk : Sdk) : Prop := sdk.installs.Pairwise (· ≤ ·)

structure Sdk.Sound (sdk : Sdk) : Prop where
  forward : sdk.Forward
  past : ∀ produced ∈ sdk.installs, produced < sdk.clock
  answered : ∀ call ∈ sdk.calls, ∀ produced ∈ call.due?, produced < sdk.clock
  later : ∀ call ∈ sdk.calls, ∀ due ∈ call.due?, ∀ produced ∈ sdk.installs, produced ≤ due

section Steps

variable {sdk next : Sdk}

theorem finish_of_installs (sdk : Sdk) (produced : Nat) {response : Response} {flags : SdkFlags}
    (installs : response.flags? = some flags) :
    sdk.finish produced response = { sdk with flags, installs := sdk.installs ++ [produced] } := by
  simp only [Sdk.finish, installs]

theorem sdkStep_resume {call produced : Nat} {response : Response}
    (here : sdk.calls[call]? = some (.answered produced response)) :
    sdkStep sdk (.resume call) = some ({ sdk with calls := sdk.calls.eraseIdx call }.finish produced response) := by
  simp only [sdkStep, here]

@[simp] theorem due?_answered (produced : Nat) (response : Response) :
    (Refresh.answered produced response).due? = response.flags?.map fun _ => produced := rfl

theorem Sdk.Sound.of_calls {calls : List Refresh} (sound : sdk.Sound) (fewer : ∀ call ∈ calls, call ∈ sdk.calls) :
    Sdk.Sound { sdk with calls } where
  forward := sound.forward
  past := sound.past
  answered call member := sound.answered call (fewer call member)
  later call member := sound.later call (fewer call member)

theorem Sdk.Sound.refresh (sound : sdk.Sound) : Sdk.Sound { sdk with calls := sdk.calls ++ [.requested] } where
  forward := sound.forward
  past := sound.past
  answered call member produced due := by
    rcases List.mem_append.mp member with earlier | now
    · exact sound.answered call earlier produced due
    · rw [List.mem_singleton.mp now] at due
      cases due
  later call member due promised := by
    rcases List.mem_append.mp member with earlier | now
    · exact sound.later call earlier due promised
    · rw [List.mem_singleton.mp now] at promised
      cases promised

theorem Sdk.Sound.serve (sound : sdk.Sound) (call : Nat) (response : Response) :
    Sdk.Sound { sdk with clock := sdk.clock + 1, calls := sdk.calls.set call (.answered sdk.clock response) } where
  forward := sound.forward
  past produced member := (sound.past produced member).trans (Nat.lt_succ_self _)
  answered other member produced due := by
    rcases List.mem_or_eq_of_mem_set member with old | rfl
    · exact (sound.answered other old produced due).trans (Nat.lt_succ_self _)
    · obtain ⟨_, _, rfl⟩ := Option.map_eq_some_iff.mp due
      exact Nat.lt_succ_self _
  later other member due promised := by
    rcases List.mem_or_eq_of_mem_set member with old | rfl
    · exact sound.later other old due promised
    · obtain ⟨_, _, rfl⟩ := Option.map_eq_some_iff.mp promised
      exact fun produced installed => (sound.past produced installed).le

theorem Sdk.Sound.finish (sound : sdk.Sound) {call produced : Nat} {response : Response}
    (here : sdk.calls[call]? = some (.answered produced response)) (inOrder : InOrder sdk (.resume call)) :
    ({ sdk with calls := sdk.calls.eraseIdx call }.finish produced response).Sound := by
  have kept : ∀ other ∈ sdk.calls.eraseIdx call, other ∈ sdk.calls := fun other => List.mem_of_mem_eraseIdx
  have fewer := sound.of_calls kept
  unfold Sdk.finish
  split
  · rename_i flags installs
    have due : (Refresh.answered produced response).due? = some produced := by simp [installs]
    have member := List.mem_of_getElem? here
    refine ⟨?_, ?_, fewer.answered, ?_⟩
    · refine List.pairwise_append.mpr ⟨sound.forward, List.pairwise_singleton _ _, ?_⟩
      intro earlier installed now last
      rw [List.mem_singleton.mp last]
      exact sound.later _ member produced due earlier installed
    · intro installed there
      rcases List.mem_append.mp there with earlier | now
      · exact sound.past installed earlier
      · rw [List.mem_singleton.mp now]
        exact sound.answered _ member produced due
    · intro other remains promised dueOther installed there
      rcases List.mem_append.mp there with earlier | now
      · exact fewer.later other remains promised dueOther installed earlier
      · rw [List.mem_singleton.mp now]
        have mine : produced ∈ (sdk.calls[call]?).bind Refresh.due? := by simp [here, installs]
        exact inOrder produced mine other (List.mem_of_mem_eraseIdx remains) promised dueOther
  · exact fewer

theorem sdkStep_sound {action : SdkAct} (sound : sdk.Sound) (inOrder : InOrder sdk action)
    (steps : sdkStep sdk action = some next) : next.Sound := by
  cases action with
  | refresh =>
    cases steps
    exact sound.refresh
  | serve call status =>
    simp only [sdkStep] at steps
    split at steps <;> cases steps
    exact sound.serve call _
  | resume call =>
    simp only [sdkStep] at steps
    split at steps <;> cases steps
    rename_i here
    exact sound.finish here inOrder
  | drop call =>
    simp only [sdkStep] at steps
    split at steps <;> cases steps
    exact sound.of_calls fun other => List.mem_of_mem_eraseIdx
  | write ruleset =>
    cases steps
    exact ⟨sound.forward, sound.past, sound.answered, sound.later⟩

theorem goes_back {action : SdkAct} (steps : sdkStep sdk action = some next) (broken : ¬ InOrder sdk action) :
    ∃ call final, sdkStep next (.resume call) = some final ∧ ¬ final.Forward := by
  cases action with
  | resume call =>
    simp only [sdkStep] at steps
    split at steps <;> cases steps
    rename_i produced response here
    simp only [InOrder, here, Option.bind_some, not_forall] at broken
    obtain ⟨time, mine, other, member, earlier, due, before⟩ := broken
    obtain ⟨flags, installs, rfl⟩ := Option.map_eq_some_iff.mp mine
    have remains : other ∈ sdk.calls.eraseIdx call := by
      obtain ⟨i, there⟩ := List.mem_iff_getElem?.mp member
      refine List.mem_eraseIdx_iff_getElem?.mpr ⟨i, fun same => ?_, there⟩
      rw [same, here] at there
      cases there
      rw [mine] at due
      cases due
      exact before (le_refl _)
    obtain ⟨i, there⟩ := List.mem_iff_getElem?.mp remains
    cases other with
    | requested => cases due
    | answered produced' late =>
      obtain ⟨older, also, rfl⟩ := Option.map_eq_some_iff.mp due
      rw [finish_of_installs _ _ installs]
      refine ⟨i, _, sdkStep_resume there, ?_⟩
      rw [finish_of_installs _ _ also]
      intro forward
      rw [Sdk.Forward, List.append_assoc] at forward
      have last := (List.pairwise_append.mp forward).2.1
      exact before (by simpa using last)
  | refresh => exact absurd trivial broken
  | serve => exact absurd trivial broken
  | drop => exact absurd trivial broken
  | write => exact absurd trivial broken

end Steps

/-- While answers are installed in the order they are due the client never goes back in time, and the first
    one installed out of order leaves it one resumption away from doing so. -/
theorem refreshes_forward {ruleset : Str} {sdk : Sdk} {acts : List SdkAct}
    (runs : RunWhere sdkStep InOrder (Sdk.start ruleset) acts sdk) :
    sdk.Forward ∧ ∀ action next, sdkStep sdk action = some next → ¬ InOrder sdk action →
      ∃ call final, sdkStep next (.resume call) = some final ∧ ¬ final.Forward := by
  have sound : sdk.Sound := by
    refine runs.invariant Sdk.Sound (fun _ _ _ inOrder sound steps => sdkStep_sound sound inOrder steps) ?_
    exact ⟨.nil, fun produced none => (by cases none), fun call none => (by cases none),
      fun call none => (by cases none)⟩
  exact ⟨sound.forward, fun _ _ => goes_back⟩

def bannerBody : Str := rulesetBody [flagPayload bannerFlag]

def inOrderRefreshes : List SdkAct :=
  [.refresh, .refresh, .serve 1 200, .write bannerBody, .serve 0 200, .resume 1, .resume 0]

theorem refreshes_forward_overlapping :
    ∃ sdk, RunWhere sdkStep InOrder (Sdk.start (str "[]")) inOrderRefreshes sdk ∧ sdk.installs = [0, 1] ∧
      sdk.Forward := by
  obtain ⟨sdk, runs, installs⟩ := runWhere_reaches sdkStep InOrder (Sdk.start (str "[]")) inOrderRefreshes
    (fun sdk => sdk.installs = [0, 1]) (by decide +kernel)
  exact ⟨sdk, runs, installs, (refreshes_forward runs).1⟩

def overtakenRefresh : List SdkAct :=
  [.refresh, .serve 0 200, .write bannerBody, .refresh, .serve 1 200, .resume 1, .resume 0]

theorem overtakenRefresh_goes_back :
    ∃ sdk, run sdkStep (Sdk.start (str "[]")) overtakenRefresh = some sdk ∧ ¬ sdk.Forward ∧
      sdk.ruleset = bannerBody ∧ sdk.flags.lookup (str "banner") = none :=
  run_reaches sdkStep (Sdk.start (str "[]")) overtakenRefresh
    (fun sdk => ¬ sdk.installs.Pairwise (· ≤ ·) ∧ sdk.ruleset = bannerBody ∧ sdk.flags.lookup (str "banner") = none)
    (by decide +kernel)

end Ripcord
