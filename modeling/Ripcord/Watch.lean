import Ripcord.Foundation.Str
import Ripcord.Foundation.Transition

namespace Ripcord

open Foundation

/-! The watch loop's reading of the event stream. -/

def isBlank (c : CodePoint) : Bool :=
  (9 ≤ c.val ∧ c.val ≤ 13) ∨ (28 ≤ c.val ∧ c.val ≤ 32) ∨ (0x2000 ≤ c.val ∧ c.val ≤ 0x200A) ∨
    c.val ∈ [0x85, 0xA0, 0x1680, 0x2028, 0x2029, 0x202F, 0x205F, 0x3000]

def strip (s : Str) : Str := ((s.dropWhile isBlank).reverse.dropWhile isBlank).reverse

/-- One line of the stream: the event name in force after it, and whether it calls for a refresh. -/
def watchLine (event : Option Str) (line : Str) : Option Str × Bool :=
  if (str "event:").isPrefixOf line then (some (strip (line.drop (str "event:").length)), false)
  else if (str "data:").isPrefixOf line ∧ event = some (str "flag-change") then (event, true)
  else if line = [] then (none, false)
  else (event, false)

def triggers : Option Str → List Str → Bool
  | _, [] => false
  | event, line :: rest => (watchLine event line).2 || triggers (watchLine event line).1 rest

def eventLines (event data : Str) : List Str := [str "event: " ++ event, str "data: " ++ data, []]

def pingLines : List Str := [str ": ping", []]

inductive Fetch (Ruleset : Type)
  | idle
  | requested
  | answered (ruleset : Ruleset)
  deriving DecidableEq

inductive Stream
  | closed
  | subscribed (event : Option Str) (lines : List Str)
  deriving DecidableEq

/-- One watching client and its server. `ruleset` is what `GET /ruleset` returns; `unpublished` counts the
    changes that it already shows and that have yet to be published; `flags` is `none` before the first
    refresh. -/
structure Watched (Ruleset : Type) where
  ruleset : Ruleset
  unpublished : Nat
  started : Bool
  flags : Option Ruleset
  fetch : Fetch Ruleset
  watching : Bool
  stream : Stream
  deriving DecidableEq

inductive WatchAct (Ruleset : Type)
  | start
  | serve
  | install
  | connect
  | line
  | ping
  | disconnect
  | write (ruleset : Ruleset)
  | publish (data : Str)

variable {Ruleset : Type}

def Watched.start (ruleset : Ruleset) : Watched Ruleset := ⟨ruleset, 0, false, none, .idle, false, .closed⟩

def watchStep (state : Watched Ruleset) : WatchAct Ruleset → Option (Watched Ruleset)
  | .start => if state.started then none else some { state with started := true, fetch := .requested }
  | .serve =>
    match state.fetch with
    | .requested => some { state with fetch := .answered state.ruleset }
    | _ => none
  | .install =>
    match state.fetch with
    | .answered ruleset => some { state with flags := some ruleset, fetch := .idle, watching := true }
    | _ => none
  | .connect =>
    match state.stream, state.fetch with
    | .closed, .idle =>
      if state.watching then
        some { state with stream := .subscribed none (eventLines (str "connected") (str "ok")) }
      else none
    | _, _ => none
  | .line =>
    match state.stream, state.fetch with
    | .subscribed event (line :: rest), .idle =>
      let (event, refreshes) := watchLine event line
      some { state with
        stream := .subscribed event rest
        fetch := if refreshes then .requested else .idle }
    | _, _ => none
  | .ping =>
    match state.stream with
    | .subscribed event lines => some { state with stream := .subscribed event (lines ++ pingLines) }
    | .closed => none
  | .disconnect =>
    match state.stream with
    | .subscribed .. => some { state with stream := .closed }
    | .closed => none
  | .write ruleset => some { state with ruleset, unpublished := state.unpublished + 1 }
  | .publish data =>
    if state.unpublished = 0 then none
    else
      some { state with
        unpublished := state.unpublished - 1
        stream := match state.stream with
          | .subscribed event lines => .subscribed event (lines ++ eventLines (str "flag-change") data)
          | .closed => .closed }

def Watched.Settled (state : Watched Ruleset) : Prop :=
  (∃ event, state.stream = .subscribed event []) ∧ state.fetch = .idle ∧ state.unpublished = 0

/-- The client holds an old ruleset, and no `GET` of its own will bring it the current one. -/
def Watched.Behind (state : Watched Ruleset) : Prop :=
  match state.fetch with
  | .requested => False
  | .answered ruleset => ruleset ≠ state.ruleset
  | .idle => state.started ∧ state.flags ≠ some state.ruleset

def Watched.Told (state : Watched Ruleset) : Prop :=
  match state.stream with
  | .subscribed event lines => triggers event lines
  | .closed => False

/-- No last announcement is published to nobody, and none is lost with its stream, while the client is
    behind. -/
def NothingMissed (state : Watched Ruleset) : WatchAct Ruleset → Prop
  | .publish _ => state.unpublished = 1 → state.stream = .closed → ¬ state.Behind
  | .disconnect => state.unpublished = 0 → state.Told → ¬ state.Behind
  | _ => True

section Lines

theorem triggers_append (event : Option Str) (lines more : List Str) (pending : triggers event lines) :
    triggers event (lines ++ more) := by
  induction lines generalizing event with
  | nil => cases pending
  | cons line rest ih =>
    simp only [triggers, List.cons_append, Bool.or_eq_true] at pending ⊢
    exact pending.imp_right (ih _)

theorem watchLine_flagChange (event : Option Str) :
    watchLine event (str "event: " ++ str "flag-change") = (some (str "flag-change"), false) := by
  have named : strip ((str "event: " ++ str "flag-change").drop (str "event:").length) = str "flag-change" := by decide
  have opens : (str "event:").isPrefixOf (str "event: " ++ str "flag-change") = true := by decide
  simp only [watchLine, opens, if_true, named]

theorem watchLine_data (data : Str) :
    watchLine (some (str "flag-change")) (str "data: " ++ data) = (some (str "flag-change"), true) := by
  have other : (str "event:").isPrefixOf (str "data: " ++ data) = false := rfl
  have opens : (str "data:").isPrefixOf (str "data: " ++ data) = true := rfl
  simp [watchLine, other, opens]

theorem triggers_flagChange (event : Option Str) (lines : List Str) (data : Str) :
    triggers event (lines ++ eventLines (str "flag-change") data) := by
  induction lines generalizing event with
  | nil => simp [eventLines, triggers, watchLine_flagChange, watchLine_data]
  | cons line rest ih =>
    simp only [triggers, List.cons_append, Bool.or_eq_true]
    exact .inr (ih _)

end Lines

structure Watched.Informed (state : Watched Ruleset) : Prop where
  subscribed : state.stream ≠ .closed → state.started
  watching : state.watching → state.started
  requested : state.fetch ≠ .idle → state.started
  informed : state.Behind → 0 < state.unpublished ∨ state.Told

theorem Watched.start_informed (ruleset : Ruleset) : (Watched.start ruleset).Informed :=
  ⟨fun opened => absurd rfl opened, fun watching => absurd watching Bool.false_ne_true, fun busy => absurd rfl busy,
    fun behind => absurd behind.1 Bool.false_ne_true⟩

section Steps

variable {state next : Watched Ruleset}

theorem line_informed {event : Option Str} {line : Str} {rest : List Str} (informed : state.Informed)
    (reading : state.stream = .subscribed event (line :: rest)) (idle : state.fetch = .idle) :
    Watched.Informed { state with
      stream := .subscribed (watchLine event line).1 rest
      fetch := if (watchLine event line).2 then .requested else .idle } := by
  have started : state.started := informed.subscribed (by simp [reading])
  refine ⟨fun _ => started, informed.watching, fun _ => started, ?_⟩
  cases calls : (watchLine event line).2 with
  | true => exact fun behind => absurd behind id
  | false =>
    intro behind
    have before : state.Behind := by simpa [Watched.Behind, idle] using behind
    apply (informed.informed before).imp_right
    intro told
    simpa [Watched.Told, reading, triggers, calls] using told

theorem install_informed {ruleset : Ruleset} (informed : state.Informed)
    (answered : state.fetch = .answered ruleset) :
    Watched.Informed { state with flags := some ruleset, fetch := .idle, watching := true } := by
  have started : state.started := informed.requested (by simp [answered])
  refine ⟨fun _ => started, fun _ => started, fun _ => started, fun behind => ?_⟩
  apply informed.informed
  have old : ruleset ≠ state.ruleset := fun same => behind.2 (congrArg some same)
  simpa [Watched.Behind, answered] using old

theorem publish_informed {data : Str} (informed : state.Informed)
    (missesNothing : NothingMissed state (.publish data))
    (steps : watchStep state (.publish data) = some next) : next.Informed := by
  simp only [watchStep] at steps
  split at steps <;> cases steps
  rename_i waiting
  cases streaming : state.stream with
  | closed =>
    have several : state.Behind → state.unpublished ≠ 1 := fun behind last => missesNothing last streaming behind
    refine ⟨fun opened => absurd rfl opened, informed.watching, informed.requested, fun behind => .inl ?_⟩
    have others := several behind
    show 0 < state.unpublished - 1
    omega
  | subscribed event lines =>
    have started : state.started := informed.subscribed (by simp [streaming])
    have told := triggers_flagChange event lines data
    exact ⟨fun _ => started, informed.watching, informed.requested, fun _ => .inr told⟩

theorem Watched.Informed.step {act : WatchAct Ruleset} (informed : state.Informed)
    (missesNothing : NothingMissed state act) (steps : watchStep state act = some next) : next.Informed := by
  cases act with
  | start =>
    simp only [watchStep] at steps
    split at steps <;> cases steps
    exact ⟨fun _ => rfl, fun _ => rfl, fun _ => rfl, fun behind => absurd behind id⟩
  | serve =>
    simp only [watchStep] at steps
    split at steps <;> cases steps
    rename_i requested
    have started : state.started := informed.requested (by simp [requested])
    exact ⟨fun _ => started, fun _ => started, fun _ => started, fun behind => absurd rfl behind⟩
  | install =>
    simp only [watchStep] at steps
    split at steps <;> cases steps
    rename_i ruleset answered
    exact install_informed informed answered
  | connect =>
    simp only [watchStep] at steps
    split at steps
    · rename_i closed idle
      split at steps <;> cases steps
      rename_i watching
      have started : state.started := informed.watching watching
      refine ⟨fun _ => started, fun _ => started, informed.requested, fun behind => .inl ?_⟩
      exact (informed.informed behind).resolve_right (by simp [Watched.Told, closed])
    · cases steps
  | line =>
    simp only [watchStep] at steps
    split at steps <;> cases steps
    rename_i event line rest reading idle
    exact line_informed informed reading idle
  | ping =>
    simp only [watchStep] at steps
    split at steps <;> cases steps
    rename_i event lines reading
    have started : state.started := informed.subscribed (by simp [reading])
    have told : state.Told → triggers event (lines ++ pingLines) := by
      intro told
      have pending : triggers event lines := by simpa [Watched.Told, reading] using told
      exact triggers_append event lines pingLines pending
    exact ⟨fun _ => started, informed.watching, informed.requested,
      fun behind => (informed.informed behind).imp_right told⟩
  | disconnect =>
    simp only [watchStep] at steps
    split at steps <;> cases steps
    have waiting : state.Behind → 0 < state.unpublished := by
      intro behind
      rcases informed.informed behind with waiting | told
      · exact waiting
      · exact Nat.pos_of_ne_zero fun none => missesNothing none told behind
    exact ⟨fun opened => absurd rfl opened, informed.watching, informed.requested,
      fun behind => .inl (waiting behind)⟩
  | write ruleset =>
    cases steps
    exact ⟨informed.subscribed, informed.watching, informed.requested, fun _ => .inl (Nat.succ_pos _)⟩
  | publish data => exact publish_informed informed missesNothing steps

end Steps

/-- In every run in which nothing is missed, a settled client has the server's current ruleset. -/
theorem watch_upToDate {ruleset : Ruleset} {acts : List (WatchAct Ruleset)} {state : Watched Ruleset}
    (runs : RunWhere watchStep NothingMissed (Watched.start ruleset) acts state) (settled : state.Settled) :
    state.flags = some state.ruleset := by
  have informed : state.Informed := runs.invariant _
    (fun _ _ _ missesNothing informed steps => informed.step missesNothing steps) (Watched.start_informed ruleset)
  obtain ⟨⟨event, streaming⟩, idle, announced⟩ := settled
  by_contra differs
  have started : state.started := informed.subscribed (by simp [streaming])
  have behind : state.Behind := by simpa [Watched.Behind, idle] using ⟨started, differs⟩
  rcases informed.informed behind with waiting | told
  · omega
  · simp [Watched.Told, streaming, triggers] at told

instance [DecidableEq Ruleset] (state : Watched Ruleset) : Decidable state.Behind := by
  unfold Watched.Behind
  split <;> infer_instance

instance (state : Watched Ruleset) : Decidable state.Told := by
  unfold Watched.Told
  split <;> infer_instance

instance [DecidableEq Ruleset] (state : Watched Ruleset) : DecidablePred (NothingMissed state)
  | .publish _ => inferInstanceAs (Decidable (state.unpublished = 1 → state.stream = .closed → ¬ state.Behind))
  | .disconnect => inferInstanceAs (Decidable (state.unpublished = 0 → state.Told → ¬ state.Behind))
  | .start | .serve | .install | .connect | .line | .ping | .write _ => inferInstanceAs (Decidable True)

def told : List (WatchAct Nat) :=
  [.start, .serve, .install, .connect, .line, .line, .line, .write 1, .publish (str "\x7b\x7d"), .line, .line,
    .serve, .install, .line]

theorem watch_upToDate_told : ∃ state, RunWhere watchStep NothingMissed (Watched.start 0) told state ∧
    state.Settled ∧ state.flags = some 1 ∧ state.flags = some state.ruleset := by
  obtain ⟨state, runs, streaming, idle, announced, current⟩ := runWhere_reaches watchStep
    NothingMissed (Watched.start 0) told
    (fun state => state.stream = .subscribed none [] ∧ state.fetch = .idle ∧ state.unpublished = 0 ∧
      state.flags = some 1) (by decide +kernel)
  have settled : state.Settled := ⟨⟨none, streaming⟩, idle, announced⟩
  exact ⟨state, runs, settled, current, watch_upToDate runs settled⟩

/-- A change is made and published after the first fetch is answered and before the stream is up. -/
def missedChange : List (WatchAct Nat) :=
  [.start, .serve, .install, .write 1, .publish (str "\x7b\x7d"), .connect, .line, .line, .line]

theorem missedChange_outOfDate : ∃ state, run watchStep (Watched.start 0) missedChange = some state ∧
    state.Settled ∧ state.flags = some 0 ∧ state.ruleset = 1 := by
  obtain ⟨state, runs, streaming, idle, announced, old, current⟩ := run_reaches watchStep
    (Watched.start 0) missedChange
    (fun state => state.stream = .subscribed none [] ∧ state.fetch = .idle ∧ state.unpublished = 0 ∧
      state.flags = some 0 ∧ state.ruleset = 1) (by decide +kernel)
  exact ⟨state, runs, ⟨⟨none, streaming⟩, idle, announced⟩, old, current⟩

end Ripcord
