import Mathlib.Logic.Function.Basic
import Mathlib.Logic.Relation
import Mathlib.Order.Defs.PartialOrder

namespace Foundation

section Runs

variable {State Action : Type*}

def run (step : State → Action → Option State) : State → List Action → Option State
  | state, [] => some state
  | state, action :: rest => (step state action).bind fun next => run step next rest

/-- A run from one state to another whose every step is `allowed` in the state it starts from. -/
inductive RunWhere (step : State → Action → Option State) (allowed : State → Action → Prop) :
    State → List Action → State → Prop
  | nil (state : State) : RunWhere step allowed state [] state
  | cons {state next final : State} {action : Action} {rest : List Action}
      (allows : allowed state action) (steps : step state action = some next)
      (continues : RunWhere step allowed next rest final) :
      RunWhere step allowed state (action :: rest) final

variable {step : State → Action → Option State}

theorem run_cons {state final : State} {action : Action} {rest : List Action}
    (runs : run step state (action :: rest) = some final) :
    ∃ next, step state action = some next ∧ run step next rest = some final :=
  Option.bind_eq_some_iff.mp runs

theorem RunWhere.run {allowed : State → Action → Prop} {state final : State} {actions : List Action}
    (runs : RunWhere step allowed state actions final) : Foundation.run step state actions = some final := by
  induction runs with
  | nil => rfl
  | cons _ steps _ ih => simp only [Foundation.run, steps, Option.bind_some, ih]

theorem RunWhere.of_run {allowed : State → Action → Prop} {state final : State} {actions : List Action}
    (always : ∀ state action, action ∈ actions → allowed state action)
    (runs : Foundation.run step state actions = some final) : RunWhere step allowed state actions final := by
  induction actions generalizing state with
  | nil =>
    cases runs
    exact .nil _
  | cons action rest ih =>
    obtain ⟨next, steps, continues⟩ := run_cons runs
    exact .cons (always _ _ (by simp)) steps
      (ih (fun state action member => always state action (List.mem_cons_of_mem _ member)) continues)

theorem RunWhere.weaken {allowed wider : State → Action → Prop} {state final : State} {actions : List Action}
    (runs : RunWhere step allowed state actions final)
    (implied : ∀ state action, allowed state action → wider state action) :
    RunWhere step wider state actions final := by
  induction runs with
  | nil => exact .nil _
  | cons allows steps _ ih => exact .cons (implied _ _ allows) steps ih

theorem RunWhere.invariant {allowed : State → Action → Prop} (holds : State → Prop)
    (kept : ∀ state action next, allowed state action → holds state →
      step state action = some next → holds next)
    {state final : State} {actions : List Action}
    (runs : RunWhere step allowed state actions final) (initial : holds state) : holds final := by
  induction runs with
  | nil => exact initial
  | cons allows steps _ ih => exact ih (kept _ _ _ allows initial steps)

theorem run_invariant (holds : State → Prop)
    (kept : ∀ state action next, holds state → step state action = some next → holds next)
    {state final : State} {actions : List Action}
    (runs : run step state actions = some final) (initial : holds state) : holds final :=
  have unguarded : RunWhere step (fun _ _ => True) state actions final :=
    RunWhere.of_run (fun _ _ _ => trivial) runs
  unguarded.invariant holds (fun _ _ _ _ held steps => kept _ _ _ held steps) initial

theorem RunWhere.weaken_of_invariant {allowed wider : State → Action → Prop} (holds : State → Prop)
    (kept : ∀ state action next, allowed state action → holds state →
      step state action = some next → holds next)
    (implied : ∀ state action, holds state → allowed state action → wider state action)
    {state final : State} {actions : List Action}
    (runs : RunWhere step allowed state actions final) (initial : holds state) :
    RunWhere step wider state actions final := by
  induction runs with
  | nil => exact .nil _
  | cons allows steps _ ih =>
    exact .cons (implied _ _ initial allows) steps (ih (kept _ _ _ allows initial steps))

/-- Where each counted step spends some of the work that is left, and only income adds to it, a run counts no more
    steps than that. -/
theorem RunWhere.budget {allowed : State → Action → Prop} (holds : State → Prop) (work income : State → Nat)
    (counts : Action → Bool)
    (kept : ∀ state action next, allowed state action → holds state → step state action = some next → holds next)
    (spends : ∀ state action next, allowed state action → holds state → step state action = some next →
      (counts action).toNat + work next + income state ≤ work state + income next)
    {state final : State} {actions : List Action} (runs : RunWhere step allowed state actions final)
    (initial : holds state) :
    actions.countP counts + work final + income state ≤ work state + income final := by
  induction runs with
  | nil state => simp
  | @cons state next final action rest allows steps _ ih =>
    have here := spends _ _ _ allows initial steps
    have after := ih (kept _ _ _ allows initial steps)
    have counted : (action :: rest).countP counts = rest.countP counts + (counts action).toNat := by
      rw [List.countP_cons]
      cases counts action <;> rfl
    omega

/-- Where a step that is not allowed leaves something bad that nothing undoes, what a run ends in tells
    whether its steps were allowed. -/
theorem runWhere_iff {allowed : State → Action → Prop} (sound good bad : State → Prop)
    (kept : ∀ state action next, sound state → step state action = some next → sound next)
    (well : ∀ state action next, sound state → good state → allowed state action →
      step state action = some next → good next)
    (breaks : ∀ state action next, sound state → ¬ allowed state action → step state action = some next → bad next)
    (stays : ∀ state action next, sound state → bad state → step state action = some next → bad next)
    (apart : ∀ state, bad state → ¬ good state)
    {state final : State} {actions : List Action} (runs : run step state actions = some final)
    (initial : sound state) (healthy : good state) : good final ↔ RunWhere step allowed state actions final := by
  constructor
  · intro ends
    induction actions generalizing state with
    | nil =>
      cases runs
      exact .nil _
    | cons action rest ih =>
      obtain ⟨next, steps, continues⟩ := run_cons runs
      have initialNext := kept _ _ _ initial steps
      by_cases allows : allowed state action
      · exact .cons allows steps (ih continues initialNext (well _ _ _ initial healthy allows steps))
      · have spoiled : sound final ∧ bad final := by
          refine run_invariant (fun state => sound state ∧ bad state) ?_ continues
            ⟨initialNext, breaks _ _ _ initial allows steps⟩
          rintro state action next ⟨holds, worse⟩ steps
          exact ⟨kept _ _ _ holds steps, stays _ _ _ holds worse steps⟩
        exact absurd ends (apart final spoiled.2)
  · intro within
    have both : sound final ∧ good final := by
      refine within.invariant (fun state => sound state ∧ good state) ?_ ⟨initial, healthy⟩
      rintro state action next allows ⟨holds, better⟩ steps
      exact ⟨kept _ _ _ holds steps, well _ _ _ holds better allows steps⟩
    exact both.2

def guardedRun (step : State → Action → Option State) (allowed : State → Action → Prop)
    [∀ state action, Decidable (allowed state action)] : State → List Action → Option State
  | state, [] => some state
  | state, action :: rest =>
    if allowed state action then
      (step state action).bind fun next => guardedRun step allowed next rest
    else none

theorem guardedRun_eq_some {allowed : State → Action → Prop} [∀ state action, Decidable (allowed state action)]
    {state final : State} {actions : List Action} :
    guardedRun step allowed state actions = some final ↔ RunWhere step allowed state actions final := by
  constructor
  · intro runs
    induction actions generalizing state with
    | nil =>
      cases runs
      exact .nil _
    | cons action rest ih =>
      simp only [guardedRun] at runs
      split at runs
      · rename_i allows
        obtain ⟨next, steps, continues⟩ := Option.bind_eq_some_iff.mp runs
        exact .cons allows steps (ih continues)
      · cases runs
  · intro runs
    induction runs with
    | nil => rfl
    | cons allows steps _ ih => simp only [guardedRun, if_pos allows, steps, Option.bind_some, ih]

theorem not_runWhere {allowed : State → Action → Prop} [∀ state action, Decidable (allowed state action)]
    {state : State} {actions : List Action} (refused : (guardedRun step allowed state actions).isNone)
    (final : State) : ¬ RunWhere step allowed state actions final := by
  intro runs
  rw [guardedRun_eq_some.mpr runs] at refused
  cases refused

theorem runWhere_reaches (step : State → Action → Option State) (allowed : State → Action → Prop)
    [∀ state action, Decidable (allowed state action)] (state : State) (actions : List Action)
    (holds : State → Prop) [DecidablePred holds]
    (reaches : (guardedRun step allowed state actions).any (fun final => holds final) = true) :
    ∃ final, RunWhere step allowed state actions final ∧ holds final := by
  obtain ⟨final, runs, reached⟩ := (Option.any_eq_true _ _).mp reaches
  exact ⟨final, guardedRun_eq_some.mp runs, of_decide_eq_true reached⟩

theorem run_reaches (step : State → Action → Option State) (state : State) (actions : List Action)
    (holds : State → Prop) [DecidablePred holds]
    (reaches : (run step state actions).any (fun final => holds final) = true) :
    ∃ final, run step state actions = some final ∧ holds final := by
  obtain ⟨final, runs, reached⟩ := (Option.any_eq_true _ _).mp reaches
  exact ⟨final, runs, of_decide_eq_true reached⟩

end Runs

section Worlds

structure World (Shared Party : Type*) where
  shared : Shared
  parties : Nat → Party

variable {Shared Party Action : Type*}

def World.act (step : Shared → Party → Action → Option (Shared × Party)) (world : World Shared Party)
    (action : Nat × Action) : Option (World Shared Party) :=
  (step world.shared (world.parties action.1) action.2).map fun result =>
    ⟨result.1, Function.update world.parties action.1 result.2⟩

variable {step : Shared → Party → Action → Option (Shared × Party)}

theorem World.act_cases {world next : World Shared Party} {who : Nat} {action : Action}
    (acts : world.act step (who, action) = some next) :
    ∃ shared party, step world.shared (world.parties who) action = some (shared, party) ∧
      next = ⟨shared, Function.update world.parties who party⟩ := by
  obtain ⟨⟨shared, party⟩, steps, rfl⟩ := Option.map_eq_some_iff.mp acts
  exact ⟨shared, party, steps, rfl⟩

/-- The rely-guarantee rule: a step keeps `common` and its own party's invariant, and disturbs no
    other party's. -/
theorem World.act_invariant (common : Shared → Prop) (own : Shared → Party → Prop)
    {world next : World Shared Party} {who : Nat} {action : Action}
    (acts : world.act step (who, action) = some next) (each : ∀ who, own world.shared (world.parties who))
    (kept : ∀ shared party, step world.shared (world.parties who) action = some (shared, party) →
      common shared ∧ own shared party ∧ ∀ other, own world.shared other → own shared other) :
    common next.shared ∧ ∀ who, own next.shared (next.parties who) := by
  obtain ⟨shared, party, steps, rfl⟩ := World.act_cases acts
  obtain ⟨commonAfter, ownAfter, others⟩ := kept shared party steps
  refine ⟨commonAfter, fun other => ?_⟩
  by_cases same : other = who
  · subst same
    simpa using ownAfter
  · simpa [Function.update_of_ne same] using others _ (each other)

/-- An obligation of the shared store that some party carries: a step that leaves it owed either takes it on
    or found it owed, and not with its own party. -/
theorem World.act_carried (owed : Shared → Prop) (carries : Party → Prop) {world next : World Shared Party} {who : Nat}
    {action : Action} (acts : world.act step (who, action) = some next)
    (carried : owed world.shared → ∃ who, carries (world.parties who))
    (kept : ∀ shared party, step world.shared (world.parties who) action = some (shared, party) →
      owed shared → carries party ∨ owed world.shared ∧ ¬ carries (world.parties who)) :
    owed next.shared → ∃ who, carries (next.parties who) := by
  intro owes
  obtain ⟨shared, party, steps, rfl⟩ := World.act_cases acts
  rcases kept shared party steps owes with takes | ⟨before, free⟩
  · exact ⟨who, by simpa using takes⟩
  · obtain ⟨other, holds⟩ := carried before
    have elsewhere : other ≠ who := fun same => free (same ▸ holds)
    exact ⟨other, by simpa [Function.update_of_ne elsewhere] using holds⟩

def World.view {Coarse : Type*} (view : Party → Coarse) (world : World Shared Party) : World Shared Coarse :=
  ⟨world.shared, fun who => view (world.parties who)⟩

/-- Where a step of a party is one that its view can take, or one that its view does not see, the step of the world
    is so too. -/
theorem World.act_view {Coarse Seen : Type*} {coarse : Shared → Coarse → Seen → Option (Shared × Coarse)}
    {allowed : Seen → Prop} (view : Party → Coarse) {world next : World Shared Party} {who : Nat} {action : Action}
    (acts : world.act step (who, action) = some next)
    (simulates : ∀ shared party, step world.shared (world.parties who) action = some (shared, party) →
      (∃ other, allowed other ∧ coarse world.shared (view (world.parties who)) other = some (shared, view party)) ∨
      shared = world.shared ∧ view party = view (world.parties who)) :
    (∃ other, allowed other ∧ (world.view view).act coarse (who, other) = some (next.view view)) ∨
      next.view view = world.view view := by
  obtain ⟨shared, party, steps, rfl⟩ := World.act_cases acts
  have viewed : World.view view ⟨shared, Function.update world.parties who party⟩ =
      ⟨shared, Function.update (world.view view).parties who (view party)⟩ := by
    rw [World.view, World.mk.injEq]
    exact ⟨rfl, funext fun other => Function.apply_update (fun _ => view) world.parties who party other⟩
  rw [viewed]
  rcases simulates shared party steps with ⟨other, allows, moves⟩ | ⟨same, unseen⟩
  · exact .inl ⟨other, allows, Option.map_eq_some_iff.mpr ⟨_, moves, rfl⟩⟩
  · rw [unseen, same]
    exact .inr (congrArg (World.mk world.shared) (Function.update_eq_self who (world.view view).parties))

theorem World.run_others {world final : World Shared Party} {who : Nat} {actions : List (Nat × Action)}
    (others : ∀ action ∈ actions, action.1 ≠ who)
    (runs : run (World.act step) world actions = some final) : final.parties who = world.parties who := by
  induction actions generalizing world with
  | nil =>
    cases runs
    rfl
  | cons action rest ih =>
    obtain ⟨next, acts, continues⟩ := run_cons runs
    obtain ⟨shared, party, _, rfl⟩ := World.act_cases acts
    have elsewhere : who ≠ action.1 := (others action (by simp)).symm
    have onwards := ih (fun action member => others action (List.mem_cons_of_mem _ member)) continues
    rw [onwards]
    exact Function.update_of_ne elsewhere _ _

end Worlds

section Deadlock

variable {ι : Type*} {waits : ι → ι → Prop}

def Deadlocked (waits : ι → ι → Prop) : Prop := ∃ i, Relation.TransGen waits i i

theorem not_deadlocked_of_rank {β : Type*} [Preorder β] (rank : ι → β)
    (rises : ∀ i j k, waits i j → waits j k → rank i < rank j) : ¬ Deadlocked waits := by
  intro ⟨i, cycle⟩
  have along : ∀ j, Relation.TransGen waits i j → (∃ k, waits j k) → rank i < rank j := by
    intro j path
    induction path with
    | single first =>
      intro ⟨k, on⟩
      exact rises _ _ k first on
    | tail _ last ih =>
      intro ⟨k, on⟩
      exact lt_trans (ih ⟨_, last⟩) (rises _ _ k last on)
  obtain ⟨k, first, _⟩ := Relation.TransGen.head'_iff.mp cycle
  exact lt_irrefl _ (along i cycle ⟨k, first⟩)

end Deadlock

end Foundation
