import Mathlib.Data.List.Induction
import Mathlib.Data.Set.Defs
import Ripcord.Foundation.Transition

namespace Foundation

section Once

variable {State Action : Type*} {step : State → Action → Option State} {start final : State}
  {actions more : List Action} {holds : State → Prop}

theorem run_append (state : State) (actions more : List Action) :
    run step state (actions ++ more) = (run step state actions).bind fun middle => run step middle more := by
  induction actions generalizing state with
  | nil => rfl
  | cons action rest ih =>
    simp only [List.cons_append, run, Option.bind_assoc]
    exact congrArg _ (funext ih)

theorem run_snoc {action : Action} (runs : run step start (actions ++ [action]) = some final) :
    ∃ middle, run step start actions = some middle ∧ step middle action = some final := by
  rw [run_append] at runs
  obtain ⟨middle, reaches, ends⟩ := Option.bind_eq_some_iff.mp runs
  obtain ⟨next, steps, same⟩ := run_cons ends
  cases same
  exact ⟨middle, reaches, steps⟩

theorem RunWhere.snoc {allowed : State → Action → Prop} {action : Action} {next : State}
    (runs : RunWhere step allowed start actions final) (allows : allowed final action)
    (steps : step final action = some next) : RunWhere step allowed start (actions ++ [action]) next := by
  induction runs with
  | nil => exact .cons allows steps (.nil _)
  | cons first moves _ ih => exact .cons first moves (ih allows steps)

/-- The run goes through a state of which `holds` is true, be it its first or its last. -/
def Once (step : State → Action → Option State) (start : State) (actions : List Action) (holds : State → Prop) : Prop :=
  ∃ earlier state, earlier <+: actions ∧ run step start earlier = some state ∧ holds state

theorem Once.now (runs : run step start actions = some final) (here : holds final) : Once step start actions holds :=
  ⟨actions, final, List.prefix_refl _, runs, here⟩

theorem Once.append (once : Once step start actions holds) (more : List Action) :
    Once step start (actions ++ more) holds := by
  obtain ⟨earlier, state, front, reaches, here⟩ := once
  exact ⟨earlier, state, front.trans (List.prefix_append _ _), reaches, here⟩

theorem Once.imp {also : State → Prop} (implied : ∀ state, holds state → also state)
    (once : Once step start actions holds) : Once step start actions also := by
  obtain ⟨earlier, state, front, reaches, here⟩ := once
  exact ⟨earlier, state, front, reaches, implied state here⟩

end Once

section Worlds

variable {Shared Party Action : Type*} {step : Shared → Party → Action → Option (Shared × Party)}

theorem World.act_party {world next : World Shared Party} {action : Nat × Action}
    (acts : world.act step action = some next) (who : Nat) :
    action.1 = who ∧ step world.shared (world.parties who) action.2 = some (next.shared, next.parties who) ∨
      action.1 ≠ who ∧ next.parties who = world.parties who := by
  obtain ⟨other, act⟩ := action
  obtain ⟨shared, party, steps, rfl⟩ := World.act_cases acts
  by_cases same : other = who
  · subst same
    left
    simpa using steps
  · right
    exact ⟨same, Function.update_of_ne (Ne.symm same) _ _⟩

def World.Seen (step : Shared → Party → Action → Option (Shared × Party)) (start : World Shared Party)
    (actions : List (Nat × Action)) : Set Shared :=
  { shared | Once (World.act step) start actions fun world => world.shared = shared }

/-- The rely-guarantee rule for invariants that look back. They speak of the states seen so far, which only
    become more, so a step has to keep its own party's and the common one, and nothing else. -/
theorem World.run_seen {start final : World Shared Party} {actions : List (Nat × Action)}
    (common : Set Shared → Shared → Prop) (own : Set Shared → Party → Prop) (allowed : Action → Prop)
    (commonGrows : ∀ seen wider shared, (∀ past ∈ seen, past ∈ wider) → common seen shared → common wider shared)
    (ownGrows : ∀ seen wider party, (∀ past ∈ seen, past ∈ wider) → own seen party → own wider party)
    (kept : ∀ seen shared party action after next, shared ∈ seen → after ∈ seen → allowed action →
      common seen shared → own seen party → step shared party action = some (after, next) →
      common seen after ∧ own seen next)
    (sends : ∀ action ∈ actions, allowed action.2)
    (commonStart : ∀ seen, common seen start.shared) (ownStart : ∀ seen who, own seen (start.parties who))
    (runs : run (World.act step) start actions = some final) :
    common (World.Seen step start actions) final.shared ∧
      ∀ who, own (World.Seen step start actions) (final.parties who) := by
  induction actions using List.reverseRecOn generalizing final with
  | nil =>
    cases runs
    exact ⟨commonStart _, ownStart _⟩
  | append_singleton actions action ih =>
    obtain ⟨middle, reaches, acts⟩ := run_snoc runs
    obtain ⟨before, each⟩ := ih (fun action member => sends action (List.mem_append_left _ member)) reaches
    have wider : ∀ past ∈ World.Seen step start actions, past ∈ World.Seen step start (actions ++ [action]) :=
      fun past seen => Once.append seen [action]
    have here : middle.shared ∈ World.Seen step start (actions ++ [action]) := wider _ (Once.now reaches rfl)
    obtain ⟨who, act⟩ := action
    apply World.act_invariant (common (World.Seen step start (actions ++ [(who, act)])))
      (fun _ party => own (World.Seen step start (actions ++ [(who, act)])) party) acts
      (fun who => ownGrows _ _ _ wider (each who))
    intro shared party steps
    obtain ⟨shared', party', steps', rfl⟩ := World.act_cases acts
    cases steps.symm.trans steps'
    have last : shared ∈ World.Seen step start (actions ++ [(who, act)]) := Once.now runs rfl
    obtain ⟨commonAfter, ownAfter⟩ := kept _ _ _ _ _ _ here last (sends (who, act) (by simp))
      (commonGrows _ _ _ wider before) (ownGrows _ _ _ wider (each who)) steps
    exact ⟨commonAfter, ownAfter, fun _ others => others⟩

end Worlds

end Foundation
