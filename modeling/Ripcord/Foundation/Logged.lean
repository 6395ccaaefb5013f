import Mathlib.Data.List.Basic

namespace Foundation

/-- A computation with what it asked of an oracle on the way, in order, kept also where it fails. -/
structure Logged (ω ε α : Type*) where
  log : List ω
  result : Except ε α

namespace Logged

variable {ω ε α β γ : Type*}

def ofResult (result : Except ε α) : Logged ω ε α where
  log := []
  result := result

def ask (oracle : ω → α) (query : ω) : Logged ω ε α where
  log := [query]
  result := .ok (oracle query)

def map (f : α → β) (x : Logged ω ε α) : Logged ω ε β where
  log := x.log
  result := x.result.map f

def bind (x : Logged ω ε α) (next : α → Logged ω ε β) : Logged ω ε β :=
  match x.result with
  | .ok a => { log := x.log ++ (next a).log, result := (next a).result }
  | .error failure => { log := x.log, result := .error failure }

@[simp] theorem log_ofResult (result : Except ε α) : (ofResult result : Logged ω ε α).log = [] := rfl

@[simp] theorem result_ofResult (result : Except ε α) : (ofResult result : Logged ω ε α).result = result := rfl

@[simp] theorem log_ask (oracle : ω → α) (query : ω) : (ask oracle query : Logged ω ε α).log = [query] := rfl

@[simp] theorem result_ask (oracle : ω → α) (query : ω) :
    (ask oracle query : Logged ω ε α).result = .ok (oracle query) := rfl

@[simp] theorem log_map (f : α → β) (x : Logged ω ε α) : (x.map f).log = x.log := rfl

@[simp] theorem result_map (f : α → β) (x : Logged ω ε α) : (x.map f).result = x.result.map f := rfl

@[simp] theorem map_ofResult (f : α → β) (result : Except ε α) :
    (ofResult result : Logged ω ε α).map f = ofResult (result.map f) := rfl

@[simp] theorem map_map (f : α → β) (g : β → γ) (x : Logged ω ε α) : (x.map f).map g = x.map fun a => g (f a) := by
  unfold map
  cases x.result <;> rfl

@[simp] theorem result_bind (x : Logged ω ε α) (next : α → Logged ω ε β) :
    (x.bind next).result = x.result.bind fun a => (next a).result := by
  unfold bind
  cases x.result <;> rfl

theorem log_bind_ok {x : Logged ω ε α} {a : α} (gives : x.result = .ok a) (next : α → Logged ω ε β) :
    (x.bind next).log = x.log ++ (next a).log := by
  simp only [bind, gives]

theorem log_bind_error {x : Logged ω ε α} {failure : ε} (fails : x.result = .error failure)
    (next : α → Logged ω ε β) : (x.bind next).log = x.log := by
  simp only [bind, fails]

theorem mem_log_bind {x : Logged ω ε α} {next : α → Logged ω ε β} {query : ω} :
    query ∈ (x.bind next).log ↔ query ∈ x.log ∨ ∃ a, x.result = .ok a ∧ query ∈ (next a).log := by
  cases gives : x.result with
  | ok a => simp [log_bind_ok gives]
  | error failure => simp [log_bind_error gives]

theorem log_bind_sublist {x : Logged ω ε α} {next : α → Logged ω ε β} {earlier later : List ω}
    (first : x.log.Sublist earlier) (second : ∀ a, (next a).log.Sublist later) :
    (x.bind next).log.Sublist (earlier ++ later) := by
  cases gives : x.result with
  | ok a =>
    rw [log_bind_ok gives]
    exact first.append (second a)
  | error failure =>
    rw [log_bind_error gives]
    exact first.trans (List.sublist_append_left earlier later)

end Logged

section Oracles

variable {ω ρ ε α β : Type*}

/-- What a run does depends on its oracle only through the answers to what it asks. -/
def DependsOnLog (run : (ω → ρ) → Logged ω ε α) : Prop :=
  ∀ oracle other, (∀ query ∈ (run oracle).log, oracle query = other query) → run oracle = run other

theorem dependsOnLog_ofResult (result : Except ε α) :
    DependsOnLog fun _ : ω → ρ => (Logged.ofResult result : Logged ω ε α) :=
  fun _ _ _ => rfl

theorem dependsOnLog_ask (query : ω) :
    DependsOnLog fun oracle : ω → ρ => (Logged.ask oracle query : Logged ω ε ρ) := by
  intro oracle other agree
  have answer : oracle query = other query := agree query (by simp)
  simp only [Logged.ask, answer]

theorem DependsOnLog.map {run : (ω → ρ) → Logged ω ε α} (depends : DependsOnLog run) (f : α → β) :
    DependsOnLog fun oracle => (run oracle).map f := by
  intro oracle other agree
  simp only [depends oracle other agree]

theorem DependsOnLog.bind {run : (ω → ρ) → Logged ω ε α} {next : (ω → ρ) → α → Logged ω ε β}
    (depends : DependsOnLog run) (later : ∀ a, DependsOnLog fun oracle => next oracle a) :
    DependsOnLog fun oracle => (run oracle).bind (next oracle) := by
  intro oracle other agree
  have first : run oracle = run other :=
    depends oracle other fun query asked => agree query (Logged.mem_log_bind.mpr (.inl asked))
  cases gives : (run oracle).result with
  | ok a =>
    have second : next oracle a = next other a :=
      later a oracle other fun query asked => agree query (Logged.mem_log_bind.mpr (.inr ⟨a, gives, asked⟩))
    have also : (run other).result = .ok a := first ▸ gives
    simp only [Logged.bind, also, first, second]
  | error failure =>
    have also : (run other).result = .error failure := first ▸ gives
    simp only [Logged.bind, also, first]

/-- Where runs of different owners ask different things, each goes as if its owner had an oracle of its own. -/
theorem exists_common_oracle [Inhabited ρ] {ι κ : Type*} {runs : ι → (ω → ρ) → Logged ω ε α}
    (depends : ∀ i, DependsOnLog (runs i)) (owner : ι → κ) (oracles : κ → ω → ρ)
    (apart : ∀ i j, ∀ query ∈ (runs i (oracles (owner i))).log, query ∈ (runs j (oracles (owner j))).log →
      owner i = owner j) :
    ∃ oracle, ∀ i, runs i oracle = runs i (oracles (owner i)) := by
  classical
  let asks (query : ω) (i : ι) : Prop := query ∈ (runs i (oracles (owner i))).log
  let oracle (query : ω) : ρ := if asked : ∃ i, asks query i then oracles (owner asked.choose) query else default
  use oracle
  intro i
  have agree : ∀ query ∈ (runs i (oracles (owner i))).log, oracles (owner i) query = oracle query := by
    intro query mine
    have asked : ∃ j, asks query j := ⟨i, mine⟩
    have same : owner i = owner asked.choose := apart i asked.choose query mine asked.choose_spec
    simp only [oracle, dif_pos asked, same]
  exact (depends i (oracles (owner i)) oracle agree).symm

end Oracles

end Foundation
