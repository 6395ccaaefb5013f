import Ripcord.Coherence

namespace Ripcord

open Foundation

section Percentages

variable {flagKey userId : Str} {p q : Int} {bucket : Nat}

theorem inRollout_mono (included : inRollout flagKey userId p = .ok true) (le : p ≤ q) :
    inRollout flagKey userId q = .ok true := by
  unfold inRollout at included ⊢
  by_cases full : q ≥ 100
  · rw [if_neg (by omega), if_pos full]
  · by_cases empty : p ≤ 0
    · rw [if_pos empty] at included
      cases included
    · rw [if_neg empty, if_neg (by omega)] at included
      rw [if_neg (by omega), if_neg full]
      obtain ⟨bucket, hashes, below⟩ := map_eq_ok included
      have inside : (bucket : Int) < p * (bucketCount / 100 : Nat) := of_decide_eq_true below
      have wider : (bucket : Int) < q * (bucketCount / 100 : Nat) := by
        have count : ((bucketCount / 100 : Nat) : Int) = 100 := rfl
        rw [count] at inside ⊢
        omega
      simp only [hashes, Except.map, decide_eq_true wider]

theorem inRollout_eq (hashes : bucketFor flagKey userId [] = .ok bucket) (percentage : 0 ≤ p ∧ p ≤ 100) :
    inRollout flagKey userId p = .ok (decide ((bucket : Int) < 100 * p)) := by
  have bound : bucket < 10000 := bucketFor_lt hashes
  unfold inRollout
  split
  · have excluded : ¬ (bucket : Int) < 100 * p := by omega
    rw [decide_eq_false excluded]
  · split
    · have included : (bucket : Int) < 100 * p := by omega
      rw [decide_eq_true included]
    · have count : ((bucketCount / 100 : Nat) : Int) = 100 := rfl
      simp only [hashes, bind, Except.bind, pure, Except.pure, Except.map, count, mul_comm p]

end Percentages

section Monotone

variable {flag : FlagSpec} {userId : Str} {context : Option Context} {evaluation : Evaluation}

theorem evaluate_raised {p q : Int} (le : p ≤ q)
    (gives : evaluate { flag with rolloutPercentage := p } userId context = .ok evaluation) (on : evaluation.enabled) :
    evaluate { flag with rolloutPercentage := q } userId context = .ok evaluation := by
  rcases Bool.eq_false_or_eq_true flag.enabled with enabled | disabled
  · cases first : flag.firstMatch context with
    | some rule =>
      rw [evaluate_matched (by exact enabled) (by exact first)] at gives ⊢
      exact gives
    | none =>
      rw [evaluate_unmatched (by exact enabled) (by exact first)] at gives ⊢
      obtain ⟨included, rolls, gives⟩ := bind_eq_ok gives
      cases included with
      | false =>
        cases gives
        simp at on
      | true =>
        rw [inRollout_mono rolls le]
        exact gives
  · rw [evaluate_off (by exact disabled)] at gives
    cases gives
    simp at on

theorem servedVariant_boolean (boolean : flag.variants = []) (pin : Option Str) (userId : Str) :
    servedVariant flag pin userId = .ok none := by
  unfold servedVariant
  cases found : findVariant flag pin with
  | none => exact chooseVariant_boolean boolean userId
  | some v =>
    have member := (findVariant_some found).1
    rw [boolean] at member
    cases member

/-- An added rule can only turn users on: it takes them off the rollout or stands before another match. -/
theorem evaluate_more_rules {rules : List RuleSpec} (boolean : flag.variants = []) (added : flag.rules.Sublist rules)
    (gives : evaluate flag userId context = .ok evaluation) (on : evaluation.enabled) :
    ∃ later, evaluate { flag with rules } userId context = .ok later ∧ later.enabled := by
  rcases Bool.eq_false_or_eq_true flag.enabled with enabled | disabled
  · cases first : ({ flag with rules } : FlagSpec).firstMatch context with
    | some rule =>
      have serves : servedVariant { flag with rules } rule.variant userId = .ok none :=
        servedVariant_boolean boolean rule.variant userId
      rw [evaluate_matched (by exact enabled) first, serves]
      exact ⟨_, rfl, chosenResult_enabled _ _⟩
    | none =>
      have unmatched : flag.firstMatch context = none := by
        apply List.find?_eq_none.mpr
        exact fun rule member => List.find?_eq_none.mp first rule (added.subset member)
      rw [evaluate_unmatched enabled unmatched] at gives
      rw [evaluate_unmatched (by exact enabled) first]
      exact ⟨evaluation, gives, on⟩
  · rw [evaluate_off disabled] at gives
    cases gives
    simp at on

end Monotone

/-- Raising a rollout keeps everybody who is in it and what they are served, the percentage is exact, and
    rules added to a boolean flag turn nobody off. -/
theorem rollouts_monotone :
    (∀ (flag : FlagSpec) (userId : Str) (context : Option Context) (p q : Int) (evaluation : Evaluation), p ≤ q →
      evaluate { flag with rolloutPercentage := p } userId context = .ok evaluation → evaluation.enabled →
        ∃ later, evaluate { flag with rolloutPercentage := q } userId context = .ok later ∧ later.enabled ∧
          later.variant = evaluation.variant ∧ later.value = evaluation.value) ∧
    (∀ (flagKey userId : Str) (p : Int) (bucket : Nat), 0 ≤ p ∧ p ≤ 100 →
      bucketFor flagKey userId [] = .ok bucket →
        bucket < bucketCount ∧ inRollout flagKey userId p = .ok (decide ((bucket : Int) < 100 * p))) ∧
    ∀ (flag : FlagSpec) (rules : List RuleSpec) (userId : Str) (context : Option Context) (evaluation : Evaluation),
      flag.variants = [] → flag.rules.Sublist rules → evaluate flag userId context = .ok evaluation →
        evaluation.enabled → ∃ later, evaluate { flag with rules } userId context = .ok later ∧ later.enabled := by
  refine ⟨?_, ?_, ?_⟩
  · intro flag userId context p q evaluation le gives on
    exact ⟨evaluation, evaluate_raised le gives on, on, rfl, rfl⟩
  · intro flagKey userId p bucket percentage hashes
    exact ⟨bucketFor_lt hashes, inRollout_eq hashes percentage⟩
  · intro flag rules userId context evaluation boolean added gives on
    exact evaluate_more_rules boolean added gives on

def proRules : List RuleSpec :=
  [{ attr := str "plan", operator := str "neq", values := [str "free"] },
    { attr := str "plan", operator := str "eq", values := [str "pro"] }]

def tenPercent : FlagSpec :=
  { key := str "banner", enabled := true, rolloutPercentage := 10, rules := proRules.drop 1 }

/-- The user's bucket is 6270: in at 70 and kept at 90, out at 62. -/
theorem rollouts_monotone_ada :
    (∃ later, evaluate { unweightedFlag with rolloutPercentage := 90 } (str "ada") none = .ok later ∧ later.enabled ∧
      later.variant = some (str "blue") ∧ later.value = .null) ∧
    inRollout (str "banner") (str "ada") 62 = .ok (decide (((6270 : Nat) : Int) < 100 * 62)) ∧
    ∃ later, evaluate { tenPercent with rules := proRules } (str "ada") (some proContext) = .ok later ∧ later.enabled :=
  ⟨rollouts_monotone.1 unweightedFlag (str "ada") none 70 90
      { enabled := true, reason := .rolloutIncluded, variant := some (str "blue") } (by decide) (by decide +kernel) rfl,
    (rollouts_monotone.2.1 (str "banner") (str "ada") 62 6270 (by decide) (by decide +kernel)).2,
    rollouts_monotone.2.2 tenPercent proRules (str "ada") (some proContext)
      { enabled := true, reason := .targetingMatch } rfl (by decide +kernel) (by decide +kernel) rfl⟩

end Ripcord
