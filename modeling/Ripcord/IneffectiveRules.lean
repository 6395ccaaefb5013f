import Ripcord.Coherence

namespace Ripcord

open Foundation

/-- A rule that can decide something for this user: it lists a value, knows its operator, and its attribute
    is given. -/
def RuleSpec.Effective (rule : RuleSpec) (context : Context) : Prop :=
  rule.values ≠ [] ∧ rule.operator ∈ [str "in", str "not_in", str "eq", str "neq"] ∧ rule.attr ∈ context

instance (rule : RuleSpec) (context : Context) : Decidable (rule.Effective context) :=
  inferInstanceAs (Decidable (_ ∧ _ ∧ _))

def FlagSpec.effectiveRules (flag : FlagSpec) (context : Option Context) : List RuleSpec :=
  flag.rules.filter fun rule => rule.Effective (context.getD ∅)

def FlagSpec.firstValuedMatch (flag : FlagSpec) (context : Option Context) : Option RuleSpec :=
  flag.rules.find? fun rule => rule.values ≠ [] ∧ ruleMatches rule (context.getD ∅)

def VariantSpec.shown (v : VariantSpec) : Str × Json := (v.key, v.value)

/-- The flag is on and the first rule to match is one without values, in whose place another match would
    serve something else, or none would match. In the last case nothing hides the difference but a failure of
    the choice that the rollout shares. -/
def FailsOpen (flag : FlagSpec) (userId : Str) (context : Option Context) : Prop :=
  flag.enabled ∧ ∃ rule, flag.firstMatch context = some rule ∧ rule.values = [] ∧
    match flag.firstValuedMatch context with
    | some next =>
      (servedWith floatChoose flag rule.variant userId).map (Option.map VariantSpec.shown) ≠
        (servedWith floatChoose flag next.variant userId).map (Option.map VariantSpec.shown)
    | none => ¬ ((∃ failure, servedWith floatChoose flag rule.variant userId = .error failure) ∧
        inRollout flag.key userId flag.rolloutPercentage ≠ .ok false)

section Matching

variable {flag : FlagSpec} {rule : RuleSpec} {context : Option Context} {userId : Str}

/-- The only ineffective rule that matches is a `not_in` over no values. -/
theorem ruleMatches_effective {context : Context} (matching : ruleMatches rule context) :
    rule.Effective context ↔ rule.values ≠ [] := by
  refine ⟨And.left, fun valued => ⟨valued, ?_⟩⟩
  unfold ruleMatches at matching
  split at matching
  · cases matching
  · rename_i actual found
    refine ⟨?_, AList.lookup_isSome.mp (by rw [found]; rfl)⟩
    by_contra unknown
    simp only [List.mem_cons, List.not_mem_nil, or_false, not_or] at unknown
    obtain ⟨notIn, notNotIn, notEq, notNeq⟩ := unknown
    simp [notIn, notNotIn, notEq, notNeq] at matching

theorem firstMatch_effectiveRules (flag : FlagSpec) (context : Option Context) :
    ({ flag with rules := flag.effectiveRules context } : FlagSpec).firstMatch context =
      flag.firstValuedMatch context := by
  unfold FlagSpec.firstMatch FlagSpec.effectiveRules FlagSpec.firstValuedMatch
  rw [List.find?_filter]
  congr 1
  funext rule
  apply Bool.decide_congr
  rw [decide_eq_true_eq]
  constructor
  · rintro ⟨effective, matching⟩
    exact ⟨effective.1, matching⟩
  · rintro ⟨valued, matching⟩
    exact ⟨(ruleMatches_effective matching).mpr valued, matching⟩

theorem firstValuedMatch_of_valued (first : flag.firstMatch context = some rule) (valued : rule.values ≠ []) :
    flag.firstValuedMatch context = some rule := by
  obtain ⟨matching, before, after, split, early⟩ := List.find?_eq_some_iff_append.mp first
  apply List.find?_eq_some_iff_append.mpr
  refine ⟨decide_eq_true ⟨valued, matching⟩, before, after, split, ?_⟩
  intro other member
  have unmatched := early other member
  rw [Bool.not_eq_true'] at unmatched
  simp [unmatched]

theorem firstValuedMatch_of_unmatched (unmatched : flag.firstMatch context = none) :
    flag.firstValuedMatch context = none := by
  apply List.find?_eq_none.mpr
  intro rule member holds
  exact List.find?_eq_none.mp unmatched rule member (of_decide_eq_true holds).2

end Matching

section Served

variable {flag : FlagSpec} {pin : Option Str} {userId : Str} {context : Option Context}

theorem chosenResult_shown {reason : Reason} {first second : Option VariantSpec} :
    chosenResult reason first = chosenResult reason second ↔
      first.map VariantSpec.shown = second.map VariantSpec.shown := by
  cases first <;> cases second <;> simp [chosenResult, VariantSpec.shown]

theorem map_chosenResult_shown {reason : Reason} {first second : Except PyError (Option VariantSpec)} :
    first.map (chosenResult reason) = second.map (chosenResult reason) ↔
      first.map (Option.map VariantSpec.shown) = second.map (Option.map VariantSpec.shown) := by
  cases first <;> cases second <;> simp [Except.map, chosenResult_shown]

theorem bucketFor_error {flagKey salt : Str} {failure : PyError}
    (fails : bucketFor flagKey userId salt = .error failure) : failure = .unicodeEncodeError := by
  unfold bucketFor at fails
  split at fails <;> cases fails
  rfl

theorem bucketFor_salted {flagKey : Str} {failure : PyError}
    (fails : bucketFor flagKey userId [] = .error failure) :
    bucketFor flagKey userId variantSalt = .error .unicodeEncodeError := by
  cases hashes : bucketFor flagKey userId variantSalt with
  | error also => rw [bucketFor_error hashes]
  | ok bucket =>
    have unicode := (bucketFor_ok_iff variantSalt_unicode).mp ⟨bucket, hashes⟩
    obtain ⟨unsalted, gives⟩ := bucketFor_ok [] unicode.1 unicode.2 emptySalt_unicode
    rw [gives] at fails
    cases fails

theorem inRollout_error {flagKey : Str} {percentage : Int} {failure : PyError}
    (fails : inRollout flagKey userId percentage = .error failure) :
    failure = .unicodeEncodeError ∧ bucketFor flagKey userId variantSalt = .error .unicodeEncodeError := by
  unfold inRollout at fails
  split at fails
  · cases fails
  · split at fails
    · cases fails
    · cases unhashed : bucketFor flagKey userId [] with
      | ok bucket =>
        rw [unhashed] at fails
        cases fails
      | error also =>
        rw [unhashed] at fails
        cases fails
        exact ⟨bucketFor_error unhashed, bucketFor_salted unhashed⟩

theorem servedWith_error {failure : PyError} (fails : servedWith floatChoose flag pin userId = .error failure) :
    floatChoose flag userId = .error failure := by
  unfold servedWith at fails
  split at fails
  · cases fails
  · exact fails

theorem floatChoose_unhashed {failure : PyError} (fails : floatChoose flag userId = .error failure)
    (unhashed : bucketFor flag.key userId variantSalt = .error .unicodeEncodeError) :
    failure = .unicodeEncodeError := by
  unfold floatChoose at fails
  rw [unhashed] at fails
  split at fails
  · cases fails
  · split at fails <;> cases fails
    rfl

def rolloutFloat (flag : FlagSpec) (userId : Str) : Except PyError Evaluation :=
  (inRollout flag.key userId flag.rolloutPercentage).bind fun included =>
    if included then (floatChoose flag userId).map (chosenResult .rolloutIncluded)
    else .ok (offResult flag .rolloutExcluded)

theorem rolloutFloat_reason {evaluation : Evaluation} (gives : rolloutFloat flag userId = .ok evaluation) :
    evaluation.reason ≠ .targetingMatch := by
  obtain ⟨included, _, gives⟩ := bind_eq_ok gives
  split at gives
  · rw [map_chosenResult_reason gives]
    decide
  · cases gives
    rw [offResult_reason]
    decide

/-- A match says so in its reason, so only a failure looks the same as the rollout. -/
theorem matched_eq_rollout :
    (servedWith floatChoose flag pin userId).map (chosenResult .targetingMatch) = rolloutFloat flag userId ↔
      (∃ failure, servedWith floatChoose flag pin userId = .error failure) ∧
        inRollout flag.key userId flag.rolloutPercentage ≠ .ok false := by
  constructor
  · intro same
    cases serves : servedWith floatChoose flag pin userId with
    | ok chosen =>
      rw [serves] at same
      exact absurd (chosenResult_reason .targetingMatch chosen) (rolloutFloat_reason same.symm)
    | error failure =>
      refine ⟨⟨failure, rfl⟩, fun excluded => ?_⟩
      rw [serves, rolloutFloat, excluded] at same
      cases same
  · rintro ⟨⟨failure, fails⟩, included⟩
    have chooses := servedWith_error fails
    rw [fails, rolloutFloat]
    cases rolls : inRollout flag.key userId flag.rolloutPercentage with
    | error unhashed =>
      obtain ⟨rfl, salted⟩ := inRollout_error rolls
      rw [floatChoose_unhashed chooses salted]
      rfl
    | ok inside =>
      cases inside with
      | false => exact absurd rolls included
      | true =>
        simp only [Except.bind, if_true, chooses]
        rfl

end Served

section Law

variable {flag : FlagSpec} {userId : Str} {context : Option Context}

theorem evaluateFloat_effectiveRules (enabled : flag.enabled) :
    evaluateFloat { flag with rules := flag.effectiveRules context } userId context =
      match flag.firstValuedMatch context with
      | some next => (servedWith floatChoose flag next.variant userId).map (chosenResult .targetingMatch)
      | none => rolloutFloat flag userId := by
  have firsts := firstMatch_effectiveRules flag context
  cases next : flag.firstValuedMatch context with
  | some rule =>
    rw [next] at firsts
    exact evaluateWith_matched floatChoose_none (by exact enabled) firsts userId
  | none =>
    rw [next] at firsts
    exact evaluateWith_unmatched floatChoose_none (by exact enabled) firsts userId

theorem not_failsOpen (closed : flag.enabled → ∀ rule, flag.firstMatch context = some rule → rule.values ≠ []) :
    ¬ FailsOpen flag userId context := by
  rintro ⟨enabled, rule, first, empty, _⟩
  exact closed enabled rule first empty

theorem failsOpen_iff {rule : RuleSpec} (enabled : flag.enabled) (first : flag.firstMatch context = some rule)
    (empty : rule.values = []) :
    FailsOpen flag userId context ↔
      match flag.firstValuedMatch context with
      | some next =>
        (servedWith floatChoose flag rule.variant userId).map (Option.map VariantSpec.shown) ≠
          (servedWith floatChoose flag next.variant userId).map (Option.map VariantSpec.shown)
      | none => ¬ ((∃ failure, servedWith floatChoose flag rule.variant userId = .error failure) ∧
          inRollout flag.key userId flag.rolloutPercentage ≠ .ok false) := by
  constructor
  · rintro ⟨_, other, matching, _, differs⟩
    rw [first] at matching
    cases matching
    exact differs
  · intro differs
    exact ⟨enabled, rule, first, empty, differs⟩

/-- Removing the ineffective rules changes an evaluation exactly where a rule without values fails open. -/
theorem evaluateFloat_effectiveRules_iff (flag : FlagSpec) (userId : Str) (context : Option Context) :
    evaluateFloat { flag with rules := flag.effectiveRules context } userId context =
        evaluateFloat flag userId context ↔ ¬ FailsOpen flag userId context := by
  rcases Bool.eq_false_or_eq_true flag.enabled with enabled | disabled
  · rw [evaluateFloat_effectiveRules enabled]
    cases first : flag.firstMatch context with
    | none =>
      rw [firstValuedMatch_of_unmatched first, evaluateFloat, evaluateWith_unmatched floatChoose_none enabled first]
      apply iff_of_true rfl
      apply not_failsOpen
      intro _ rule matching
      rw [first] at matching
      cases matching
    | some rule =>
      rw [evaluateFloat, evaluateWith_matched floatChoose_none enabled first]
      by_cases empty : rule.values = []
      · rw [failsOpen_iff enabled first empty]
        cases flag.firstValuedMatch context with
        | some next => exact (map_chosenResult_shown.trans eq_comm).trans not_not.symm
        | none => exact (eq_comm.trans matched_eq_rollout).trans not_not.symm
      · rw [firstValuedMatch_of_valued first empty]
        apply iff_of_true rfl
        apply not_failsOpen
        intro _ other matching
        rw [first] at matching
        cases matching
        exact empty
  · rw [evaluateFloat, evaluateWith_off disabled, evaluateWith_off (by exact disabled)]
    apply iff_of_true rfl
    apply not_failsOpen
    intro enabled
    rw [disabled] at enabled
    cases enabled

end Law

/-- A kill list that became empty: nobody should be targeted, and everybody with a plan is. -/
def emptyNotIn : FlagSpec :=
  { key := str "banner", enabled := true, rolloutPercentage := 0,
    rules := [{ attr := str "plan", operator := str "not_in", values := [] }] }

theorem emptyNotIn_fails_open :
    evaluateFloat { emptyNotIn with rules := emptyNotIn.effectiveRules (some proContext) } (str "ada")
        (some proContext) ≠ evaluateFloat emptyNotIn (str "ada") (some proContext) := by
  decide +kernel

end Ripcord
