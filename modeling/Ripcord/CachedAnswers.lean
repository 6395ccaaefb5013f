import Ripcord.Coherence

namespace Ripcord

open Foundation

def FlagSpec.Weighted (flag : FlagSpec) : Prop := flag.variants ≠ [] ∧ 0 < flag.totalWeight

/-- The evaluation hashes the user id: for the choice of a variant that no matching rule pins, or for a rollout
    that takes in some users only. -/
def FlagSpec.HashesUser (flag : FlagSpec) (context : Option Context) : Prop :=
  flag.enabled ∧
    match flag.firstMatch context with
    | some rule => findVariant flag rule.variant = none ∧ flag.Weighted
    | none => 0 < flag.rolloutPercentage ∧ (flag.rolloutPercentage < 100 ∨ flag.Weighted)

section Hashing

variable {flag : FlagSpec} {userId : Str} {context : Option Context}

theorem chooseVariant_ok_iff (key : IsUnicode flag.key) :
    (∃ chosen, chooseVariant flag userId = .ok chosen) ↔ IsUnicode userId ∨ ¬ flag.Weighted := by
  by_cases weighted : flag.Weighted
  · obtain ⟨given, total⟩ := weighted
    have hashed := @bucketFor_ok_iff userId flag.key variantSalt variantSalt_unicode
    rw [chooseVariant_hashed given total, exists_map_ok, hashed]
    simp [key, FlagSpec.Weighted, given, total]
  · refine iff_of_true ?_ (.inr weighted)
    by_cases boolean : flag.variants = []
    · exact ⟨_, chooseVariant_boolean boolean userId⟩
    · have unweighted : flag.totalWeight ≤ 0 := not_lt.mp fun total => weighted ⟨boolean, total⟩
      exact ⟨_, chooseVariant_unweighted boolean unweighted userId⟩

theorem servedVariant_ok_iff (key : IsUnicode flag.key) (pin : Option Str) :
    (∃ chosen, servedVariant flag pin userId = .ok chosen) ↔
      IsUnicode userId ∨ ¬ (findVariant flag pin = none ∧ flag.Weighted) := by
  unfold servedVariant
  cases findVariant flag pin with
  | some pinned => simp
  | none => simp [chooseVariant_ok_iff key]

theorem rollout_hashes (key : IsUnicode flag.key) (surrogate : ¬ IsUnicode userId) :
    (∃ evaluation, ((inRollout flag.key userId flag.rolloutPercentage).bind fun included =>
        if included then (chooseVariant flag userId).map (chosenResult .rolloutIncluded)
        else .ok (offResult flag .rolloutExcluded)) = .ok evaluation) ↔
      ¬ (0 < flag.rolloutPercentage ∧ (flag.rolloutPercentage < 100 ∨ flag.Weighted)) := by
  by_cases empty : flag.rolloutPercentage ≤ 0
  · have excluded : inRollout flag.key userId flag.rolloutPercentage = .ok false := by rw [inRollout, if_pos empty]
    rw [excluded]
    exact iff_of_true ⟨_, rfl⟩ fun rolled => absurd rolled.1 (not_lt.mpr empty)
  by_cases full : flag.rolloutPercentage ≥ 100
  · have included : inRollout flag.key userId flag.rolloutPercentage = .ok true := by
      rw [inRollout, if_neg empty, if_pos full]
    simp only [included, Except.bind, if_true, exists_map_ok, chooseVariant_ok_iff key, surrogate, false_or,
      not_le.mp empty, true_and, not_lt.mpr full]
  · have hashes : ¬ ∃ included, inRollout flag.key userId flag.rolloutPercentage = .ok included := by
      rw [inRollout_ok_iff, not_not]
      exact ⟨not_le.mp empty, not_le.mp full, fun unicode => surrogate unicode.2⟩
    refine iff_of_false ?_ fun spared => spared ⟨not_le.mp empty, .inl (not_le.mp full)⟩
    rintro ⟨evaluation, gives⟩
    obtain ⟨included, rolls, _⟩ := bind_eq_ok gives
    exact hashes ⟨included, rolls⟩

theorem evaluate_ok_iff (key : IsUnicode flag.key) :
    (∃ evaluation, evaluate flag userId context = .ok evaluation) ↔ IsUnicode userId ∨ ¬ flag.HashesUser context := by
  by_cases user : IsUnicode userId
  · exact iff_of_true (evaluate_ok key user context) (.inl user)
  simp only [user, false_or]
  unfold FlagSpec.HashesUser
  cases on : flag.enabled with
  | false =>
    rw [evaluate_off on]
    simp
  | true =>
    cases first : flag.firstMatch context with
    | some rule =>
      rw [evaluate_matched on first, exists_map_ok, servedVariant_ok_iff key]
      simp [user]
    | none =>
      rw [evaluate_unmatched on first, rollout_hashes key user]
      simp

end Hashing

/-- The two paths agree, and they return an evaluation exactly where a Unicode user id is given or none is hashed. -/
theorem evaluateFlagCached_returns_iff (faults : Faults) (others : Redis → Redis) (redis : Redis) (db : Database)
    (consistent : Consistent db redis) (key : Str) (pattern : MatchesKeyPattern key) (userId : Str)
    (context : Option Context) :
    (evaluateFlagCached faults others redis db key userId context).2 = evaluateFlag db key userId context ∧
      ((∃ evaluation, (evaluateFlagCached faults others redis db key userId context).2 = .ok evaluation) ↔
        IsUnicode userId ∨ ∀ flag ∈ getFlag db key, ¬ (toSpec flag).HashesUser context) := by
  have same := evaluateFlagCached_eq_evaluateFlag faults others consistent pattern userId context
  refine ⟨same, ?_⟩
  rw [same, evaluateFlag]
  cases stored : getFlag db key with
  | none => simp
  | some flag =>
    obtain ⟨row, _, _, valid, rfl⟩ := getFlag_spec stored
    have unicode : IsUnicode (toSpec row.load).key := valid.1.1.2.1
    simpa using evaluate_ok_iff unicode

theorem evaluateFlagCached_returns_iff_banner :
    (evaluateFlagCached { writeRuleset := true } Redis.incr
        (Redis.empty.replaceRuleset (buildRulesetMapping bannerDatabase)) bannerDatabase (str "banner")
        (str "ada") none).2 = evaluateFlag bannerDatabase (str "banner") (str "ada") none ∧
      ((∃ evaluation, (evaluateFlagCached { writeRuleset := true } Redis.incr
          (Redis.empty.replaceRuleset (buildRulesetMapping bannerDatabase)) bannerDatabase (str "banner")
          (str "ada") none).2 = .ok evaluation) ↔
        IsUnicode (str "ada") ∨ ∀ flag ∈ getFlag bannerDatabase (str "banner"), ¬ (toSpec flag).HashesUser none) :=
  evaluateFlagCached_returns_iff _ _ _ _ (consistent_replaceRuleset _ _) _ (by decide) _ _

theorem surrogateUser_raises :
    Consistent bannerDatabase (Redis.empty.replaceRuleset (buildRulesetMapping bannerDatabase)) ∧
      MatchesKeyPattern (str "banner") ∧
      (evaluateFlagCached {} id (Redis.empty.replaceRuleset (buildRulesetMapping bannerDatabase)) bannerDatabase
        (str "banner") [0xD800] none).2 = .error .unicodeEncodeError :=
  ⟨consistent_replaceRuleset _ _, by decide, by decide +kernel⟩

end Ripcord
