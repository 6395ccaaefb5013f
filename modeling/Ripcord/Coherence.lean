import Ripcord.FloatBands
import Ripcord.RuleTies

namespace Ripcord

open Foundation

def FlagSpec.firstMatch (flag : FlagSpec) (context : Option Context) : Option RuleSpec :=
  flag.rules.find? fun rule => ruleMatches rule (context.getD ∅)

/-- The variant that a matching rule serves: the one it pins, if that is defined, or the user's own. -/
def servedWith (choose : FlagSpec → Str → Except PyError (Option VariantSpec)) (flag : FlagSpec) (pin : Option Str)
    (userId : Str) : Except PyError (Option VariantSpec) :=
  match findVariant flag pin with
  | some pinned => .ok (some pinned)
  | none => choose flag userId

/-- The returns of `evaluate`, the two for a boolean flag being choices of no variant. -/
inductive Exit (flag : FlagSpec) (userId : Str) (context : Option Context) : Evaluation → Prop
  | off (reason : Reason) : Exit flag userId context (offResult flag reason)
  | targeted {rule : RuleSpec} {chosen : Option VariantSpec} (first : flag.firstMatch context = some rule)
      (serves : servedWith floatChoose flag rule.variant userId = .ok chosen) :
      Exit flag userId context (chosenResult .targetingMatch chosen)
  | included {chosen : Option VariantSpec} (chooses : floatChoose flag userId = .ok chosen) :
      Exit flag userId context (chosenResult .rolloutIncluded chosen)

def Evaluation.Carries (evaluation : Evaluation) (v : VariantSpec) : Prop :=
  evaluation.variant = some v.key ∧ evaluation.value = v.value

def FlagSpec.PinsFirst (flag : FlagSpec) (context : Option Context) (key : Str) : Prop :=
  ∃ rule, flag.firstMatch context = some rule ∧ rule.variant = some key

/-- A served variant has weight, unless the first matching rule pins it, or nothing has weight, or it is the last
    of a list so long that rounding may leave the loop without a return. -/
def FlagSpec.Deserves (flag : FlagSpec) (context : Option Context) (v : VariantSpec) : Prop :=
  0 < v.weight ∨ flag.PinsFirst context v.key ∨ (∀ w ∈ flag.variants, w.weight = 0) ∨
    dustLength ≤ flag.variants.length ∧ flag.ordered.getLast? = some v

structure Coherent (flag : FlagSpec) (context : Option Context) (evaluation : Evaluation) : Prop where
  oneVariant : evaluation.variant = none ∧ evaluation.value = .null ∨ ∃ v ∈ flag.variants, evaluation.Carries v
  boolean : flag.variants = [] → evaluation.variant = none
  multivariate : flag.variants ≠ [] → evaluation.enabled →
    ∃ v ∈ flag.variants, evaluation.Carries v ∧ flag.Deserves context v
  off : ¬ evaluation.enabled → ∀ key ∈ evaluation.variant, flag.offVariant = some key

section Returns

variable {choose : FlagSpec → Str → Except PyError (Option VariantSpec)} {flag : FlagSpec} {context : Option Context}

def ChoosesNone (choose : FlagSpec → Str → Except PyError (Option VariantSpec)) : Prop :=
  ∀ flag userId, flag.variants = [] → choose flag userId = .ok none

theorem chooseVariant_none : ChoosesNone chooseVariant := fun _ userId boolean => chooseVariant_boolean boolean userId

theorem floatChoose_none : ChoosesNone floatChoose := fun _ userId boolean => floatChoose_boolean boolean userId

theorem servedBy_eq (boolean : ChoosesNone choose) (flag : FlagSpec) (userId : Str) (reason : Reason) :
    servedBy choose flag userId reason = (choose flag userId).map (chosenResult reason) := by
  unfold servedBy
  by_cases empty : flag.variants = []
  · simp [FlagSpec.isMultivariate, empty, boolean flag userId empty, Except.map, chosenResult]
  · simp [FlagSpec.isMultivariate, empty]

theorem evaluateWith_off (disabled : flag.enabled = false) (userId : Str) (context : Option Context) :
    evaluateWith choose flag userId context = .ok (offResult flag .flagDisabled) := by
  simp only [evaluateWith, disabled, Bool.not_false, if_true]

theorem evaluateWith_matched (boolean : ChoosesNone choose) {rule : RuleSpec} (enabled : flag.enabled)
    (first : flag.firstMatch context = some rule) (userId : Str) :
    evaluateWith choose flag userId context =
      (servedWith choose flag rule.variant userId).map (chosenResult .targetingMatch) := by
  unfold FlagSpec.firstMatch at first
  simp only [evaluateWith, enabled, first, Bool.not_true, Bool.false_eq_true, if_false, servedWith]
  cases findVariant flag rule.variant with
  | some pinned => rfl
  | none => exact servedBy_eq boolean flag userId .targetingMatch

theorem evaluateWith_unmatched (boolean : ChoosesNone choose) (enabled : flag.enabled)
    (unmatched : flag.firstMatch context = none) (userId : Str) :
    evaluateWith choose flag userId context =
      (inRollout flag.key userId flag.rolloutPercentage).bind fun included =>
        if included then (choose flag userId).map (chosenResult .rolloutIncluded)
        else .ok (offResult flag .rolloutExcluded) := by
  unfold FlagSpec.firstMatch at unmatched
  simp only [evaluateWith, enabled, unmatched, Bool.not_true, Bool.false_eq_true, if_false, servedBy_eq boolean]

theorem evaluate_off (disabled : flag.enabled = false) (userId : Str) (context : Option Context) :
    evaluate flag userId context = .ok (offResult flag .flagDisabled) :=
  evaluateWith_off disabled userId context

theorem evaluate_matched {rule : RuleSpec} (enabled : flag.enabled) (first : flag.firstMatch context = some rule)
    (userId : Str) :
    evaluate flag userId context = (servedVariant flag rule.variant userId).map (chosenResult .targetingMatch) :=
  evaluateWith_matched chooseVariant_none enabled first userId

theorem evaluate_unmatched (enabled : flag.enabled) (unmatched : flag.firstMatch context = none) (userId : Str) :
    evaluate flag userId context = (inRollout flag.key userId flag.rolloutPercentage).bind fun included =>
      if included then (chooseVariant flag userId).map (chosenResult .rolloutIncluded)
      else .ok (offResult flag .rolloutExcluded) :=
  evaluateWith_unmatched chooseVariant_none enabled unmatched userId

end Returns

section Exits

variable {flag : FlagSpec} {userId : Str} {context : Option Context} {evaluation : Evaluation}
  {chosen : Option VariantSpec} {reason : Reason} {v : VariantSpec}

theorem evaluateFloat_exit (gives : evaluateFloat flag userId context = .ok evaluation) :
    Exit flag userId context evaluation := by
  unfold evaluateFloat at gives
  cases on : flag.enabled with
  | false =>
    rw [evaluateWith_off on] at gives
    cases gives
    exact .off _
  | true =>
    cases first : flag.firstMatch context with
    | some rule =>
      rw [evaluateWith_matched floatChoose_none on first] at gives
      obtain ⟨chosen, serves, rfl⟩ := map_eq_ok gives
      exact .targeted first serves
    | none =>
      rw [evaluateWith_unmatched floatChoose_none on first] at gives
      obtain ⟨included, rolls, gives⟩ := bind_eq_ok gives
      split at gives
      · obtain ⟨chosen, chooses, rfl⟩ := map_eq_ok gives
        exact .included chooses
      · cases gives
        exact .off _

@[simp] theorem chosenResult_enabled (reason : Reason) (chosen : Option VariantSpec) :
    (chosenResult reason chosen).enabled = true := by
  cases chosen <;> rfl

@[simp] theorem offResult_enabled (flag : FlagSpec) (reason : Reason) : (offResult flag reason).enabled = false := by
  unfold offResult
  split <;> rfl

theorem chosenResult_carries (reason : Reason) (v : VariantSpec) : (chosenResult reason (some v)).Carries v :=
  ⟨rfl, rfl⟩

theorem floatChoose_deserves (weights : ∀ v ∈ flag.variants, 0 ≤ v.weight) (given : flag.variants ≠ [])
    (chooses : floatChoose flag userId = .ok chosen) (context : Option Context) :
    ∃ v ∈ flag.variants, chosen = some v ∧ flag.Deserves context v := by
  obtain ⟨v, member, same, weight⟩ := floatChoose_weighted weights given chooses
  exact ⟨v, member, same, weight.imp_right .inr⟩

theorem offResult_coherent (flag : FlagSpec) (context : Option Context) (reason : Reason) :
    Coherent flag context (offResult flag reason) := by
  cases found : findVariant flag flag.offVariant with
  | none =>
    have result : offResult flag reason = { enabled := false, reason } := by rw [offResult, found]
    rw [result]
    exact ⟨.inl ⟨rfl, rfl⟩, fun _ => rfl, fun _ on => (by cases on), fun _ key carried => (by cases carried)⟩
  | some off =>
    obtain ⟨member, named⟩ := findVariant_some found
    have result : offResult flag reason = { enabled := false, reason, variant := off.key, value := off.value } := by
      rw [offResult, found]
    rw [result]
    refine ⟨.inr ⟨off, member, rfl, rfl⟩, ?_, fun _ on => (by cases on), ?_⟩
    · intro boolean
      rw [boolean] at member
      cases member
    · intro _ key carried
      cases carried
      exact named

theorem chosenResult_coherent (boolean : flag.variants = [] → chosen = none)
    (served : flag.variants ≠ [] → ∃ v ∈ flag.variants, chosen = some v ∧ flag.Deserves context v)
    (reason : Reason) : Coherent flag context (chosenResult reason chosen) where
  oneVariant := by
    by_cases empty : flag.variants = []
    · rw [boolean empty]
      exact .inl ⟨rfl, rfl⟩
    · obtain ⟨v, there, rfl, _⟩ := served empty
      exact .inr ⟨v, there, chosenResult_carries reason v⟩
  boolean empty := by
    rw [boolean empty]
    rfl
  multivariate given _ := by
    obtain ⟨v, there, rfl, weight⟩ := served given
    exact ⟨v, there, chosenResult_carries reason v, weight⟩
  off disabled := absurd (chosenResult_enabled reason chosen) disabled

end Exits

/-- Whatever is dangling, duplicated or out of proportion in a flag, what it serves is coherent. -/
theorem evaluateFloat_coherent {flag : FlagSpec} {userId : Str} {context : Option Context} {evaluation : Evaluation}
    (weights : ∀ v ∈ flag.variants, 0 ≤ v.weight) (gives : evaluateFloat flag userId context = .ok evaluation) :
    Coherent flag context evaluation := by
  cases evaluateFloat_exit gives with
  | off reason => exact offResult_coherent flag context reason
  | @targeted rule chosen first serves =>
    unfold servedWith at serves
    split at serves
    · rename_i pinned found
      cases serves
      obtain ⟨member, named⟩ := findVariant_some found
      apply chosenResult_coherent
      · intro empty
        rw [empty] at member
        cases member
      · exact fun _ => ⟨pinned, member, rfl, .inr (.inl ⟨rule, first, named⟩)⟩
    · apply chosenResult_coherent
      · intro empty
        rw [floatChoose_boolean empty] at serves
        injection serves with same
        exact same.symm
      · exact fun given => floatChoose_deserves weights given serves context
  | @included chosen chooses =>
    apply chosenResult_coherent
    · intro empty
      rw [floatChoose_boolean empty] at chooses
      injection chooses with same
      exact same.symm
    · exact fun given => floatChoose_deserves weights given chooses context

def staleFlag : FlagSpec :=
  { key := str "banner", enabled := true, rolloutPercentage := 0, offVariant := some (str "grey"),
    rules := [{ attr := str "plan", operator := str "eq", values := [str "pro"], variant := some (str "black") }],
    variants := [{ key := str "red", value := .int 1, weight := 30 },
      { key := str "red", value := .int 2, weight := 5 }, { key := str "blue", weight := 0 }] }

theorem evaluateFloat_coherent_staleFlag :
    ∃ evaluation, evaluateFloat staleFlag (str "ada") (some proContext) = .ok evaluation ∧
      Coherent staleFlag (some proContext) evaluation := by
  obtain ⟨evaluation, gives⟩ : ∃ evaluation, evaluateFloat staleFlag (str "ada") (some proContext) = .ok evaluation :=
    evaluateFloat_ok (by decide +kernel) (by decide +kernel) (by decide +kernel) (by decide +kernel) _
  exact ⟨evaluation, gives, evaluateFloat_coherent (by decide +kernel) gives⟩

/-! A sum of doubles that stands still: a weight of `2 ^ 53`, and weights of one after it. -/

def heavyVariant : VariantSpec := { key := str "a", weight := 2 ^ 53 }

def lightVariant : VariantSpec := { key := str "b", weight := 1 }

def absentVariant : VariantSpec := { key := str "c", weight := 0 }

def longFlag (lights : Nat) : FlagSpec :=
  { key := str "banner", enabled := true, rolloutPercentage := 100,
    variants := heavyVariant :: (List.replicate lights lightVariant ++ [absentVariant]) }

section Dust

variable {p : ℚ} {lights : Nat}

theorem mem_longFlag {v : VariantSpec} (member : v ∈ (longFlag lights).variants) :
    v = heavyVariant ∨ v = lightVariant ∨ v = absentVariant := by
  simp only [longFlag, List.mem_cons, List.mem_append, List.mem_replicate, List.not_mem_nil, or_false] at member
  exact member.imp_right (Or.imp_left And.right)

theorem longFlag_weights : ∀ v ∈ (longFlag lights).variants, 0 ≤ v.weight := by
  intro v member
  rcases mem_longFlag member with rfl | rfl | rfl <;> decide

theorem longFlag_ordered (lights : Nat) : (longFlag lights).ordered = (longFlag lights).variants := by
  have first : heavyVariant.key ≤ lightVariant.key ∧ heavyVariant.key ≤ absentVariant.key := by decide
  have last : lightVariant.key ≤ absentVariant.key := by decide
  apply sortOn_of_pairwise
  simp only [longFlag, List.pairwise_cons, List.pairwise_append, List.mem_append, List.mem_replicate,
    List.mem_singleton, List.pairwise_replicate]
  refine ⟨?_, .inr le_rfl, ⟨fun _ none => (by cases none), .nil⟩, ?_⟩
  · rintro v (⟨_, rfl⟩ | rfl)
    · exact first.1
    · exact first.2
  · rintro v ⟨_, rfl⟩ w rfl
    exact last

theorem longFlag_total (lights : Nat) : (longFlag lights).totalWeight = 2 ^ 53 + lights := by
  show ((longFlag lights).ordered.map VariantSpec.weight).sum = _
  rw [longFlag_ordered]
  simp [longFlag, heavyVariant, lightVariant, absentVariant]

/-- Half way between two doubles, of which the lower one is even. -/
theorem nearestDouble_tie : nearestDouble (2 ^ 53 + 1) = 2 ^ 53 := by
  have positive : (0 : ℚ) < 2 ^ 53 + 1 := by norm_num
  have least : 53 ≤ Int.log 2 (2 ^ 53 + 1 : ℚ) := (Int.zpow_le_iff_le_log one_lt_two positive).mp (by norm_num)
  have most : Int.log 2 (2 ^ 53 + 1 : ℚ) < 54 := (Int.lt_zpow_iff_log_lt one_lt_two positive).mp (by norm_num)
  have unit : ulpExponent (2 ^ 53 + 1) = 1 := by
    unfold ulpExponent
    omega
  have floor : ⌊((2 : ℚ) ^ 53 + 1) / 2⌋ = 2 ^ 52 := by
    rw [Int.floor_eq_iff]
    norm_num
  have rounded : roundHalfEven ((2 ^ 53 + 1) / 2) = 2 ^ 52 := by
    simp only [roundHalfEven, floor]
    norm_num
  rw [nearestDouble_of_nonneg positive.le, nearestMagnitude, unit, zpow_one, rounded]
  norm_num

theorem fitsDouble_of_le {q : ℚ} (nonneg : 0 ≤ q) (small : q ≤ 2 ^ 54) : FitsDouble q := by
  have large : (2 : ℚ) ^ 54 < overflowBound := by decide +kernel
  rw [FitsDouble, abs_of_nonneg nonneg]
  exact small.trans_lt large

theorem nearestDouble_heavy : nearestDouble (2 ^ 53) = 2 ^ 53 := by
  have exact : nearestDouble ((1 : ℤ) * 2 ^ (53 : ℤ)) = (1 : ℤ) * 2 ^ (53 : ℤ) :=
    nearestDouble_exact (by decide) (by decide)
  rwa [Int.cast_one, one_mul, zpow_ofNat] at exact

theorem floatBand_stands (beyond : 2 ^ 53 ≤ p) (n : Nat) (rest : List VariantSpec) :
    floatBand (.finite p) (.finite (2 ^ 53)) (List.replicate n lightVariant ++ rest) =
      floatBand (.finite p) (.finite (2 ^ 53)) rest := by
  induction n with
  | zero => rfl
  | succ n ih =>
    have one : floatOfInt lightVariant.weight = .ok (.finite 1) := by
      simpa [lightVariant] using floatOfInt_small (n := 1) (by norm_num)
    have sum : (Double.finite (2 ^ 53)).add (.finite 1) = .finite (2 ^ 53) := by
      have fits : FitsDouble (2 ^ 53 + 1) := fitsDouble_of_le (by norm_num) (by norm_num)
      rw [Double.add, Double.ofRat, if_pos fits, nearestDouble_tie]
    have outside : ¬ (Double.finite p).lt (.finite (2 ^ 53)) := not_lt.mpr beyond
    rw [List.replicate_succ, List.cons_append, floatBand, one]
    simp only [Except.bind, sum, if_neg outside]
    exact ih

theorem longFlag_walks (beyond : 2 ^ 53 ≤ p) :
    floatBand (.finite p) (.finite 0) (longFlag lights).ordered = .ok none := by
  have fits : FitsDouble (2 ^ 53) := fitsDouble_of_le (by norm_num) (by norm_num)
  have heavy : floatOfInt heavyVariant.weight = .ok (.finite (2 ^ 53)) := by
    have cast : ((heavyVariant.weight : ℤ) : ℚ) = 2 ^ 53 := by norm_num [heavyVariant]
    rw [floatOfInt, cast, if_pos fits, Double.ofRat, if_pos fits, nearestDouble_heavy]
  have absent : floatOfInt absentVariant.weight = .ok (.finite 0) := by
    simpa [absentVariant] using floatOfInt_small (n := 0) (by norm_num)
  have whole : Double.ofRat (2 ^ 53) = .finite (2 ^ 53) := by
    rw [Double.ofRat, if_pos fits, nearestDouble_heavy]
  have outside : ¬ (Double.finite p).lt (.finite (2 ^ 53)) := not_lt.mpr beyond
  rw [longFlag_ordered, longFlag, floatBand, heavy]
  simp only [Except.bind, Double.add, zero_add, whole, if_neg outside]
  rw [floatBand_stands beyond, floatBand, absent]
  simp only [Except.bind, Double.add, add_zero, whole, if_neg outside, floatBand]

theorem longFlag_chooses {userId : Str} (many : 10 ^ 12 ≤ lights) (few : lights ≤ 2 ^ 53)
    (hashes : bucketFor (longFlag lights).key userId variantSalt = .ok 9999) :
    floatChoose (longFlag lights) userId = .ok (some absentVariant) := by
  have given : (longFlag lights).variants ≠ [] := List.cons_ne_nil _ _
  have weighted : ¬ (longFlag lights).totalWeight ≤ 0 := by
    rw [longFlag_total]
    omega
  have least : (10 : ℚ) ^ 12 ≤ lights := by exact_mod_cast many
  have most : (lights : ℚ) ≤ 2 ^ 53 := by exact_mod_cast few
  have position : (longFlag lights).position 9999 = 9999 * (2 ^ 53 + lights) / 10000 := by
    rw [FlagSpec.position, longFlag_total]
    norm_num [bucketCount]
  have beyond : 2 ^ 53 ≤ nearestDouble ((longFlag lights).position 9999) := by
    have exact : (2 : ℚ) ^ 53 ≤ (longFlag lights).position 9999 := by
      rw [position]
      linarith
    exact nearestDouble_heavy ▸ nearestDouble_mono exact
  have fits : FitsDouble ((longFlag lights).position 9999) := by
    rw [position]
    exact fitsDouble_of_le (by positivity) (by linarith)
  have last : (longFlag lights).ordered.getLast? = some absentVariant := by
    rw [longFlag_ordered, longFlag, ← List.cons_append, List.getLast?_concat]
  rw [floatChoose, if_neg given, if_neg weighted, hashes]
  simp only [Except.bind, trueDivide_position, if_pos fits, Double.ofRat, longFlag_walks beyond, Except.map, last,
    Option.none_or]

theorem longFlag_undeserved {userId : Str} (many : 10 ^ 12 ≤ lights) (few : lights ≤ 2 ^ 53)
    (hashes : bucketFor (longFlag lights).key userId variantSalt = .ok 9999) :
    ∃ evaluation, evaluateFloat (longFlag lights) userId none = .ok evaluation ∧ evaluation.enabled ∧
      ¬ ∃ v ∈ (longFlag lights).variants, evaluation.Carries v ∧
        (0 < v.weight ∨ (longFlag lights).PinsFirst none v.key ∨ ∀ w ∈ (longFlag lights).variants, w.weight = 0) := by
  have evaluates : evaluateFloat (longFlag lights) userId none =
      .ok (chosenResult .rolloutIncluded (some absentVariant)) := by
    have included : inRollout (longFlag lights).key userId (longFlag lights).rolloutPercentage = .ok true := rfl
    rw [evaluateFloat, evaluateWith_unmatched floatChoose_none rfl rfl, included]
    simp only [Except.bind, if_true, longFlag_chooses many few hashes, Except.map]
  refine ⟨_, evaluates, rfl, ?_⟩
  rintro ⟨v, member, ⟨key, _⟩, weight⟩
  have named : absentVariant.key = v.key := Option.some.inj key
  rcases mem_longFlag member with rfl | rfl | rfl
  · exact absurd named (by decide)
  · exact absurd named (by decide)
  · rcases weight with positive | ⟨rule, first, _⟩ | zero
    · exact absurd positive (by decide)
    · cases first
    · exact absurd (zero heavyVariant List.mem_cons_self) (by decide)

end Dust

/-- A user in the last ten-thousandth of all buckets is served a variant of weight zero. -/
theorem longFlag_serves_absent :
    (∀ v ∈ (longFlag (10 ^ 12)).variants, 0 ≤ v.weight) ∧
      ∃ evaluation, evaluateFloat (longFlag (10 ^ 12)) (str "u1014") none = .ok evaluation ∧ evaluation.enabled ∧
        ¬ ∃ v ∈ (longFlag (10 ^ 12)).variants, evaluation.Carries v ∧
          (0 < v.weight ∨ (longFlag (10 ^ 12)).PinsFirst none v.key ∨
            ∀ w ∈ (longFlag (10 ^ 12)).variants, w.weight = 0) := by
  have hashes : bucketFor (str "banner") (str "u1014") variantSalt = .ok 9999 := by decide +kernel
  exact ⟨longFlag_weights, longFlag_undeserved le_rfl (by norm_num) hashes⟩

theorem evaluate_storage_order {flag : FlagSpec} (distinct : (flag.variants.map VariantSpec.key).Nodup) :
    ∀ variants, variants.Perm flag.variants → ∀ userId context,
      evaluate { flag with variants } userId context = evaluate flag userId context :=
  fun _ perm userId context => evaluate_variants_perm perm.symm distinct userId context

def unweightedFlag : FlagSpec :=
  { key := str "banner", enabled := true, rolloutPercentage := 100, offVariant := some (str "red"),
    variants := [{ key := str "red", weight := 0 }, { key := str "blue", weight := 0 }] }

theorem evaluate_storage_order_unweightedFlag :
    [unweightedFlag.variants[1], unweightedFlag.variants[0]].Perm unweightedFlag.variants ∧
    ∀ variants, variants.Perm unweightedFlag.variants → ∀ userId context,
      evaluate { unweightedFlag with variants } userId context = evaluate unweightedFlag userId context :=
  ⟨by decide +kernel, evaluate_storage_order (by decide +kernel)⟩

end Ripcord
