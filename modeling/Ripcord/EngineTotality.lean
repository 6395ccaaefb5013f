import Ripcord.Foundation.Doubles
import Ripcord.SdkRefresh
import Ripcord.VariantBands

namespace Ripcord

open Foundation

/-! `choose_variant` with the floats of the source, which refuse an integer that no double holds. -/

def floatOfInt (n : ℤ) : Except PyError Double :=
  if FitsDouble n then .ok (.ofRat n) else .error .overflowError

/-- `a / b` of two integers, correctly rounded. -/
def trueDivide (a b : ℤ) : Except PyError Double :=
  if FitsDouble (a / b) then .ok (.ofRat (a / b)) else .error .overflowError

def floatBand (position : Double) : Double → List VariantSpec → Except PyError (Option VariantSpec)
  | _, [] => .ok none
  | cumulative, variant :: rest =>
    (floatOfInt variant.weight).bind fun weight =>
      if position.lt (cumulative.add weight) then .ok (some variant)
      else floatBand position (cumulative.add weight) rest

def floatChoose (flag : FlagSpec) (userId : Str) : Except PyError (Option VariantSpec) :=
  if flag.variants = [] then .ok none
  else if flag.totalWeight ≤ 0 then .ok flag.ordered.head?
  else
    (bucketFor flag.key userId variantSalt).bind fun bucket =>
      (trueDivide (bucket * flag.totalWeight) bucketCount).bind fun position =>
        (floatBand position (.finite 0) flag.ordered).map fun chosen => chosen.or flag.ordered.getLast?

section Evaluate

variable (choose : FlagSpec → Str → Except PyError (Option VariantSpec))

def servedBy (flag : FlagSpec) (userId : Str) (reason : Reason) : Except PyError Evaluation :=
  if flag.isMultivariate then (choose flag userId).map (chosenResult reason) else .ok { enabled := true, reason }

def evaluateWith (flag : FlagSpec) (userId : Str) (context : Option Context) : Except PyError Evaluation :=
  if !flag.enabled then .ok (offResult flag .flagDisabled)
  else
    match flag.rules.find? fun rule => ruleMatches rule (context.getD ∅) with
    | some rule =>
      match findVariant flag rule.variant with
      | some pinned =>
        .ok { enabled := true, reason := .targetingMatch, variant := pinned.key, value := pinned.value }
      | none => servedBy choose flag userId .targetingMatch
    | none =>
      (inRollout flag.key userId flag.rolloutPercentage).bind fun included =>
        if included then servedBy choose flag userId .rolloutIncluded else .ok (offResult flag .rolloutExcluded)

end Evaluate

theorem evaluateWith_chooseVariant : evaluateWith chooseVariant = evaluate := rfl

def evaluateFloat : FlagSpec → Str → Option Context → Except PyError Evaluation := evaluateWith floatChoose

/-! The calls of the SDK on the ruleset it holds. -/

section Client

variable (flags : SdkFlags) (flagKey userId : Str) (context : Option Context)

def SdkFlags.isEnabled (default : Bool) : Except PyError Bool :=
  match flags.lookup flagKey with
  | none => .ok default
  | some spec => (evaluateFloat spec userId context).map Evaluation.enabled

def SdkFlags.variant (default : Option Str) : Except PyError (Option Str) :=
  match flags.lookup flagKey with
  | none => .ok default
  | some spec => (evaluateFloat spec userId context).map fun result => result.variant.or default

def SdkFlags.value (default : Json) : Except PyError Json :=
  match flags.lookup flagKey with
  | none => .ok default
  | some spec =>
    (evaluateFloat spec userId context).map fun result => if result.variant.isSome then result.value else default

end Client

/-! What an evaluation raises on. -/

def runningSum (items : List VariantSpec) : Double :=
  items.foldl (fun cumulative v => cumulative.add (.ofRat v.weight)) (.finite 0)

/-- The user's position, or a weight that comes before the first band past it, is too large for a double. -/
def Overflows (flag : FlagSpec) (bucket : Nat) : Prop :=
  ¬ FitsDouble (flag.position bucket) ∨
    ∃ (i : Nat) (v : VariantSpec), flag.ordered[i]? = some v ∧ ¬ FitsDouble v.weight ∧
      ∀ j, 0 < j → j ≤ i →
        ¬ (Double.ofRat (flag.position bucket)).lt (runningSum (flag.ordered.take j))

/-- A lone surrogate in what is hashed, or a number beyond the doubles. -/
def ChoiceRaises (flag : FlagSpec) (userId : Str) : Prop :=
  flag.variants ≠ [] ∧ 0 < flag.totalWeight ∧
    (¬ (IsUnicode flag.key ∧ IsUnicode userId) ∨
      ∃ bucket, bucketFor flag.key userId variantSalt = .ok bucket ∧ Overflows flag bucket)

def EvaluationRaises (flag : FlagSpec) (userId : Str) (context : Option Context) : Prop :=
  flag.enabled ∧
    match flag.rules.find? fun rule => ruleMatches rule (context.getD ∅) with
    | some rule => findVariant flag rule.variant = none ∧ ChoiceRaises flag userId
    | none =>
      (0 < flag.rolloutPercentage ∧ flag.rolloutPercentage < 100 ∧ ¬ (IsUnicode flag.key ∧ IsUnicode userId)) ∨
        inRollout flag.key userId flag.rolloutPercentage = .ok true ∧ ChoiceRaises flag userId

section Raising

variable {flag : FlagSpec} {userId : Str} {context : Option Context}

theorem exists_map_ok {ε α β : Type} {f : α → β} {result : Except ε α} :
    (∃ b, result.map f = .ok b) ↔ ∃ a, result = .ok a := by
  cases result with
  | error => simp [Except.map]
  | ok a => simp [Except.map]

theorem floatBand_ok_iff {position cumulative : Double} {items : List VariantSpec} :
    (∃ chosen, floatBand position cumulative items = .ok chosen) ↔
      ¬ ∃ (i : Nat) (v : VariantSpec), items[i]? = some v ∧ ¬ FitsDouble v.weight ∧ ∀ j, 0 < j → j ≤ i →
        ¬ position.lt ((items.take j).foldl (fun cumulative v => cumulative.add (.ofRat v.weight)) cumulative) := by
  induction items generalizing cumulative with
  | nil => simp [floatBand]
  | cons first rest ih =>
    by_cases fits : FitsDouble first.weight
    · simp only [floatBand, floatOfInt, if_pos fits, Except.bind]
      by_cases inside : position.lt (cumulative.add (.ofRat first.weight))
      · simp only [if_pos inside, Except.ok.injEq, exists_eq', true_iff]
        rintro ⟨i, v, here, huge, beyond⟩
        cases i with
        | zero =>
          cases here
          exact huge fits
        | succ i => exact beyond 1 one_pos (by omega) inside
      · rw [if_neg inside, ih, not_iff_not]
        constructor
        · rintro ⟨i, v, here, huge, beyond⟩
          refine ⟨i + 1, v, here, huge, fun j positive le => ?_⟩
          obtain ⟨j, rfl⟩ := Nat.exists_eq_succ_of_ne_zero positive.ne'
          rcases Nat.eq_zero_or_pos j with rfl | later
          · exact inside
          · exact beyond j later (by omega)
        · rintro ⟨i, v, here, huge, beyond⟩
          cases i with
          | zero =>
            cases here
            exact absurd fits huge
          | succ i => exact ⟨i, v, here, huge, fun j positive le => beyond (j + 1) (by omega) (by omega)⟩
    · simp only [floatBand, floatOfInt, if_neg fits, Except.bind, reduceCtorEq, exists_false, false_iff, not_not]
      exact ⟨0, first, rfl, fits, fun j positive le => by omega⟩

theorem emptySalt_unicode : IsUnicode [] := by decide

theorem variantSalt_unicode : IsUnicode variantSalt := by decide

theorem bucketFor_ok_iff {flagKey salt : Str} (salted : IsUnicode salt) :
    (∃ bucket, bucketFor flagKey userId salt = .ok bucket) ↔ IsUnicode flagKey ∧ IsUnicode userId := by
  constructor
  · rintro ⟨bucket, hashes⟩
    have encoded : (encode (join [0] [flagKey, salt, userId])).isSome := by
      unfold bucketFor at hashes
      split at hashes
      · rename_i material encodes
        rw [encodes]
        rfl
      · cases hashes
    have unicode := (encode_isSome _).mp encoded
    exact ⟨fun c member => unicode c (by simp [member]), fun c member => unicode c (by simp [member])⟩
  · rintro ⟨key, user⟩
    exact bucketFor_ok salt key user salted

theorem trueDivide_position (bucket : Nat) :
    trueDivide (bucket * flag.totalWeight) bucketCount =
      if FitsDouble (flag.position bucket) then .ok (.ofRat (flag.position bucket)) else .error .overflowError := by
  have division : ((bucket * flag.totalWeight : ℤ) : ℚ) / ((bucketCount : ℕ) : ℤ) = flag.position bucket := by
    unfold FlagSpec.position
    push_cast
    rfl
  rw [trueDivide, division]

theorem floatChoose_ok_iff : (∃ chosen, floatChoose flag userId = .ok chosen) ↔ ¬ ChoiceRaises flag userId := by
  unfold floatChoose ChoiceRaises
  by_cases boolean : flag.variants = []
  · simp [boolean]
  by_cases unweighted : flag.totalWeight ≤ 0
  · simp [boolean, unweighted]
  have weighted : 0 < flag.totalWeight := not_le.mp unweighted
  rw [if_neg boolean, if_neg unweighted]
  simp only [ne_eq, boolean, not_false_eq_true, weighted, true_and]
  cases hashed : bucketFor flag.key userId variantSalt with
  | error =>
    have surrogate : ¬ (IsUnicode flag.key ∧ IsUnicode userId) := by
      rw [← bucketFor_ok_iff variantSalt_unicode, hashed]
      simp
    simp [Except.bind, surrogate]
  | ok bucket =>
    have unicode : IsUnicode flag.key ∧ IsUnicode userId := (bucketFor_ok_iff variantSalt_unicode).mp ⟨bucket, hashed⟩
    simp only [unicode, and_self, not_true_eq_false, false_or, Except.ok.injEq, exists_eq_left', Except.bind,
      trueDivide_position, Overflows, not_or, not_not]
    by_cases fits : FitsDouble (flag.position bucket)
    · simp only [fits, if_true, true_and]
      rw [exists_map_ok, floatBand_ok_iff]
      rfl
    · simp [fits]

theorem servedBy_ok_iff (reason : Reason) :
    (∃ evaluation, servedBy floatChoose flag userId reason = .ok evaluation) ↔ ¬ ChoiceRaises flag userId := by
  unfold servedBy
  split
  · rw [exists_map_ok, floatChoose_ok_iff]
  · rename_i boolean
    have none : flag.variants = [] := by simpa [FlagSpec.isMultivariate] using boolean
    simp [ChoiceRaises, none]

theorem inRollout_ok_iff {flagKey : Str} {percentage : Int} :
    (∃ included, inRollout flagKey userId percentage = .ok included) ↔
      ¬ (0 < percentage ∧ percentage < 100 ∧ ¬ (IsUnicode flagKey ∧ IsUnicode userId)) := by
  unfold inRollout
  split
  · rename_i least
    simp [not_lt.mpr least]
  · rename_i positive
    split
    · rename_i most
      simp [not_lt.mpr most]
    · rename_i partly
      have hashed : (∃ bucket, bucketFor flagKey userId [] = .ok bucket) ↔ IsUnicode flagKey ∧ IsUnicode userId :=
        bucketFor_ok_iff emptySalt_unicode
      have inside : 0 < percentage ∧ percentage < 100 := ⟨not_le.mp positive, not_le.mp partly⟩
      rw [exists_map_ok]
      cases bucket : bucketFor flagKey userId [] <;> simp [bucket, inside, ← hashed]

theorem rollout_ok_iff :
    (∃ evaluation, ((inRollout flag.key userId flag.rolloutPercentage).bind fun included =>
        if included then servedBy floatChoose flag userId .rolloutIncluded
        else .ok (offResult flag .rolloutExcluded)) = .ok evaluation) ↔
      ¬ ((0 < flag.rolloutPercentage ∧ flag.rolloutPercentage < 100 ∧ ¬ (IsUnicode flag.key ∧ IsUnicode userId)) ∨
        inRollout flag.key userId flag.rolloutPercentage = .ok true ∧ ChoiceRaises flag userId) := by
  rw [not_or, ← inRollout_ok_iff]
  cases inRollout flag.key userId flag.rolloutPercentage with
  | error => simp [Except.bind]
  | ok included =>
    cases included with
    | false => simp [Except.bind]
    | true => simp [Except.bind, servedBy_ok_iff]

theorem evaluateFloat_ok_iff :
    (∃ evaluation, evaluateFloat flag userId context = .ok evaluation) ↔ ¬ EvaluationRaises flag userId context := by
  unfold evaluateFloat evaluateWith EvaluationRaises
  cases flag.enabled with
  | false => simp
  | true =>
    simp only [Bool.not_true, Bool.false_eq_true, if_false, true_and]
    cases flag.rules.find? fun rule => ruleMatches rule (context.getD ∅) with
    | none => exact rollout_ok_iff
    | some rule =>
      cases pinned : findVariant flag rule.variant with
      | some v => simp [pinned]
      | none => simp [pinned, servedBy_ok_iff]

theorem call_ok_iff {flags : SdkFlags} {flagKey : Str} {α : Type} {default : α} {read : Evaluation → α} :
    (∃ result, (match flags.lookup flagKey with
        | none => .ok default
        | some spec => (evaluateFloat spec userId context).map read : Except PyError α) = .ok result) ↔
      ∀ spec ∈ flags.lookup flagKey, ¬ EvaluationRaises spec userId context := by
  cases flags.lookup flagKey with
  | none => simp
  | some spec => simp [exists_map_ok, evaluateFloat_ok_iff]

/-- Neither the engine nor a call of the SDK raises, unless a lone surrogate is hashed or a number of the
    weighted split is beyond the doubles. -/
theorem evaluation_total_iff (userId : Str) (context : Option Context) :
    (∀ flag : FlagSpec,
      (∃ evaluation, evaluateFloat flag userId context = .ok evaluation) ↔ ¬ EvaluationRaises flag userId context) ∧
    ∀ (flags : SdkFlags) (flagKey : Str),
      (∀ default, (∃ result, flags.isEnabled flagKey userId context default = .ok result) ↔
        ∀ spec ∈ flags.lookup flagKey, ¬ EvaluationRaises spec userId context) ∧
      (∀ default, (∃ result, flags.variant flagKey userId context default = .ok result) ↔
        ∀ spec ∈ flags.lookup flagKey, ¬ EvaluationRaises spec userId context) ∧
      ∀ default, (∃ result, flags.value flagKey userId context default = .ok result) ↔
        ∀ spec ∈ flags.lookup flagKey, ¬ EvaluationRaises spec userId context := by
  constructor
  · intro flag
    exact evaluateFloat_ok_iff
  · intro flags flagKey
    exact ⟨fun _ => call_ok_iff, fun _ => call_ok_iff, fun _ => call_ok_iff⟩

def tenthRollout : FlagSpec := { key := str "search", enabled := true, rolloutPercentage := 10 }

theorem loneSurrogate_raises :
    evaluateFloat tenthRollout [0xD800] none = .error .unicodeEncodeError ∧
    SdkFlags.isEnabled (AList.singleton (str "search") tenthRollout) (str "search") [0xD800] none false =
      .error .unicodeEncodeError := by
  decide

end Raising

/-! On a variant set that the API stores the floats change nothing. -/

section Exact

variable {spec : FlagSpec} {userId : Str}

theorem nearestDouble_rounds : Rounds nearestDouble where
  monotone := nearestDouble_mono
  exact n bits := by
    have power : (n : ℚ) / 128 = n * 2 ^ (-7 : ℤ) := by
      rw [zpow_neg, div_eq_mul_inv]
      norm_num
    rw [power]
    exact nearestDouble_exact bits (by decide)

theorem floatOfInt_small {n : ℤ} (small : |n| ≤ 2 ^ 53) : floatOfInt n = .ok (.finite n) := by
  rw [floatOfInt, if_pos (Double.fitsDouble_intCast small), Double.ofRat_intCast small]

theorem floatBand_eq_chooseBand {position : ℚ} {reached : ℤ} {items : List VariantSpec}
    (weights : ∀ v ∈ items, 0 ≤ v.weight) (nonneg : 0 ≤ reached)
    (small : reached + (items.map VariantSpec.weight).sum ≤ 2 ^ 53) :
    floatBand (.finite position) (.finite reached) items = .ok (chooseBand position reached items) := by
  induction items generalizing reached with
  | nil => rfl
  | cons first rest ih =>
    have weight := weights first List.mem_cons_self
    have others : ∀ v ∈ rest, 0 ≤ v.weight := fun v member => weights v (List.mem_cons_of_mem _ member)
    have later : 0 ≤ (rest.map VariantSpec.weight).sum := List.sum_nonneg (by simpa using others)
    rw [List.map_cons, List.sum_cons] at small
    have next : (Double.finite reached).add (.finite first.weight) = .finite ((reached + first.weight : ℤ) : ℚ) := by
      rw [Double.add, ← Int.cast_add, Double.ofRat_intCast]
      rw [abs_of_nonneg (by omega)]
      omega
    have cast : (reached : ℚ) + first.weight = ((reached + first.weight : ℤ) : ℚ) := (Int.cast_add _ _).symm
    rw [floatBand, floatOfInt_small (by rw [abs_of_nonneg weight]; omega)]
    simp only [Except.bind, next, chooseBand, cast]
    by_cases inside : position < ((reached + first.weight : ℤ) : ℚ)
    · rw [if_pos inside]
      exact if_pos inside
    · rw [if_neg inside]
      exact (if_neg inside).trans (ih others (by omega) (by omega))

theorem Servable.floatChoose_eq (servable : Servable spec.variants) :
    floatChoose spec userId = chooseVariant spec userId := by
  unfold floatChoose
  by_cases boolean : spec.variants = []
  · rw [if_pos boolean, chooseVariant_boolean boolean]
  have inLoop := servable.choosesInLoop boolean
  have total := servable.totalWeight_eq boolean
  rw [if_neg boolean, if_neg (not_le.mpr inLoop.total)]
  cases hashed : bucketFor spec.key userId variantSalt with
  | error failure => rw [chooseVariant_hashed boolean inLoop.total, hashed]; rfl
  | ok bucket =>
    have bound := bucketFor_lt hashed
    have fits : FitsDouble (spec.position bucket) := by
      apply Double.fitsDouble_of_abs_le
      rw [FlagSpec.position, total, position_eq, abs_of_nonneg (by positivity), div_le_iff₀ (by norm_num)]
      have small : (bucket : ℚ) ≤ 10000 := by exact_mod_cast bound.le
      linarith
    have weights := FlagSpec.ordered_weights fun v member => (servable.weights v member).1
    have whole : 0 + (spec.ordered.map VariantSpec.weight).sum ≤ 2 ^ 53 := by
      have sum : (spec.ordered.map VariantSpec.weight).sum = 100 := total
      omega
    have band := @floatBand_eq_chooseBand (nearestDouble (spec.position bucket)) 0 spec.ordered weights le_rfl whole
    obtain ⟨chosen, chooses, served⟩ := inLoop.loop userId bucket nearestDouble hashed nearestDouble_rounds
    rw [Int.cast_zero] at band
    simp only [Except.bind, trueDivide_position, if_pos fits, Double.ofRat, band]
    rw [served, FlagSpec.position, chooses]
    rfl

theorem Servable.evaluateFloat_eq (servable : Servable spec.variants) (context : Option Context) :
    evaluateFloat spec userId context = evaluate spec userId context := by
  rw [← evaluateWith_chooseVariant]
  unfold evaluateFloat evaluateWith servedBy
  rw [servable.floatChoose_eq]

end Exact

end Ripcord
