import Ripcord.RulePriority
import Ripcord.SerialStore
import Mathlib.Algebra.Order.Ring.Rat
import Mathlib.Tactic.Linarith
import Mathlib.Tactic.Positivity

namespace Ripcord

open Foundation

section Runs

def Sends (allowed : Request → Prop) (_world : StoreWorld) : Nat × StoreAct → Prop
  | (_, .read request) => allowed request
  | (_, .commit _) => True

instance (allowed : Request → Prop) [DecidablePred allowed] (world : StoreWorld) :
    DecidablePred (Sends allowed world)
  | (_, .read request) => inferInstanceAs (Decidable (allowed request))
  | (_, .commit _) => inferInstanceAs (Decidable True)

def Call.Carries (allowed : Request → Prop) : Call → Prop
  | .loaded request _ => allowed request
  | _ => True

variable {allowed : Request → Prop} {world : StoreWorld} {acts : List (Nat × StoreAct)}

theorem storeStep_carries {store after : Store} {call next : Call} {act : StoreAct}
    (carries : call.Carries allowed) (sends : ∀ request, act = .read request → allowed request)
    (steps : storeStep store call act = some (after, next)) : next.Carries allowed := by
  cases storeStep_moves steps with
  | @reads request => exact sends request rfl
  | commits => trivial
  | fails => trivial

theorem storeStep_database {store after : Store} {call next : Call} {act : StoreAct} (own : call.Sound store)
    (carries : call.Carries allowed) (steps : storeStep store call act = some (after, next)) :
    after.db = store.db ∨ ∃ request supply held, allowed request ∧
      request.commit store.db supply = some (after.db, held) := by
  cases storeStep_moves steps with
  | reads => exact .inl rfl
  | @commits request read held supply after commits =>
    exact .inr ⟨request, supply, held, carries, Request.commitFrom_serial own commits⟩
  | fails => exact .inl rfl

/-- What the empty database satisfies and every allowed request's commit keeps holds of every database
    reached, however the calls interleave. -/
theorem StoreWorld.holds_of_run (holds : Database → Prop) (empty : holds .empty)
    (kept : ∀ (db after : Database) (request : Request) (supply : Supply) (held : Option Flag), allowed request →
      holds db → request.commit db supply = some (after, held) → holds after)
    (runs : RunWhere (World.act storeStep) (Sends allowed) StoreWorld.start acts world) :
    holds world.shared.db := by
  have reached : (world.shared.Sound ∧ holds world.shared.db) ∧
      ∀ who, (world.parties who).Sound world.shared ∧ (world.parties who).Carries allowed := by
    refine runs.invariant (fun world : StoreWorld => (world.shared.Sound ∧ holds world.shared.db) ∧
      ∀ who, (world.parties who).Sound world.shared ∧ (world.parties who).Carries allowed) ?_ ?_
    · intro world ⟨who, act⟩ next sends ⟨⟨sound, held⟩, each⟩ acts
      apply World.act_invariant (fun store => store.Sound ∧ holds store.db)
        (fun store call => call.Sound store ∧ call.Carries allowed) acts each
      intro store call steps
      obtain ⟨own, carries⟩ := each who
      obtain ⟨soundAfter, ownAfter, grows⟩ := storeStep_sound sound own steps
      have carriesAfter := storeStep_carries carries (fun request same => by subst same; exact sends) steps
      refine ⟨⟨soundAfter, ?_⟩, ⟨ownAfter, carriesAfter⟩, fun _ other => ⟨other.1.grows grows, other.2⟩⟩
      rcases storeStep_database own carries steps with same | ⟨request, supply, flag, allows, commits⟩
      · exact same ▸ held
      · exact kept _ _ request supply flag allows held commits
    · refine ⟨⟨⟨rfl, rfl, fun key row stored => ?_⟩, empty⟩, fun _ => ⟨trivial, trivial⟩⟩
      cases stored
  exact reached.1.2

theorem Request.commit_references {db after : Database} {supply : Supply} {key actor : Str} {data : FlagUpdate}
    {held : Option Flag} (commits : (Request.update key data actor).commit db supply = some (after, held)) :
    ∃ flag, getFlag db key = some flag ∧ checkReferences flag data = .ok () := by
  simp only [Request.commit, Request.commitFrom, Request.read] at commits
  split at commits <;> cases commits
  rename_i updates
  obtain ⟨flag, read, _, checked, _⟩ := updateFlagCommit_accepts updates
  exact ⟨flag, read, checked⟩

/-- A property of single flags holds of every stored one, if creations have it and updates that pass their
    checks keep it. -/
theorem StoreWorld.flags_of_run (holds : Flag → Prop)
    (created : ∀ (supply : Supply) (data : FlagCreate) (actor : Str), allowed (.create data actor) →
      holds (createdFlag supply data))
    (patched : ∀ (supply : Supply) (row : Flag) (data : FlagUpdate) (actor : Str),
      allowed (.update row.key data actor) → row.RowValid → checkReferences row.load data = .ok () →
      holds row → holds (patchedFlag supply row.load data))
    (runs : RunWhere (World.act storeStep) (Sends allowed) StoreWorld.start acts world) :
    ∀ row ∈ world.shared.db.flags, holds row := by
  refine StoreWorld.holds_of_run (fun db => ∀ row ∈ db.flags, holds row) (fun row none => by cases none) ?_ runs
  intro db after request supply held allows before commits
  cases Request.commit_cases commits with
  | @created data actor held inserted =>
    intro row member
    rw [inserted.flags, List.mem_append, List.mem_singleton] at member
    rcases member with old | rfl
    · exact before row old
    · exact created supply data actor allows
  | @updated data actor held row updated _ =>
    intro stored member
    rcases updated.mem_flags.mp member with rfl | ⟨old, _⟩
    · obtain ⟨flag, read, checked⟩ := Request.commit_references commits
      rw [getFlag_stored updated.stored rfl] at read
      cases read
      rw [updated.holds]
      exact patched supply row data actor allows (db.valid.rowsValid row updated.stored) checked
        (before row updated.stored)
    · exact before stored old
  | deleted deleted =>
    intro stored member
    exact before stored (deleted.mem_flags.mp member).1

theorem StoreWorld.sends_any (runs : run (World.act storeStep) StoreWorld.start acts = some world) :
    RunWhere (World.act storeStep) (Sends fun _ => True) StoreWorld.start acts world := by
  refine RunWhere.of_run (fun world action _ => ?_) runs
  obtain ⟨who, act⟩ := action
  cases act <;> trivial

end Runs

/-! Experiments. -/

/-- What the engine asks of a variant set: none, or several that share out all of the traffic. -/
structure Servable (variants : List VariantSpec) : Prop where
  several : variants = [] ∨ 2 ≤ variants.length
  distinct : (variants.map VariantSpec.key).Nodup
  weights : ∀ v ∈ variants, 0 ≤ v.weight ∧ v.weight ≤ 100
  total : variants ≠ [] → (variants.map VariantSpec.weight).sum = 100

def Flag.Servable (flag : Flag) : Prop :=
  (0 ≤ flag.rolloutPercentage ∧ flag.rolloutPercentage ≤ 100) ∧ Ripcord.Servable (toSpec flag).variants

/-- How a quotient becomes a double: monotonically, and exactly where the quotient is a multiple of 1/128
    that 53 bits hold. -/
structure Rounds (round : ℚ → ℚ) : Prop where
  monotone : Monotone round
  exact : ∀ n : ℤ, |n| ≤ 2 ^ 53 → round (n / 128) = n / 128

section Bands

variable {variants : List VariantSpec} {position : ℚ}

theorem chooseBand_isSome {cumulative : ℚ} (reached : cumulative ≤ position)
    (inside : position < cumulative + (variants.map VariantSpec.weight).sum) :
    (chooseBand position cumulative variants).isSome := by
  have total := cumulative_hom (Int.castAddHom ℚ) VariantSpec.weight variants variants.length
  rw [cumulative_length, cumulative_length] at total
  rw [chooseBand_eq_firstPassing]
  exact firstPassing_isSome reached (total ▸ inside)

theorem chooseBand_congr {other : ℚ} (same : ∀ n : ℤ, other < n ↔ position < n) (cumulative : ℤ) :
    chooseBand other cumulative variants = chooseBand position cumulative variants := by
  induction variants generalizing cumulative with
  | nil => rfl
  | cons v rest ih =>
    have next : (cumulative : ℚ) + v.weight = ((cumulative + v.weight : ℤ) : ℚ) := (Int.cast_add _ _).symm
    simp only [chooseBand, next, same, ih]

theorem position_eq (bucket : Nat) : (bucket * (100 : ℤ) / bucketCount : ℚ) = bucket / 100 := by
  have count : (bucketCount : ℚ) = 100 * 100 := by norm_num [bucketCount]
  rw [count, Int.cast_ofNat, mul_div_mul_right _ _ (by norm_num)]

theorem position_lt_iff (bucket : Nat) (n : ℤ) : (bucket / 100 : ℚ) < n ↔ (bucket : ℤ) < 100 * n := by
  rw [div_lt_iff₀ (by norm_num), mul_comm]
  exact_mod_cast Iff.rfl

theorem Rounds.whole {round : ℚ → ℚ} (rounds : Rounds round) {n : ℤ} (small : 0 ≤ n ∧ n ≤ 100) :
    round n = n := by
  have exact := rounds.exact (n * 128) (by rw [abs_of_nonneg] <;> omega)
  simpa using exact

theorem Rounds.lt_iff {round : ℚ → ℚ} (rounds : Rounds round) {bucket : Nat} (bound : bucket < bucketCount)
    (n : ℤ) : round (bucket / 100) < n ↔ (bucket / 100 : ℚ) < n := by
  have bound : (bucket : ℤ) < 10000 := by exact_mod_cast bound
  constructor
  · intro rounded
    by_contra reached
    have least : ((max n 0 : ℤ) : ℚ) ≤ bucket / 100 := by
      rw [not_lt] at reached
      have nonneg : (0 : ℚ) ≤ bucket / 100 := by positivity
      rw [Int.cast_max]
      exact max_le reached (by exact_mod_cast nonneg)
    have small : 0 ≤ max n 0 ∧ max n 0 ≤ 100 := by
      refine ⟨le_max_right _ _, ?_⟩
      have most := not_lt.mpr least
      rw [position_lt_iff] at most
      omega
    have kept := rounds.monotone least
    rw [rounds.whole small] at kept
    have larger : (n : ℚ) ≤ ((max n 0 : ℤ) : ℚ) := by exact_mod_cast le_max_left n 0
    exact absurd rounded (not_lt.mpr (larger.trans kept))
  · intro inside
    rw [position_lt_iff] at inside
    -- the largest multiple of 1/128 below a whole number lies above the largest hundredth below it
    have below : (bucket / 100 : ℚ) ≤ ((128 * min n 100 - 1 : ℤ) : ℚ) / 128 := by
      have hundredths : (bucket : ℤ) ≤ 100 * min n 100 - 1 := by omega
      have cast : (bucket : ℚ) ≤ 100 * ((min n 100 : ℤ) : ℚ) - 1 := by exact_mod_cast hundredths
      push_cast at cast ⊢
      linarith
    have bits : |128 * min n 100 - 1| ≤ 2 ^ 53 := by
      rw [abs_le]
      omega
    have kept := rounds.monotone below
    rw [rounds.exact _ bits] at kept
    have smaller : ((min n 100 : ℤ) : ℚ) ≤ n := by exact_mod_cast min_le_left n 100
    push_cast at kept smaller
    linarith

end Bands

section Experiments

theorem Servable.perm {first second : List VariantSpec} (servable : Servable first) (perm : first.Perm second) :
    Servable second where
  several := by
    rw [← perm.length_eq, ← List.length_eq_zero_iff, ← perm.length_eq, List.length_eq_zero_iff]
    exact servable.several
  distinct := (perm.map _).nodup_iff.mp servable.distinct
  weights v member := servable.weights v (perm.mem_iff.mpr member)
  total given := by
    rw [← (perm.map _).sum_eq]
    exact servable.total fun empty => given (empty ▸ perm).symm.eq_nil

theorem Validated.servable {variants : List VariantIn} {offVariant : Option Str}
    (validated : Validated variants offVariant) (fields : ∀ v ∈ variants, v.FieldsValid) :
    Servable (variants.map VariantIn.toSpec) where
  several := by
    rw [List.map_eq_nil_iff, List.length_map]
    exact validated.several
  distinct := by simpa [Function.comp_def, VariantIn.toSpec] using validated.distinct
  weights v member := by
    obtain ⟨given, listed, rfl⟩ := List.mem_map.mp member
    exact (fields given listed).2.2
  total given := by
    rw [List.map_map]
    exact validated.total fun empty => given (empty ▸ rfl)

theorem createdFlag_servable (supply : Supply) (data : FlagCreate) : (createdFlag supply data).Servable := by
  have fields := data.fieldsValid
  refine ⟨fields.2.2.2.2.1, ?_⟩
  have variants : (toSpec (createdFlag supply data)).variants = data.variants.map VariantIn.toSpec :=
    variantsFromInput_toSpec _ _
  rw [variants]
  exact data.validated.1.servable fields.2.2.2.2.2.2.1

theorem patchedFlag_servable (supply : Supply) {flag : Flag} (data : FlagUpdate)
    (distinct : (flag.variants.map Variant.key).Nodup) (servable : flag.Servable) :
    (patchedFlag supply flag data).Servable := by
  have fields := data.fieldsValid
  constructor
  · simp only [patchedFlag, assignCollections, assignFields]
    cases sent : data.rolloutPercentage.get? with
    | none => exact servable.1
    | some percentage => exact fields.2.2.1 percentage sent
  · have variants : (toSpec (patchedFlag supply flag data)).variants =
        (patchedFlag supply flag data).variants.map Variant.toSpec := rfl
    rw [variants]
    simp only [patchedFlag, assignCollections, assignFields]
    cases sent : data.variants.get? with
    | none => exact servable.2
    | some incoming =>
      have merged := applyVariants_perm supply.variantIds distinct (data.variants_distinct sent)
      have served := (data.validated sent).1.servable (fields.2.2.2.2.1 incoming sent)
      exact served.perm merged.symm

theorem Flag.Servable.load {row : Flag} (servable : row.Servable) : row.load.Servable :=
  ⟨servable.1, servable.2.perm ((sortOn_perm Variant.key row.variants).symm.map _)⟩

def FlagSpec.ordered (spec : FlagSpec) : List VariantSpec := sortOn VariantSpec.key spec.variants

def FlagSpec.totalWeight (spec : FlagSpec) : Int := (spec.ordered.map VariantSpec.weight).sum

theorem chooseVariant_unweighted {spec : FlagSpec} (multivariate : spec.variants ≠ [])
    (unweighted : spec.totalWeight ≤ 0) (userId : Str) : chooseVariant spec userId = .ok spec.ordered.head? := by
  rw [chooseVariant, if_neg multivariate]
  exact if_pos unweighted

theorem chooseVariant_hashed {spec : FlagSpec} (multivariate : spec.variants ≠ []) (total : 0 < spec.totalWeight)
    (userId : Str) :
    chooseVariant spec userId = (bucketFor spec.key userId variantSalt).map fun bucket : Nat =>
      (chooseBand (bucket * spec.totalWeight / bucketCount) 0 spec.ordered).or spec.ordered.getLast? := by
  have beyond : ¬ ((sortOn VariantSpec.key spec.variants).map VariantSpec.weight).sum ≤ 0 := not_le.mpr total
  rw [chooseVariant, if_neg multivariate]
  simp only [if_neg beyond]
  cases bucketFor spec.key userId variantSalt <;> rfl

/-- `choose_variant` gets past its test of the total, and its loop returns before it runs out, also with
    the position rounded to a double. -/
structure ChoosesInLoop (spec : FlagSpec) : Prop where
  total : 0 < spec.totalWeight
  loop : ∀ userId bucket round, bucketFor spec.key userId variantSalt = .ok bucket → Rounds round →
    ∃ chosen, chooseBand (round (bucket * spec.totalWeight / bucketCount)) 0 spec.ordered = some chosen ∧
      chooseVariant spec userId = .ok (some chosen)

theorem bucketFor_lt {flagKey userId salt : Str} {bucket : Nat} (hashes : bucketFor flagKey userId salt = .ok bucket) :
    bucket < bucketCount := by
  unfold bucketFor at hashes
  split at hashes <;> cases hashes
  exact Nat.mod_lt _ (by decide)

theorem Servable.totalWeight_eq {spec : FlagSpec} (servable : Servable spec.variants)
    (multivariate : spec.variants ≠ []) : spec.totalWeight = 100 := by
  have perm := (sortOn_perm VariantSpec.key spec.variants).map VariantSpec.weight
  rw [FlagSpec.totalWeight, FlagSpec.ordered, perm.sum_eq]
  exact servable.total multivariate

theorem Servable.choosesInLoop {spec : FlagSpec} (servable : Servable spec.variants)
    (multivariate : spec.variants ≠ []) : ChoosesInLoop spec := by
  have total := servable.totalWeight_eq multivariate
  refine ⟨by rw [total]; decide, ?_⟩
  intro userId bucket round hashes rounds
  have bound := bucketFor_lt hashes
  have inside : (bucket / 100 : ℚ) < ((0 : ℤ) : ℚ) + (spec.ordered.map VariantSpec.weight).sum := by
    have weights : (spec.ordered.map VariantSpec.weight).sum = 100 := total
    have below : (bucket : ℤ) < 100 * 100 := by exact_mod_cast bound
    rw [weights, Int.cast_zero, zero_add, position_lt_iff]
    exact below
  obtain ⟨chosen, chooses⟩ := Option.isSome_iff_exists.mp
    (chooseBand_isSome (by rw [Int.cast_zero]; positivity) inside)
  refine ⟨chosen, ?_, ?_⟩
  · rw [total, position_eq, ← Int.cast_zero, chooseBand_congr (rounds.lt_iff bound), chooses]
  · have band : chooseBand (bucket / 100) 0 spec.ordered = some chosen := by
      rw [← Int.cast_zero]
      exact chooses
    rw [chooseVariant_hashed multivariate (by omega), hashes, total]
    simp only [Except.map, position_eq, band, Option.some_or]

/-- Whatever the interleaving of creations, updates and deletions, what is stored can be served. -/
theorem stored_experiments_servable {world : StoreWorld} {acts : List (Nat × StoreAct)}
    (runs : run (World.act storeStep) StoreWorld.start acts = some world) :
    ∀ row ∈ world.shared.db.flags, row.Servable ∧ (row.variants ≠ [] → ChoosesInLoop (toSpec row.load)) := by
  have servable := StoreWorld.flags_of_run Flag.Servable (fun supply data _ _ => createdFlag_servable supply data)
    (fun supply row data _ _ valid _ servable =>
      patchedFlag_servable supply data valid.load_variants servable.load) (StoreWorld.sends_any runs)
  intro row member
  refine ⟨servable row member, fun multivariate => ?_⟩
  apply (servable row member).load.2.choosesInLoop
  simpa [toSpec, Flag.load] using multivariate

def checkoutVariants : List VariantIn :=
  [{ key := str "red", weight := 40 }, { key := str "blue", weight := 60 }]

def experimentCreate : FlagCreate :=
  ⟨{ key := str "checkout", name := str "Checkout", enabled := true, rolloutPercentage := 100,
     variants := checkoutVariants, offVariant := some (str "red") }, by decide +kernel⟩

def reshapeVariants : FlagUpdate :=
  ⟨{ variants := .value [{ key := str "red", weight := 10 }, { key := str "green", weight := 90 }], version := 1 },
    by decide +kernel⟩

def reshaping : List (Nat × StoreAct) :=
  [(0, .read (.create experimentCreate (str "ops"))), (0, .commit (supplyOf 1)),
    (1, .read (.update (str "checkout") reshapeVariants (str "ops"))), (1, .commit (supplyOf 2))]

theorem stored_experiments_servable_reshaping :
    ∃ world : StoreWorld, run (World.act storeStep) StoreWorld.start reshaping = some world ∧
      (∃ row ∈ world.shared.db.flags, row.variants.length = 2 ∧ row.version = 2) ∧
      ∀ row ∈ world.shared.db.flags, row.Servable ∧ (row.variants ≠ [] → ChoosesInLoop (toSpec row.load)) := by
  obtain ⟨world, runs, stored⟩ := run_reaches (World.act storeStep) StoreWorld.start reshaping
    (fun world => ∃ row ∈ world.shared.db.flags, row.variants.length = 2 ∧ row.version = 2) (by decide +kernel)
  exact ⟨world, runs, stored, stored_experiments_servable runs⟩

end Experiments

/-! References between a flag's fields. -/

def Flag.ReferencesDefined (flag : Flag) : Prop :=
  (∀ off ∈ flag.offVariant, off ∈ flag.variants.map Variant.key) ∧
    ∀ rule ∈ flag.rules, ∀ pin ∈ rule.variant, pin ∈ flag.variants.map Variant.key
  deriving Decidable

/-- No update names the empty string, which the schema admits and `update_flag` takes for no name. -/
def Request.NamesVariants : Request → Prop
  | .update _ data _ => data.offVariant.get? ≠ some [] ∧
      ∀ rules ∈ data.rules.get?, ∀ rule ∈ rules, rule.variant ≠ some []
  | _ => True

instance : DecidablePred Request.NamesVariants
  | .update _ data _ => inferInstanceAs (Decidable (data.offVariant.get? ≠ some [] ∧
      ∀ rules ∈ data.rules.get?, ∀ rule ∈ rules, rule.variant ≠ some []))
  | .create .. | .delete .. => inferInstanceAs (Decidable True)

section References

theorem checkReferences_ok {flag : Flag} {data : FlagUpdate} (accepted : checkReferences flag data = .ok ()) :
    (∀ pin ∈ effectiveRuleVariants flag data, pin ∈ effectiveVariants flag data) ∧
      ∀ off ∈ effectiveOffVariant flag data, off ≠ [] → off ∈ effectiveVariants flag data := by
  unfold checkReferences at accepted
  simp only at accepted
  split at accepted
  · cases accepted
  · rename_i known
    constructor
    · intro pin pinned
      have none := sortOn_eq_nil.mp (not_not.mp known)
      by_contra unknown
      have listed : pin ∈ ((effectiveRuleVariants flag data).filter
          fun pin => pin ∉ effectiveVariants flag data).dedup := by
        rw [List.mem_dedup, List.mem_filter, decide_eq_true_eq]
        exact ⟨pinned, unknown⟩
      rw [none] at listed
      cases listed
    · intro off given named
      rw [Option.mem_def.mp given] at accepted
      simp only at accepted
      split at accepted
      · cases accepted
      · rename_i defined
        by_contra unknown
        exact defined ⟨named, unknown⟩

theorem rulesFromInput_variant {ids : Nat → Nat} {rules : List TargetingRuleIn} {rule : TargetingRule}
    (member : rule ∈ rulesFromInput ids rules) : ∃ given ∈ rules, given.variant = rule.variant := by
  have ranked : rule.ranked ∈ (rulesFromInput ids rules).map TargetingRule.ranked := List.mem_map_of_mem member
  rw [rulesFromInput_ranked] at ranked
  obtain ⟨given, listed, same⟩ := List.mem_map.mp ranked
  exact ⟨given, listed, congrArg (fun ranked : RankedRule => ranked.spec.variant) same⟩

theorem patchedFlag_keys (supply : Supply) {flag : Flag} (data : FlagUpdate)
    (distinct : (flag.variants.map Variant.key).Nodup) (key : Str) :
    key ∈ (patchedFlag supply flag data).variants.map Variant.key ↔ key ∈ effectiveVariants flag data := by
  simp only [patchedFlag, assignCollections, assignFields, effectiveVariants]
  cases sent : data.variants.get? with
  | none => exact Iff.rfl
  | some incoming =>
    have merged := (applyVariants_perm supply.variantIds distinct (data.variants_distinct sent)).map VariantSpec.key
    rw [List.map_map, List.map_map] at merged
    exact merged.mem_iff

theorem createdFlag_keys (supply : Supply) (data : FlagCreate) :
    (createdFlag supply data).variants.map Variant.key = data.variants.map VariantIn.key := by
  have specs := congrArg (List.map VariantSpec.key) (variantsFromInput_toSpec supply.variantIds data.variants)
  rw [List.map_map, List.map_map] at specs
  exact specs

theorem createdFlag_references (supply : Supply) (data : FlagCreate) :
    (createdFlag supply data).ReferencesDefined := by
  obtain ⟨validated, pins⟩ := data.validated
  constructor
  · intro off given
    rw [createdFlag_keys]
    exact validated.offVariant off given
  · intro rule member pin pinned
    obtain ⟨given, listed, same⟩ := rulesFromInput_variant member
    rw [createdFlag_keys]
    exact pins given listed pin (same ▸ pinned)

theorem patchedFlag_rules {supply : Supply} {flag : Flag} {data : FlagUpdate} {rule : TargetingRule}
    (member : rule ∈ (patchedFlag supply flag data).rules) :
    (∃ rules, data.rules.get? = some rules ∧ ∃ given ∈ rules, given.variant = rule.variant) ∨
      data.rules.get? = none ∧ rule ∈ flag.rules := by
  simp only [patchedFlag, assignCollections, assignFields] at member
  cases sent : data.rules.get? with
  | none =>
    rw [sent] at member
    exact .inr ⟨rfl, member⟩
  | some rules =>
    rw [sent] at member
    exact .inl ⟨rules, rfl, rulesFromInput_variant member⟩

theorem VariantIn.FieldsValid.named {variants : List VariantIn} (fields : ∀ v ∈ variants, v.FieldsValid) :
    [] ∉ variants.map VariantIn.key := by
  intro unnamed
  obtain ⟨v, member, same⟩ := List.mem_map.mp unnamed
  have long := (fields v member).1.2.1
  rw [same] at long
  exact absurd long (by decide)

theorem patchedFlag_named (supply : Supply) {flag : Flag} (data : FlagUpdate)
    (distinct : (flag.variants.map Variant.key).Nodup) (named : [] ∉ flag.variants.map Variant.key) :
    [] ∉ (patchedFlag supply flag data).variants.map Variant.key := by
  rw [patchedFlag_keys supply data distinct, effectiveVariants]
  cases sent : data.variants.get? with
  | none => exact named
  | some incoming => exact VariantIn.FieldsValid.named (data.fieldsValid.2.2.2.2.1 incoming sent)

theorem patchedFlag_references (supply : Supply) {flag : Flag} (data : FlagUpdate) {key actor : Str}
    (distinct : (flag.variants.map Variant.key).Nodup) (named : [] ∉ flag.variants.map Variant.key)
    (names : (Request.update key data actor).NamesVariants) (checked : checkReferences flag data = .ok ())
    (references : flag.ReferencesDefined) : (patchedFlag supply flag data).ReferencesDefined := by
  obtain ⟨pinsDefined, offDefined⟩ := checkReferences_ok checked
  constructor
  · intro off given
    have effective : off ∈ effectiveOffVariant flag data := given
    rw [patchedFlag_keys supply data distinct]
    apply offDefined off effective
    intro unnamed
    subst unnamed
    unfold effectiveOffVariant at effective
    split at effective
    · exact names.1 effective
    · exact named (references.1 [] effective)
  · intro rule member pin pinned
    rw [patchedFlag_keys supply data distinct]
    rcases patchedFlag_rules member with ⟨rules, sent, given, listed, same⟩ | ⟨kept, stored⟩
    · have pins : given.variant = some pin := same.trans pinned
      have nonempty : pin ≠ [] := fun unnamed => names.2 rules sent given listed (unnamed ▸ pins)
      apply pinsDefined
      simp only [effectiveRuleVariants, sent, List.mem_filter, List.mem_filterMap, decide_eq_true_eq]
      exact ⟨⟨given, listed, pins⟩, nonempty⟩
    · have nonempty : pin ≠ [] := fun unnamed => named (unnamed ▸ references.2 rule stored pin pinned)
      apply pinsDefined
      simp only [effectiveRuleVariants, kept, List.mem_filter, List.mem_filterMap, decide_eq_true_eq]
      exact ⟨⟨rule, stored, pinned⟩, nonempty⟩

theorem Flag.ReferencesDefined.load {row : Flag} (references : row.ReferencesDefined) :
    row.load.ReferencesDefined := by
  have keys : ∀ key, key ∈ row.load.variants.map Variant.key ↔ key ∈ row.variants.map Variant.key :=
    fun key => ((sortOn_perm Variant.key row.variants).map Variant.key).mem_iff
  constructor
  · intro off given
    exact (keys off).mpr (references.1 off given)
  · intro rule member pin pinned
    exact (keys pin).mpr (references.2 rule (mem_sortOn.mp member) pin pinned)

/-- Where no update names the empty string, every reference of every stored flag is defined. -/
theorem stored_references_defined {world : StoreWorld} {acts : List (Nat × StoreAct)}
    (runs : RunWhere (World.act storeStep) (Sends Request.NamesVariants) StoreWorld.start acts world) :
    ∀ row ∈ world.shared.db.flags, row.ReferencesDefined := by
  have both := StoreWorld.flags_of_run
    (fun flag => flag.ReferencesDefined ∧ [] ∉ flag.variants.map Variant.key) ?_ ?_ runs
  · exact fun row member => (both row member).1
  · intro supply data actor _
    refine ⟨createdFlag_references supply data, ?_⟩
    rw [createdFlag_keys]
    exact VariantIn.FieldsValid.named data.fieldsValid.2.2.2.2.2.2.1
  · intro supply row data actor names valid checked ⟨references, named⟩
    have loaded : [] ∉ row.load.variants.map Variant.key := fun unnamed =>
      named (((sortOn_perm Variant.key row.variants).map Variant.key).mem_iff.mp unnamed)
    exact ⟨patchedFlag_references supply data valid.load_variants loaded names checked references.load,
      patchedFlag_named supply data valid.load_variants loaded⟩

theorem stored_references_defined_reshaping :
    ∃ world : StoreWorld, RunWhere (World.act storeStep) (Sends Request.NamesVariants) StoreWorld.start reshaping
        world ∧ (∃ row ∈ world.shared.db.flags, row.offVariant = some (str "red") ∧ row.version = 2) ∧
      ∀ row ∈ world.shared.db.flags, row.ReferencesDefined := by
  obtain ⟨world, runs, stored⟩ := runWhere_reaches (World.act storeStep) (Sends Request.NamesVariants)
    StoreWorld.start reshaping
    (fun world => ∃ row ∈ world.shared.db.flags, row.offVariant = some (str "red") ∧ row.version = 2)
    (by decide +kernel)
  exact ⟨world, runs, stored, stored_references_defined runs⟩

def emptyOffVariant : FlagUpdate := ⟨{ offVariant := .value [], version := 1 }, by decide +kernel⟩

def emptyPin : FlagUpdate :=
  ⟨{ rules := .value [{ attr := str "plan", operator := .eq, values := [str "pro"], variant := some [] }],
     version := 2 }, by decide +kernel⟩

/-- One update turns off a variant of no name, the next pins a rule to it. -/
def namelessUpdates : List (Nat × StoreAct) :=
  [(0, .read (.create experimentCreate (str "ops"))), (0, .commit (supplyOf 1)),
    (1, .read (.update (str "checkout") emptyOffVariant (str "ops"))), (1, .commit (supplyOf 2)),
    (2, .read (.update (str "checkout") emptyPin (str "ops"))), (2, .commit (supplyOf 3))]

theorem emptyName_dangles :
    ∃ world : StoreWorld, run (World.act storeStep) StoreWorld.start namelessUpdates = some world ∧
      ∃ row ∈ world.shared.db.flags, row.offVariant = some [] ∧
        (∃ rule ∈ row.rules, rule.variant = some []) ∧ ¬ row.ReferencesDefined :=
  run_reaches (World.act storeStep) StoreWorld.start namelessUpdates _ (by decide +kernel)

end References

end Ripcord
