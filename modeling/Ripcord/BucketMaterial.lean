import Ripcord.ColumnLimits
import Ripcord.RulesetEndpoint
import Ripcord.Foundation.Fields
import Ripcord.Foundation.Logged
import Ripcord.Foundation.Utf8

namespace Ripcord

open Foundation

/-! The engine over again with its digest as a parameter, and with the bytes it hashes written down. -/

abbrev Digest := List Byte → Nat

abbrev Hashing (α : Type) := Logged (List Byte) PyError α

def bucketMaterial (flagKey userId salt : Str) : Option (List Byte) := encode (join [0] [flagKey, salt, userId])

def bucketForLogged (digest : Digest) (flagKey userId salt : Str) : Hashing Nat :=
  match bucketMaterial flagKey userId salt with
  | some material => (Logged.ask digest material).map fun word => word % bucketCount
  | none => .ofResult (.error .unicodeEncodeError)

def inRolloutLogged (digest : Digest) (flagKey userId : Str) (rolloutPercentage : Int) : Hashing Bool :=
  if rolloutPercentage ≤ 0 then .ofResult (.ok false)
  else if rolloutPercentage ≥ 100 then .ofResult (.ok true)
  else
    let threshold := rolloutPercentage * (bucketCount / 100 : Nat)
    (bucketForLogged digest flagKey userId []).map fun bucket : Nat => (bucket : Int) < threshold

def chooseVariantLogged (digest : Digest) (flag : FlagSpec) (userId : Str) : Hashing (Option VariantSpec) :=
  if flag.variants = [] then .ofResult (.ok none)
  else
    let ordered := sortOn VariantSpec.key flag.variants
    let total := (ordered.map VariantSpec.weight).sum
    if total ≤ 0 then .ofResult (.ok ordered.head?)
    else
      (bucketForLogged digest flag.key userId variantSalt).map fun bucket : Nat =>
        let position : Rat := bucket * total / bucketCount
        (chooseBand position 0 ordered).or ordered.getLast?

def ruleResultLogged (digest : Digest) (flag : FlagSpec) (pin : Option Str) (userId : Str) : Hashing Evaluation :=
  match findVariant flag pin with
  | some pinned =>
    .ofResult (.ok { enabled := true, reason := .targetingMatch, variant := pinned.key, value := pinned.value })
  | none =>
    if flag.isMultivariate then (chooseVariantLogged digest flag userId).map (chosenResult .targetingMatch)
    else .ofResult (.ok { enabled := true, reason := .targetingMatch })

def rolloutResultLogged (digest : Digest) (flag : FlagSpec) (userId : Str) : Hashing Evaluation :=
  (inRolloutLogged digest flag.key userId flag.rolloutPercentage).bind fun included =>
    if included then
      if flag.isMultivariate then (chooseVariantLogged digest flag userId).map (chosenResult .rolloutIncluded)
      else .ofResult (.ok { enabled := true, reason := .rolloutIncluded })
    else .ofResult (.ok (offResult flag .rolloutExcluded))

def evaluateLogged (digest : Digest) (flag : FlagSpec) (userId : Str) (context : Option Context) :
    Hashing Evaluation :=
  let context := context.getD ∅
  if !flag.enabled then .ofResult (.ok (offResult flag .flagDisabled))
  else
    match flag.rules.find? fun rule => ruleMatches rule context with
    | some rule => ruleResultLogged digest flag rule.variant userId
    | none => rolloutResultLogged digest flag userId

section Engine

@[simp] theorem bucketForLogged_result (flagKey userId salt : Str) :
    (bucketForLogged Md5.leadingWord flagKey userId salt).result = bucketFor flagKey userId salt := by
  unfold bucketForLogged bucketFor bucketMaterial
  cases encode (join [0] [flagKey, salt, userId]) <;> rfl

@[simp] theorem inRolloutLogged_result (flagKey userId : Str) (rolloutPercentage : Int) :
    (inRolloutLogged Md5.leadingWord flagKey userId rolloutPercentage).result =
      inRollout flagKey userId rolloutPercentage := by
  unfold inRolloutLogged inRollout
  split
  · rfl
  · split
    · rfl
    · simp only [Logged.result_map, bucketForLogged_result]
      cases bucketFor flagKey userId [] <;> rfl

@[simp] theorem chooseVariantLogged_result (flag : FlagSpec) (userId : Str) :
    (chooseVariantLogged Md5.leadingWord flag userId).result = chooseVariant flag userId := by
  unfold chooseVariantLogged chooseVariant
  split
  · rfl
  · simp only
    split
    · rfl
    · simp only [Logged.result_map, bucketForLogged_result]
      cases bucketFor flag.key userId variantSalt <;> rfl

@[simp] theorem ruleResultLogged_result (flag : FlagSpec) (pin : Option Str) (userId : Str) :
    (ruleResultLogged Md5.leadingWord flag pin userId).result = ruleResult flag pin userId := by
  unfold ruleResultLogged ruleResult
  cases findVariant flag pin with
  | some pinned => rfl
  | none =>
    simp only
    split <;> simp

@[simp] theorem rolloutResultLogged_result (flag : FlagSpec) (userId : Str) :
    (rolloutResultLogged Md5.leadingWord flag userId).result = rolloutResult flag userId := by
  simp only [rolloutResultLogged, rolloutResult, Logged.result_bind, inRolloutLogged_result]
  congr 1
  funext included
  split
  · split <;> simp
  · rfl

/-- Over MD5 these are the functions of the engine. -/
theorem evaluateLogged_result (flag : FlagSpec) (userId : Str) (context : Option Context) :
    (evaluateLogged Md5.leadingWord flag userId context).result = evaluate flag userId context := by
  simp only [evaluateLogged, evaluate]
  split
  · rfl
  · cases flag.rules.find? fun rule => ruleMatches rule (context.getD ∅) with
    | some rule => exact ruleResultLogged_result flag rule.variant userId
    | none => exact rolloutResultLogged_result flag userId

end Engine

section Buckets

variable {α β : Type} {flagKey userId salt : Str} {material : List Byte} {run : Digest → Hashing α}

theorem bucketForLogged_log (digest : Digest) (flagKey userId salt : Str) :
    (bucketForLogged digest flagKey userId salt).log = (bucketMaterial flagKey userId salt).toList := by
  unfold bucketForLogged
  cases bucketMaterial flagKey userId salt <;> rfl

theorem mem_bucketForLogged {digest : Digest}
    (hashed : material ∈ (bucketForLogged digest flagKey userId salt).log) :
    bucketMaterial flagKey userId salt = some material := by
  rw [bucketForLogged_log] at hashed
  exact Option.mem_toList.mp hashed

theorem bucketForLogged_depends (flagKey userId salt : Str) :
    DependsOnLog fun digest => bucketForLogged digest flagKey userId salt := by
  unfold bucketForLogged
  cases bucketMaterial flagKey userId salt with
  | none => exact dependsOnLog_ofResult _
  | some material => exact (dependsOnLog_ask material).map _

def FromBucket (flagKey userId salt : Str) (run : Digest → Hashing α) : Prop :=
  (∃ result, ∀ digest, run digest = .ofResult result) ∨
    ∃ answer : Nat → α, ∀ digest, run digest = (bucketForLogged digest flagKey userId salt).map answer

theorem FromBucket.map (decides : FromBucket flagKey userId salt run) (f : α → β) :
    FromBucket flagKey userId salt fun digest => (run digest).map f := by
  rcases decides with ⟨result, returns⟩ | ⟨answer, asks⟩
  · exact .inl ⟨result.map f, fun digest => by simp only [returns, Logged.map_ofResult]⟩
  · exact .inr ⟨fun bucket => f (answer bucket), fun digest => by simp only [asks, Logged.map_map]⟩

theorem FromBucket.log (decides : FromBucket flagKey userId salt run) (digest : Digest) :
    (run digest).log.Sublist (bucketMaterial flagKey userId salt).toList := by
  rcases decides with ⟨result, returns⟩ | ⟨answer, asks⟩
  · rw [returns, Logged.log_ofResult]
    exact List.nil_sublist _
  · rw [asks, Logged.log_map, bucketForLogged_log]

theorem FromBucket.mem {digest : Digest} (decides : FromBucket flagKey userId salt run)
    (hashed : material ∈ (run digest).log) : bucketMaterial flagKey userId salt = some material :=
  Option.mem_toList.mp ((decides.log digest).subset hashed)

theorem FromBucket.depends (decides : FromBucket flagKey userId salt run) : DependsOnLog run := by
  rcases decides with ⟨result, returns⟩ | ⟨answer, asks⟩
  · rw [funext returns]
    exact dependsOnLog_ofResult result
  · rw [funext asks]
    exact (bucketForLogged_depends flagKey userId salt).map answer

theorem FromBucket.congr {first second : Digest} (decides : FromBucket flagKey userId salt run)
    (same : bucketForLogged first flagKey userId salt = bucketForLogged second flagKey userId salt) :
    run first = run second := by
  rcases decides with ⟨result, returns⟩ | ⟨answer, asks⟩
  · rw [returns, returns]
  · rw [asks, asks, same]

theorem inRolloutLogged_fromBucket (flagKey userId : Str) (rolloutPercentage : Int) :
    FromBucket flagKey userId [] fun digest => inRolloutLogged digest flagKey userId rolloutPercentage := by
  unfold inRolloutLogged
  split
  · exact .inl ⟨_, fun _ => rfl⟩
  · split
    · exact .inl ⟨_, fun _ => rfl⟩
    · exact .inr ⟨_, fun _ => rfl⟩

theorem chooseVariantLogged_fromBucket (flag : FlagSpec) (userId : Str) :
    FromBucket flag.key userId variantSalt fun digest => chooseVariantLogged digest flag userId := by
  unfold chooseVariantLogged
  split
  · exact .inl ⟨_, fun _ => rfl⟩
  · simp only
    split
    · exact .inl ⟨_, fun _ => rfl⟩
    · exact .inr ⟨_, fun _ => rfl⟩

theorem ruleResultLogged_fromBucket (flag : FlagSpec) (pin : Option Str) (userId : Str) :
    FromBucket flag.key userId variantSalt fun digest => ruleResultLogged digest flag pin userId := by
  unfold ruleResultLogged
  split
  · exact .inl ⟨_, fun _ => rfl⟩
  · split
    · exact (chooseVariantLogged_fromBucket flag userId).map _
    · exact .inl ⟨_, fun _ => rfl⟩

/-- The rollout's bucket comes first; what is served then is decided from the variant's. -/
theorem rolloutResultLogged_next (flag : FlagSpec) (userId : Str) :
    ∃ next : Bool → Digest → Hashing Evaluation,
      (∀ included, FromBucket flag.key userId variantSalt (next included)) ∧
        ∀ digest, rolloutResultLogged digest flag userId =
          (inRolloutLogged digest flag.key userId flag.rolloutPercentage).bind
            fun included => next included digest := by
  refine ⟨_, ?_, fun _ => rfl⟩
  intro included
  split
  · split
    · exact (chooseVariantLogged_fromBucket flag userId).map _
    · exact .inl ⟨_, fun _ => rfl⟩
  · exact .inl ⟨_, fun _ => rfl⟩

def evaluationMaterial (flagKey userId : Str) : List (List Byte) :=
  (bucketMaterial flagKey userId []).toList ++ (bucketMaterial flagKey userId variantSalt).toList

theorem rolloutResultLogged_log (digest : Digest) (flag : FlagSpec) (userId : Str) :
    (rolloutResultLogged digest flag userId).log.Sublist (evaluationMaterial flag.key userId) := by
  obtain ⟨next, later, same⟩ := rolloutResultLogged_next flag userId
  rw [same]
  exact Logged.log_bind_sublist ((inRolloutLogged_fromBucket ..).log digest) fun included => (later included).log digest

theorem evaluateLogged_log (digest : Digest) (flag : FlagSpec) (userId : Str) (context : Option Context) :
    (evaluateLogged digest flag userId context).log.Sublist (evaluationMaterial flag.key userId) := by
  simp only [evaluateLogged]
  split
  · exact List.nil_sublist _
  · split
    · exact ((ruleResultLogged_fromBucket flag _ userId).log digest).trans (List.sublist_append_right _ _)
    · exact rolloutResultLogged_log digest flag userId

theorem rolloutResultLogged_depends (flag : FlagSpec) (userId : Str) :
    DependsOnLog fun digest => rolloutResultLogged digest flag userId := by
  obtain ⟨next, later, same⟩ := rolloutResultLogged_next flag userId
  rw [funext same]
  exact (inRolloutLogged_fromBucket ..).depends.bind fun included => (later included).depends

/-- The digest of what is hashed decides an evaluation, and nothing else of the digest does. -/
theorem evaluateLogged_depends (flag : FlagSpec) (userId : Str) (context : Option Context) :
    DependsOnLog fun digest => evaluateLogged digest flag userId context := by
  simp only [evaluateLogged]
  split
  · exact dependsOnLog_ofResult _
  · split
    · exact (ruleResultLogged_fromBucket flag _ userId).depends
    · exact rolloutResultLogged_depends flag userId

end Buckets

section Material

variable {flagKey otherKey salt otherSalt userId otherId : Str} {material : List Byte}

/-- The key ends at the first NUL and the salt at the second; the rest is the user's id, whatever it holds. -/
theorem bucketMaterial_inj (named : 0 ∉ flagKey) (alsoNamed : 0 ∉ otherKey) (salted : 0 ∉ salt)
    (alsoSalted : 0 ∉ otherSalt) (first : bucketMaterial flagKey userId salt = some material)
    (second : bucketMaterial otherKey otherId otherSalt = some material) :
    flagKey = otherKey ∧ salt = otherSalt ∧ userId = otherId := by
  have same := encode_inj first second
  simp only [join_cons_cons, join_singleton, List.append_assoc, List.singleton_append] at same
  obtain ⟨keys, rest⟩ := separated_inj named alsoNamed same
  exact ⟨keys, separated_inj salted alsoSalted rest⟩

/-- A NUL in the key lets a user's id stand for a salt. -/
example : bucketMaterial (str "search" ++ [0]) (str "alice") variantSalt =
    bucketMaterial (str "search") (variantSalt ++ 0 :: str "alice") [] := by decide +kernel

theorem bucketMaterial_salts_apart (named : 0 ∉ flagKey) (alsoNamed : 0 ∉ otherKey)
    (rollout : bucketMaterial flagKey userId [] = some material) :
    bucketMaterial otherKey otherId variantSalt ≠ some material := by
  intro choice
  obtain ⟨_, salts, _⟩ := bucketMaterial_inj named alsoNamed (by decide) (by decide) rollout choice
  exact absurd salts (by decide)

end Material

section Evaluations

variable {flag other : FlagSpec} {userId otherId : Str} {context otherContext : Option Context} {material : List Byte}

theorem mem_evaluationMaterial {flagKey : Str} (hashed : material ∈ evaluationMaterial flagKey userId) :
    ∃ salt, 0 ∉ salt ∧ bucketMaterial flagKey userId salt = some material := by
  rw [evaluationMaterial, List.mem_append, Option.mem_toList, Option.mem_toList] at hashed
  rcases hashed with rollout | choice
  · exact ⟨[], by decide, rollout⟩
  · exact ⟨variantSalt, by decide, choice⟩

theorem evaluationMaterial_nodup {flagKey : Str} (named : 0 ∉ flagKey) (userId : Str) :
    (evaluationMaterial flagKey userId).Nodup := by
  rw [evaluationMaterial, List.nodup_append']
  refine ⟨Option.toList_nodup _, Option.toList_nodup _, ?_⟩
  intro material rollout choice
  exact bucketMaterial_salts_apart named named (Option.mem_toList.mp rollout) (Option.mem_toList.mp choice)

theorem evaluateLogged_log_nodup (named : 0 ∉ flag.key) (digest : Digest) (userId : Str) (context : Option Context) :
    (evaluateLogged digest flag userId context).log.Nodup :=
  (evaluateLogged_log digest flag userId context).nodup (evaluationMaterial_nodup named userId)

theorem evaluateLogged_apart {digest otherDigest : Digest} (named : 0 ∉ flag.key) (alsoNamed : 0 ∉ other.key)
    (hashed : material ∈ (evaluateLogged digest flag userId context).log)
    (also : material ∈ (evaluateLogged otherDigest other otherId otherContext).log) :
    flag.key = other.key ∧ userId = otherId := by
  obtain ⟨salt, salted, mine⟩ := mem_evaluationMaterial ((evaluateLogged_log ..).subset hashed)
  obtain ⟨otherSalt, alsoSalted, theirs⟩ := mem_evaluationMaterial ((evaluateLogged_log ..).subset also)
  obtain ⟨keys, _, users⟩ := bucketMaterial_inj named alsoNamed salted alsoSalted mine theirs
  exact ⟨keys, users⟩

theorem StoreWorld.evaluations_apart {digest : Digest} {world : StoreWorld} {acts : List (Nat × StoreAct)}
    (runs : run (World.act storeStep) StoreWorld.start acts = some world) {row another : Flag}
    (stored : row ∈ world.shared.db.flags) (alsoStored : another ∈ world.shared.db.flags)
    (hashed : material ∈ (evaluateLogged digest (toSpec row) userId context).log)
    (also : material ∈ (evaluateLogged digest (toSpec another) otherId otherContext).log) :
    row = another ∧ userId = otherId := by
  have keys := StoreWorld.keys_of_run runs
  have named := (keys row stored).storable.2
  have alsoNamed := (keys another alsoStored).storable.2
  obtain ⟨same, users⟩ := evaluateLogged_apart named alsoNamed hashed also
  exact ⟨world.shared.db.row_eq_of_key stored alsoStored same, users⟩

/-- Whatever digest there is for each key and user, one digest gives each of their evaluations as its own does. -/
theorem evaluations_independent (digests : Str → Str → Digest) :
    ∃ digest : Digest, ∀ (flag : FlagSpec) (userId : Str) (context : Option Context), 0 ∉ flag.key →
      evaluateLogged digest flag userId context = evaluateLogged (digests flag.key userId) flag userId context := by
  obtain ⟨digest, same⟩ := exists_common_oracle
    (fun i : { flag : FlagSpec // 0 ∉ flag.key } × Str × Option Context =>
      evaluateLogged_depends i.1.val i.2.1 i.2.2)
    (fun i => (i.1.val.key, i.2.1)) (fun owner => digests owner.1 owner.2) (by
      intro i j material hashed also
      obtain ⟨keys, users⟩ := evaluateLogged_apart i.1.property j.1.property hashed also
      exact Prod.ext keys users)
  exact ⟨digest, fun flag userId context named => same (⟨flag, named⟩, userId, context)⟩

/-- Inclusion and choice are decorrelated: the two can be decided by any digests, apart from each other. -/
theorem inclusion_and_choice_independent (rollouts choices : Digest) :
    ∃ digest : Digest,
      (∀ (flagKey userId : Str) (rolloutPercentage : Int), 0 ∉ flagKey →
        inRolloutLogged digest flagKey userId rolloutPercentage =
          inRolloutLogged rollouts flagKey userId rolloutPercentage) ∧
      ∀ (flag : FlagSpec) (userId : Str), 0 ∉ flag.key →
        chooseVariantLogged digest flag userId = chooseVariantLogged choices flag userId := by
  obtain ⟨digest, same⟩ := exists_common_oracle
    (fun i : { flagKey : Str // 0 ∉ flagKey } × Str × { salt : Str // 0 ∉ salt } =>
      bucketForLogged_depends i.1.val i.2.1 i.2.2.val)
    (fun i => i.2.2.val) (fun salt => if salt = [] then rollouts else choices) (by
      intro i j material hashed also
      exact (bucketMaterial_inj i.1.property j.1.property i.2.2.property j.2.2.property (mem_bucketForLogged hashed)
        (mem_bucketForLogged also)).2.1)
  refine ⟨digest, ?_, ?_⟩
  · intro flagKey userId rolloutPercentage named
    have bucket := same (⟨flagKey, named⟩, userId, ⟨[], by decide⟩)
    rw [if_pos rfl] at bucket
    exact (inRolloutLogged_fromBucket flagKey userId rolloutPercentage).congr bucket
  · intro flag userId named
    have bucket := same (⟨flag.key, named⟩, userId, ⟨variantSalt, by decide⟩)
    rw [if_neg (show variantSalt ≠ [] by decide)] at bucket
    exact (chooseVariantLogged_fromBucket flag userId).congr bucket

end Evaluations

/-- What is hashed for buckets tells key, salt and user apart, and never serves a rollout and a choice of variant. -/
theorem bucketMaterial_unique :
    (∀ flagKey otherKey salt otherSalt userId otherId : Str,
      0 ∉ flagKey → 0 ∉ otherKey → 0 ∉ salt → 0 ∉ otherSalt →
      ∀ material ∈ (bucketForLogged Md5.leadingWord flagKey userId salt).log,
        material ∈ (bucketForLogged Md5.leadingWord otherKey otherId otherSalt).log →
          flagKey = otherKey ∧ salt = otherSalt ∧ userId = otherId) ∧
    ∀ (flagKey userId : Str) (rolloutPercentage : Int) (flag : FlagSpec) (otherId : Str),
      0 ∉ flagKey → 0 ∉ flag.key →
      ∀ material ∈ (inRolloutLogged Md5.leadingWord flagKey userId rolloutPercentage).log,
        material ∉ (chooseVariantLogged Md5.leadingWord flag otherId).log := by
  constructor
  · intro flagKey otherKey salt otherSalt userId otherId named alsoNamed salted alsoSalted material hashed also
    exact bucketMaterial_inj named alsoNamed salted alsoSalted (mem_bucketForLogged hashed)
      (mem_bucketForLogged also)
  · intro flagKey userId rolloutPercentage flag otherId named alsoNamed material hashed also
    have rollout := (inRolloutLogged_fromBucket flagKey userId rolloutPercentage).mem hashed
    have choice := (chooseVariantLogged_fromBucket flag otherId).mem also
    exact bucketMaterial_salts_apart named alsoNamed rollout choice

def evenBanner : FlagSpec :=
  { key := str "banner", enabled := true, rolloutPercentage := 70,
    variants := [{ key := str "red", weight := 50 }, { key := str "blue", weight := 50 }] }

def variantAlice : Str := str "variant" ++ 0 :: str "alice"

def variantAliceMaterial : List Byte := (str "banner" ++ 0 :: 0 :: variantAlice).flatMap utf8Point

theorem bucketMaterial_unique_variantAlice :
    (str "banner" = evenBanner.key ∧ [] = ([] : Str) ∧ variantAlice = join [0] [variantSalt, str "alice"]) ∧
    (chooseVariantLogged Md5.leadingWord evenBanner (str "alice")).log ≠ [] ∧
    variantAliceMaterial ∉ (chooseVariantLogged Md5.leadingWord evenBanner (str "alice")).log :=
  ⟨bucketMaterial_unique.1 (str "banner") evenBanner.key [] [] variantAlice (join [0] [variantSalt, str "alice"])
      (by decide) (by decide) (by decide) (by decide) variantAliceMaterial (by decide +kernel) (by decide +kernel),
    by decide +kernel,
    bucketMaterial_unique.2 (str "banner") variantAlice 70 evenBanner (str "alice") (by decide) (by decide)
      variantAliceMaterial (by decide +kernel)⟩

end Ripcord
