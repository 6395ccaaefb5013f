import Ripcord.Models
import Mathlib.Data.List.Dedup

namespace Ripcord

open Foundation

def isKeyHead (c : CodePoint) : Bool :=
  (ch 'a' ≤ c ∧ c ≤ ch 'z') ∨ (ch '0' ≤ c ∧ c ≤ ch '9')

def isKeyTail (c : CodePoint) : Bool := isKeyHead c ∨ c = ch '.' ∨ c = ch '_' ∨ c = ch '-'

/-- `^[a-z0-9][a-z0-9._-]*$`. -/
def MatchesKeyPattern : Str → Prop
  | [] => False
  | c :: rest => isKeyHead c ∧ ∀ d ∈ rest, isKeyTail d

instance : DecidablePred MatchesKeyPattern
  | [] => inferInstanceAs (Decidable False)
  | c :: rest =>
    have : Decidable (∀ d ∈ rest, isKeyTail d) := List.decidableBAll (fun d => isKeyTail d = true) rest
    inferInstanceAs (Decidable (isKeyHead c = true ∧ ∀ d ∈ rest, isKeyTail d = true))

/-- A string field with a constraint of its own; a plain `str` takes any Python string. -/
def TextWithin (least most : Nat) (s : Str) : Prop := IsUnicode s ∧ least ≤ s.length ∧ s.length ≤ most
  deriving Decidable

structure VariantIn where
  key : Str
  value : Json := .null
  weight : Int := 0
  deriving DecidableEq

def VariantIn.FieldsValid (variant : VariantIn) : Prop :=
  TextWithin 1 64 variant.key ∧ MatchesKeyPattern variant.key ∧ 0 ≤ variant.weight ∧ variant.weight ≤ 100
  deriving Decidable

structure TargetingRuleIn where
  attr : Str
  operator : Operator
  values : List Str
  priority : Int := 0
  variant : Option Str := none
  deriving DecidableEq

def TargetingRuleIn.FieldsValid (rule : TargetingRuleIn) : Prop :=
  TextWithin 1 128 rule.attr ∧ rule.values ≠ [] ∧ ∀ s ∈ rule.variant, TextWithin 0 64 s
  deriving Decidable

/-- A field constraint of pydantic's, or the `ValueError` of a validator with its text. -/
inductive ValidationError
  | field
  | model (message : Str)
  deriving DecidableEq

def definedSuffix (keys : List Str) : Str :=
  if keys = [] then [] else str "; defined: " ++ join (str ", ") (sortOn id keys.dedup)

def checkRuleVariants (rules : List TargetingRuleIn) (variants : List VariantIn) :
    Except ValidationError Unit :=
  let keys := variants.map VariantIn.key
  match (rules.filterMap TargetingRuleIn.variant).find? fun variant => variant ∉ keys with
  | some variant =>
    .error (.model (str "rule pins unknown variant '" ++ variant ++ str "'" ++ definedSuffix keys))
  | none => .ok ()

/-- `_validate_variants`, for the list a request carries; `none` is the field left out. -/
def validateVariants (variants : Option (List VariantIn)) (offVariant : Option Str) :
    Except ValidationError Unit :=
  match variants.getD [] with
  | [] =>
    if offVariant.isSome then .error (.model (str "off_variant requires at least one variant")) else .ok ()
  | first :: others =>
    let keys := (first :: others).map VariantIn.key
    let duplicates := sortOn id (keys.filter fun k => 1 < keys.count k).dedup
    let total := ((first :: others).map VariantIn.weight).sum
    if duplicates ≠ [] then
      .error (.model (str "duplicate variant key(s): " ++ join (str ", ") duplicates))
    else if (first :: others).length < 2 then
      .error (.model (str "a multivariate flag needs at least 2 variants"))
    else if total ≠ 100 then
      .error (.model (str "variant weights must sum to 100 (got " ++ Json.printInt total ++ str ")"))
    else
      match offVariant with
      | none => .ok ()
      | some off =>
        if off ∈ keys then .ok ()
        else .error (.model (str "off_variant '" ++ off ++ str "' is not one of: " ++ join (str ", ") keys))

structure FlagCreateBody where
  key : Str
  name : Str
  description : Option Str := none
  enabled : Bool := false
  rolloutPercentage : Int := 0
  rules : List TargetingRuleIn := []
  variants : List VariantIn := []
  offVariant : Option Str := none
  deriving DecidableEq

def FlagCreateBody.FieldsValid (body : FlagCreateBody) : Prop :=
  TextWithin 1 128 body.key ∧ MatchesKeyPattern body.key ∧ TextWithin 1 256 body.name ∧
    (∀ s ∈ body.description, TextWithin 0 1024 s) ∧
    (0 ≤ body.rolloutPercentage ∧ body.rolloutPercentage ≤ 100) ∧
    (∀ rule ∈ body.rules, rule.FieldsValid) ∧ (∀ variant ∈ body.variants, variant.FieldsValid) ∧
    ∀ s ∈ body.offVariant, TextWithin 0 64 s
  deriving Decidable

def FlagCreateBody.check (body : FlagCreateBody) : Except ValidationError Unit :=
  if body.FieldsValid then
    (validateVariants (some body.variants) body.offVariant).bind fun _ =>
      checkRuleVariants body.rules body.variants
  else .error .field

/-- A `FlagCreate`: an instance exists only once its validators have accepted it. -/
structure FlagCreate extends FlagCreateBody where
  accepted : toFlagCreateBody.check = .ok ()
  deriving DecidableEq

/-- An optional field of a request: left out, explicitly null, or given. -/
inductive Patch (α : Type)
  | absent
  | null
  | value (a : α)
  deriving DecidableEq

def Patch.get? {α : Type} : Patch α → Option α
  | .value a => some a
  | _ => none

def Patch.isSet {α : Type} : Patch α → Bool
  | .absent => false
  | _ => true

structure FlagUpdateBody where
  name : Patch Str := .absent
  description : Patch Str := .absent
  enabled : Patch Bool := .absent
  rolloutPercentage : Patch Int := .absent
  rules : Patch (List TargetingRuleIn) := .absent
  variants : Patch (List VariantIn) := .absent
  offVariant : Patch Str := .absent
  version : Int
  deriving DecidableEq

def FlagUpdateBody.FieldsValid (body : FlagUpdateBody) : Prop :=
  (∀ s ∈ body.name.get?, TextWithin 1 256 s) ∧ (∀ s ∈ body.description.get?, TextWithin 0 1024 s) ∧
    (∀ n ∈ body.rolloutPercentage.get?, 0 ≤ n ∧ n ≤ 100) ∧
    (∀ rules ∈ body.rules.get?, ∀ rule ∈ rules, rule.FieldsValid) ∧
    (∀ variants ∈ body.variants.get?, ∀ variant ∈ variants, variant.FieldsValid) ∧
    (∀ s ∈ body.offVariant.get?, TextWithin 0 64 s) ∧ 1 ≤ body.version
  deriving Decidable

/-- The variant set is validated only when the request replaces it. -/
def FlagUpdateBody.check (body : FlagUpdateBody) : Except ValidationError Unit :=
  if body.FieldsValid then
    match body.variants.get? with
    | none => .ok ()
    | some variants =>
      (validateVariants (some variants) body.offVariant.get?).bind fun _ =>
        checkRuleVariants (body.rules.get?.getD []) variants
  else .error .field

structure FlagUpdate extends FlagUpdateBody where
  accepted : toFlagUpdateBody.check = .ok ()
  deriving DecidableEq

/-! The JSON shape of `FlagOut`, in the order of its fields. -/

def optionalText : Option Str → Json
  | none => .null
  | some s => .str s

def TargetingRule.toJson (rule : TargetingRule) : Json :=
  .obj [(str "id", .int rule.id), (str "attribute", .str rule.attr),
    (str "operator", .str rule.operator.value), (str "values", .arr (rule.values.map .str)),
    (str "priority", .int rule.priority), (str "variant", optionalText rule.variant)]

def Variant.toJson (variant : Variant) : Json :=
  .obj [(str "id", .int variant.id), (str "key", .str variant.key), (str "value", variant.value),
    (str "weight", .int variant.weight)]

/-- `FlagOut.model_validate(flag)`: its validator sorts the variants; the rules keep their order. -/
def Flag.toFlagOut (flag : Flag) : Flag := { flag with variants := sortOn Variant.key flag.variants }

def Flag.toJson (flag : Flag) : Json :=
  .obj [(str "id", .int flag.id), (str "key", .str flag.key), (str "name", .str flag.name),
    (str "description", optionalText flag.description), (str "enabled", .bool flag.enabled),
    (str "rollout_percentage", .int flag.rolloutPercentage), (str "version", .int flag.version),
    (str "created_at", .str flag.createdAt), (str "updated_at", .str flag.updatedAt),
    (str "off_variant", optionalText flag.offVariant),
    (str "rules", .arr (flag.rules.map TargetingRule.toJson)),
    (str "variants", .arr (flag.variants.map Variant.toJson))]

structure EvaluateRequest where
  flagKey : Str
  userId : Str
  context : Context
  flagKeyWithin : TextWithin 1 128 flagKey
  userIdWithin : TextWithin 1 256 userId
  contextWithin : context.keys.length ≤ 64
  entriesWithin : ∀ key entry, context.lookup key = some entry →
    TextWithin 0 128 key ∧ TextWithin 0 512 entry

theorem MatchesKeyPattern.ne_underscore {key : Str} (pattern : MatchesKeyPattern key) (rest : Str) :
    key ≠ ch '_' :: rest := by
  intro same
  subst same
  exact absurd pattern.1 (by decide)

theorem nodup_of_no_duplicates {keys : List Str}
    (unique : (keys.filter fun k => 1 < keys.count k).dedup = []) : keys.Nodup := by
  rw [List.nodup_iff_count_le_one]
  intro key
  by_contra twice
  have listed : key ∈ keys := List.count_pos_iff.mp (by omega)
  have duplicate : key ∈ (keys.filter fun k => 1 < keys.count k).dedup := by
    rw [List.mem_dedup, List.mem_filter, decide_eq_true_eq]
    exact ⟨listed, by omega⟩
  rw [unique] at duplicate
  cases duplicate

/-- What the validator lets through: no variants and no off variant, or a set that the engine can serve. -/
structure Validated (variants : List VariantIn) (offVariant : Option Str) : Prop where
  several : variants = [] ∨ 2 ≤ variants.length
  distinct : (variants.map VariantIn.key).Nodup
  total : variants ≠ [] → (variants.map VariantIn.weight).sum = 100
  offVariant : ∀ off ∈ offVariant, off ∈ variants.map VariantIn.key

theorem validateVariants_ok {variants : List VariantIn} {offVariant : Option Str}
    (accepted : validateVariants (some variants) offVariant = .ok ()) : Validated variants offVariant := by
  unfold validateVariants at accepted
  cases variants with
  | nil =>
    simp only [Option.getD_some] at accepted
    split at accepted
    · cases accepted
    · rename_i absent
      exact ⟨.inl rfl, List.nodup_nil, fun some => absurd rfl some, fun off given => by simp_all⟩
  | cons first others =>
    simp only [Option.getD_some] at accepted
    split at accepted
    · cases accepted
    · rename_i unique
      have distinct := nodup_of_no_duplicates (sortOn_eq_nil.mp (not_not.mp unique))
      split at accepted
      · cases accepted
      · rename_i several
        split at accepted
        · cases accepted
        · rename_i total
          refine ⟨.inr (not_lt.mp several), distinct, fun _ => not_not.mp total, ?_⟩
          intro off given
          rw [Option.mem_def.mp given] at accepted
          simp only at accepted
          split at accepted
          · assumption
          · cases accepted

theorem checkRuleVariants_ok {rules : List TargetingRuleIn} {variants : List VariantIn}
    (accepted : checkRuleVariants rules variants = .ok ()) :
    ∀ rule ∈ rules, ∀ pin ∈ rule.variant, pin ∈ variants.map VariantIn.key := by
  intro rule member pin pinned
  unfold checkRuleVariants at accepted
  simp only at accepted
  split at accepted
  · cases accepted
  · rename_i unknown
    have listed : pin ∈ rules.filterMap TargetingRuleIn.variant := List.mem_filterMap.mpr ⟨rule, member, pinned⟩
    simpa using List.find?_eq_none.mp unknown pin listed

theorem FlagCreate.fieldsValid (data : FlagCreate) : data.FieldsValid := by
  have accepted := data.accepted
  unfold FlagCreateBody.check at accepted
  split at accepted
  · assumption
  · cases accepted

theorem FlagCreate.validated (data : FlagCreate) :
    Validated data.variants data.offVariant ∧
      ∀ rule ∈ data.rules, ∀ pin ∈ rule.variant, pin ∈ data.variants.map VariantIn.key := by
  have accepted := data.accepted
  unfold FlagCreateBody.check at accepted
  rw [if_pos data.fieldsValid] at accepted
  obtain ⟨_, validates, checked⟩ := bind_eq_ok accepted
  exact ⟨validateVariants_ok validates, checkRuleVariants_ok checked⟩

theorem FlagUpdate.fieldsValid (data : FlagUpdate) : data.FieldsValid := by
  have accepted := data.accepted
  unfold FlagUpdateBody.check at accepted
  split at accepted
  · assumption
  · cases accepted

theorem FlagUpdate.validated (data : FlagUpdate) {variants : List VariantIn}
    (sent : data.variants.get? = some variants) :
    Validated variants data.offVariant.get? ∧
      ∀ rule ∈ data.rules.get?.getD [], ∀ pin ∈ rule.variant, pin ∈ variants.map VariantIn.key := by
  have accepted := data.accepted
  unfold FlagUpdateBody.check at accepted
  rw [if_pos data.fieldsValid, sent] at accepted
  obtain ⟨_, validates, checked⟩ := bind_eq_ok accepted
  exact ⟨validateVariants_ok validates, checkRuleVariants_ok checked⟩

theorem FlagUpdate.variants_distinct (data : FlagUpdate) {variants : List VariantIn}
    (sent : data.variants.get? = some variants) : (variants.map VariantIn.key).Nodup :=
  (data.validated sent).1.distinct

end Ripcord
