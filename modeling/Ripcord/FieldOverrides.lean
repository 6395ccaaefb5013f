import Ripcord.RulePriority
import Ripcord.SerialStore

namespace Ripcord

open Foundation

/-- A field that cannot be null: an explicit null asks for nothing. -/
def Patch.overrides {α : Type} (patch : Patch α) (stored : α) : α := patch.get?.getD stored

/-- A nullable field: an explicit null clears it. -/
def Patch.overridesNullable {α : Type} (patch : Patch α) (stored : Option α) : Option α :=
  if patch.isSet then patch.get? else stored

/-- What a PATCH stands for, field by field. Rules are compared without their row ids, and variants as a set. -/
structure Overrides (stored : Flag) (data : FlagUpdate) (next : Flag) : Prop where
  identity : next.id = stored.id ∧ next.key = stored.key
  version : next.version = stored.version + 1
  name : next.name = data.name.overrides stored.name
  enabled : next.enabled = data.enabled.overrides stored.enabled
  rolloutPercentage : next.rolloutPercentage = data.rolloutPercentage.overrides stored.rolloutPercentage
  description : next.description = data.description.overridesNullable stored.description
  offVariant : next.offVariant = data.offVariant.overridesNullable stored.offVariant
  rules : ∀ rules ∈ data.rules.get?, next.rules.map TargetingRule.ranked = rules.map TargetingRuleIn.ranked
  rulesKept : data.rules.get? = none → next.rules = stored.rules
  variants : ∀ variants ∈ data.variants.get?,
    (next.variants.map Variant.toSpec).Perm (variants.map VariantIn.toSpec)
  variantsKept : data.variants.get? = none → next.variants = stored.variants

section Patched

variable {supply : Supply} {stored : Flag} {data : FlagUpdate}

theorem patchedFlag_description (supply : Supply) (stored : Flag) (data : FlagUpdate) :
    (patchedFlag supply stored data).description = data.description.overridesNullable stored.description ↔
      ¬ (data.description = .null ∧ stored.description ≠ none) := by
  have assigned : (patchedFlag supply stored data).description = data.description.get?.or stored.description := rfl
  rw [assigned]
  cases data.description with
  | absent => simp [Patch.get?, Patch.overridesNullable, Patch.isSet]
  | null => simp [Patch.get?, Patch.overridesNullable, Patch.isSet]
  | value text => simp [Patch.get?, Patch.overridesNullable, Patch.isSet]

theorem patchedFlag_overrides (distinct : (stored.variants.map Variant.key).Nodup)
    (description : (patchedFlag supply stored data).description =
      data.description.overridesNullable stored.description) :
    Overrides stored data (patchedFlag supply stored data) where
  identity := ⟨rfl, rfl⟩
  version := rfl
  name := rfl
  enabled := rfl
  rolloutPercentage := rfl
  description := description
  offVariant := rfl
  rules rules sent := by
    rw [Option.mem_def] at sent
    simp only [patchedFlag, assignCollections, sent, rulesFromInput_ranked]
  rulesKept absent := by
    simp only [patchedFlag, assignCollections, assignFields, absent]
  variants variants sent := by
    rw [Option.mem_def] at sent
    simp only [patchedFlag, assignCollections, assignFields, sent]
    exact applyVariants_perm supply.variantIds distinct (data.variants_distinct sent)
  variantsKept absent := by
    simp only [patchedFlag, assignCollections, assignFields, absent]

theorem patchedFlag_overrides_iff (distinct : (stored.variants.map Variant.key).Nodup) :
    Overrides stored data (patchedFlag supply stored data) ↔
      ¬ (data.description = .null ∧ stored.description ≠ none) := by
  rw [← patchedFlag_description supply]
  exact ⟨Overrides.description, patchedFlag_overrides distinct⟩

end Patched

/-- An accepted PATCH is the field-wise override of the stored flag, and touches no other flag, except where
    it asks to clear a description. -/
theorem updateFlag_overrides_iff {db after : Database} {supply : Supply} {key actor : Str} {data : FlagUpdate}
    {returned : Option Flag} (accepts : updateFlag db supply key data actor = .ok (after, returned)) :
    ∃ stored next, getFlag db key = some stored ∧ stored.version = data.version ∧ returned = some next ∧
      after.row? key = some next ∧
      ((Overrides stored data next ∧ ∀ other, other ≠ key → after.row? other = db.row? other) ↔
        ¬ (data.description = .null ∧ stored.description ≠ none)) := by
  obtain ⟨row, held, named, updated, same, stored⟩ := updateFlag_updated accepts
  have distinct : (row.load.variants.map Variant.key).Nodup :=
    (db.valid.rowsValid row updated.stored).load_variants
  refine ⟨row.load, held, getFlag_stored updated.stored named, updated.current, same, stored, ?_⟩
  rw [updated.holds, patchedFlag_overrides_iff distinct]
  constructor
  · exact And.left
  · intro kept
    refine ⟨kept, fun other different => ?_⟩
    exact updated.row?_other (named ▸ different)

def describedCreate : FlagCreate :=
  ⟨{ key := str "banner", name := str "Banner", description := some (str "old text"), variants := bannerVariants },
    by decide +kernel⟩

def reshape : FlagUpdate :=
  ⟨{ name := .null, enabled := .value true, rules := .value bannerRules, offVariant := .null, version := 1 },
    by decide +kernel⟩

theorem updateFlag_overrides_iff_reshape :
    ∃ created before after returned, createFlag .empty firstSupply describedCreate (str "ops") = .ok (created, before) ∧
      updateFlag created (supplyOf 1) (str "banner") reshape (str "ops") = .ok (after, returned) ∧
      ∃ stored next, getFlag created (str "banner") = some stored ∧ stored.version = reshape.version ∧
        returned = some next ∧ after.row? (str "banner") = some next ∧
        ((Overrides stored reshape next ∧ ∀ other, other ≠ str "banner" → after.row? other = created.row? other) ↔
          ¬ (reshape.description = .null ∧ stored.description ≠ none)) := by
  obtain ⟨⟨created, before⟩, creates, accepted⟩ := ok_of_any
    (createFlag .empty firstSupply describedCreate (str "ops"))
    (fun result => (updateFlag result.1 (supplyOf 1) (str "banner") reshape (str "ops")).toOption.isSome)
    (by decide +kernel)
  cases updates : updateFlag created (supplyOf 1) (str "banner") reshape (str "ops") with
  | error => simp [updates, Except.toOption] at accepted
  | ok result => exact ⟨created, before, result.1, result.2, creates, updates, updateFlag_overrides_iff updates⟩

def clearDescription : FlagUpdate := ⟨{ description := .null, version := 1 }, by decide +kernel⟩

theorem clearDescription_dropped :
    ∃ created before after stored next,
      createFlag .empty firstSupply describedCreate (str "ops") = .ok (created, before) ∧
      getFlag created (str "banner") = some stored ∧ stored.description = some (str "old text") ∧
      updateFlag created (supplyOf 1) (str "banner") clearDescription (str "ops") = .ok (after, some next) ∧
      next.description = some (str "old text") ∧ ¬ Overrides stored clearDescription next := by
  obtain ⟨⟨created, before⟩, creates, accepted⟩ := ok_of_any
    (createFlag .empty firstSupply describedCreate (str "ops"))
    (fun result => (updateFlag result.1 (supplyOf 1) (str "banner") clearDescription (str "ops")).toOption.any
      (fun after => decide (∃ next ∈ after.2, next.description = some (str "old text"))) ∧
      ∃ stored ∈ getFlag result.1 (str "banner"), stored.description = some (str "old text"))
    (by decide +kernel)
  obtain ⟨updates, stored, read, described⟩ := accepted
  obtain ⟨⟨after, returned⟩, accepts, next, same, kept⟩ := ok_of_any _ _ updates
  obtain rfl : returned = some next := same
  refine ⟨created, before, after, stored, next, creates, read, described, accepts, kept, fun overrides => ?_⟩
  have cleared := overrides.description
  rw [kept] at cleared
  cases cleared

end Ripcord
