import Ripcord.FieldOverrides
import Ripcord.Foundation.Fields

namespace Ripcord

open Foundation

/-! The dashboard's editor of a flag's targeting rules. -/

/-- What `String.prototype.trim` trims. -/
def isJsBlank (c : CodePoint) : Bool :=
  (9 ≤ c.val ∧ c.val ≤ 13) ∨ c.val = 0x20 ∨ c.val = 0xA0 ∨ c.val = 0x1680 ∨
    (0x2000 ≤ c.val ∧ c.val ≤ 0x200A) ∨ c.val = 0x2028 ∨ c.val = 0x2029 ∨
    c.val = 0x202F ∨ c.val = 0x205F ∨ c.val = 0x3000 ∨ c.val = 0xFEFF

structure DraftRule where
  attr : Str
  operator : Operator
  values : Str
  variant : Str
  deriving DecidableEq

def TargetingRule.draft (r : TargetingRule) : DraftRule :=
  { attr := r.attr, operator := r.operator, values := (str ", ").intercalate r.values, variant := r.variant.getD [] }

def toDraft (rules : List TargetingRule) : List DraftRule := rules.map TargetingRule.draft

def DraftRule.filled (draft : DraftRule) : Bool := trim isJsBlank draft.attr ≠ [] ∧ trim isJsBlank draft.values ≠ []

def DraftRule.sent (draft : DraftRule) (idx : Nat) : TargetingRuleIn :=
  { attr := trim isJsBlank draft.attr
    operator := draft.operator
    values := readFields isJsBlank (ch ',') draft.values
    priority := idx
    variant := if draft.variant = [] then none else some draft.variant }

def savePayload (rules : List DraftRule) : List TargetingRuleIn :=
  (rules.filter DraftRule.filled).mapIdx fun idx draft => draft.sent idx

/-- What `save` sends: the version the flag was loaded at, and the rules. -/
def saveBody (flag : Flag) (rules : List DraftRule) : FlagUpdateBody :=
  { rules := .value (savePayload rules), version := flag.version }

/-- A rule that the editor's text fields hold as it is stored. -/
def Representable (rule : TargetingRule) : Prop :=
  (rule.attr ≠ [] ∧ trim isJsBlank rule.attr = rule.attr) ∧
    (rule.values ≠ [] ∧ ∀ value ∈ rule.values, Plain isJsBlank (ch ',') value) ∧ rule.variant ≠ some []
  deriving Decidable

section Untouched

variable {rule : TargetingRule} {rules : List TargetingRule} {supply : Supply} {flag : Flag} {data : FlagUpdate}

theorem sent_values_iff (idx : Nat) :
    (rule.draft.sent idx).values = rule.values ↔ ∀ value ∈ rule.values, Plain isJsBlank (ch ',') value := by
  have glue : str ", " = ch ',' :: str " " := by decide
  simp only [DraftRule.sent, TargetingRule.draft, glue]
  exact readFields_join_iff (by simp [isJsBlank, str, ch]) (by decide)

theorem sent_variant_iff (idx : Nat) : (rule.draft.sent idx).variant = rule.variant ↔ rule.variant ≠ some [] := by
  obtain ⟨_, _, _, _, _, variant⟩ := rule
  cases variant with
  | none => simp [DraftRule.sent, TargetingRule.draft]
  | some key => by_cases empty : key = [] <;> simp [DraftRule.sent, TargetingRule.draft, empty]

theorem sent_toSpec_iff (idx : Nat) : (rule.draft.sent idx).ranked.spec = rule.toSpec ↔
    trim isJsBlank rule.attr = rule.attr ∧ (∀ value ∈ rule.values, Plain isJsBlank (ch ',') value) ∧
      rule.variant ≠ some [] := by
  rw [← sent_values_iff idx, ← sent_variant_iff idx]
  simp [TargetingRuleIn.ranked, TargetingRule.toSpec, DraftRule.sent, TargetingRule.draft]

theorem filled_of_representable (representable : Representable rule) : rule.draft.filled := by
  obtain ⟨⟨named, kept⟩, ⟨given, plain⟩, _⟩ := representable
  have values : trim isJsBlank rule.draft.values ≠ [] := trim_join_ne_nil (str ", ") given plain
  have attr : trim isJsBlank rule.draft.attr ≠ [] := kept.symm ▸ named
  simp [DraftRule.filled, attr, values]

theorem representable_iff (idx : Nat) :
    rule.draft.filled ∧ (rule.draft.sent idx).ranked.spec = rule.toSpec ↔ Representable rule := by
  rw [sent_toSpec_iff]
  constructor
  · rintro ⟨filled, kept, plain, pinned⟩
    simp only [DraftRule.filled, Bool.decide_and, Bool.and_eq_true, decide_eq_true_eq] at filled
    have named : rule.attr ≠ [] := fun empty => filled.1 (by simp [TargetingRule.draft, empty])
    have given : rule.values ≠ [] := fun empty => filled.2 (by simp [TargetingRule.draft, empty])
    exact ⟨⟨named, kept⟩, ⟨given, plain⟩, pinned⟩
  · intro representable
    exact ⟨filled_of_representable representable, representable.1.2, representable.2.1.2, representable.2.2⟩

theorem savePayload_specs (drafts : List DraftRule) :
    (savePayload drafts).map (fun rule => rule.ranked.spec) =
      (drafts.filter DraftRule.filled).map fun draft => (draft.sent 0).ranked.spec := by
  apply List.ext_getElem
  · simp [savePayload]
  · intro idx _ _
    simp [savePayload, DraftRule.sent, TargetingRuleIn.ranked]

theorem savePayload_toDraft_iff (rules : List TargetingRule) :
    (savePayload (toDraft rules)).map (fun rule => rule.ranked.spec) = rules.map TargetingRule.toSpec ↔
      ∀ rule ∈ rules, Representable rule := by
  rw [savePayload_specs]
  constructor
  · intro same rule member
    have kept : (toDraft rules).filter DraftRule.filled = toDraft rules := by
      apply List.filter_eq_self.mpr
      -- a rule that `save` left out would have made the list shorter
      apply List.length_filter_eq_length_iff.mp
      have lengths := congrArg List.length same
      simpa [toDraft] using lengths
    rw [kept, toDraft, List.map_map, List.map_inj_left] at same
    have filled := List.filter_eq_self.mp kept rule.draft (List.mem_map_of_mem member)
    exact (representable_iff 0).mp ⟨filled, same rule member⟩
  · intro representable
    have kept : (toDraft rules).filter DraftRule.filled = toDraft rules := by
      apply List.filter_eq_self.mpr
      intro draft member
      obtain ⟨rule, among, rfl⟩ := List.mem_map.mp member
      exact filled_of_representable (representable rule among)
    rw [kept, toDraft, List.map_map, List.map_inj_left]
    intro rule member
    exact ((representable_iff 0).mpr (representable rule member)).2

theorem savePayload_ordered (ids : Nat → Nat) (drafts : List DraftRule) :
    sortOn TargetingRule.priority (rulesFromInput ids (savePayload drafts)) =
      rulesFromInput ids (savePayload drafts) := by
  apply sortOn_of_pairwise
  rw [List.pairwise_iff_getElem]
  intro i j _ _ before
  simp only [rulesFromInput, savePayload, DraftRule.sent, List.getElem_mapIdx]
  omega

theorem rulesFromInput_toSpec (ids : Nat → Nat) (rules : List TargetingRuleIn) :
    (rulesFromInput ids rules).map TargetingRule.toSpec = rules.map fun rule => rule.ranked.spec := by
  have ranked := congrArg (List.map RankedRule.spec) (rulesFromInput_ranked ids rules)
  rw [List.map_map, List.map_map] at ranked
  exact ranked

/-- The stored row after the save: only its rules can differ, and they are the ones sent, in their order. -/
theorem toSpec_saved {row : Flag} (sends : data.toFlagUpdateBody = saveBody row.load (toDraft row.load.rules)) :
    toSpec (patchedFlag supply row.load data).load =
      { toSpec row.load with
        rules := (savePayload (toDraft row.load.rules)).map fun rule => rule.ranked.spec } := by
  obtain ⟨body, accepted⟩ := data
  obtain rfl : body = saveBody row.load (toDraft row.load.rules) := sends
  have rules : (patchedFlag supply row.load ⟨saveBody row.load (toDraft row.load.rules), accepted⟩).load.rules =
      rulesFromInput supply.ruleIds (savePayload (toDraft row.load.rules)) := savePayload_ordered _ _
  have variants : (patchedFlag supply row.load ⟨saveBody row.load (toDraft row.load.rules), accepted⟩).load.variants =
      row.load.variants := sortOn_sortOn _ _
  rw [← rulesFromInput_toSpec supply.ruleIds]
  simp only [toSpec, rules, variants]
  rfl

end Untouched

/-- Saving the rules as they were loaded sends them unchanged and leaves every evaluation as it was, exactly
    where the editor can represent each of them. -/
theorem saveUntouched_iff {db : Database} {key : Str} {flag : Flag} (loaded : getFlag db key = some flag) :
    ((savePayload (toDraft flag.rules)).map (fun rule => rule.ranked.spec) = flag.rules.map TargetingRule.toSpec ∧
      ∀ (supply : Supply) (actor : Str) (data : FlagUpdate) (after : Database) (returned : Option Flag),
        data.toFlagUpdateBody = saveBody flag (toDraft flag.rules) →
        updateFlag db supply key data actor = .ok (after, returned) →
        ∀ userId context, evaluateFlag after key userId context = evaluateFlag db key userId context) ↔
      ∀ rule ∈ flag.rules, Representable rule := by
  rw [savePayload_toDraft_iff]
  constructor
  · exact And.left
  · intro representable
    refine ⟨representable, fun supply actor data after returned sends updates userId context => ?_⟩
    have specs := (savePayload_toDraft_iff flag.rules).mpr representable
    obtain ⟨row, _, _, _, rfl⟩ := getFlag_spec loaded
    obtain ⟨stored, read, _, written⟩ := updateFlag_ok updates
    rw [loaded] at read
    cases read
    have saved : getFlag after key = some (patchedFlag supply row.load data).load := by
      rw [getFlag, written, Option.map_some]
    have same : toSpec (patchedFlag supply row.load data).load = toSpec row.load := by
      rw [toSpec_saved sends, specs]
      rfl
    simp only [evaluateFlag, saved, loaded, same]

def regionalCreate : FlagCreate :=
  ⟨{ key := str "search", name := str "Search", enabled := true,
     rules := [{ attr := str "country", operator := .in_, values := [str "us", str "ca"], priority := 5 }] },
    by decide +kernel⟩

def regionalSave : FlagUpdate :=
  ⟨{ rules := .value [{ attr := str "country", operator := .in_, values := [str "us", str "ca"] }], version := 1 },
    by decide +kernel⟩

theorem saveUntouched_iff_search :
    ∃ created stored flag, createFlag .empty firstSupply regionalCreate (str "ops") = .ok (created, stored) ∧
      getFlag created (str "search") = some flag ∧
      (savePayload (toDraft flag.rules)).map (fun rule => rule.ranked.spec) = flag.rules.map TargetingRule.toSpec ∧
      regionalSave.toFlagUpdateBody = saveBody flag (toDraft flag.rules) ∧
      ∃ after returned,
        updateFlag created (supplyOf 1) (str "search") regionalSave (str "ops") = .ok (after, returned) ∧
          ∀ userId context,
            evaluateFlag after (str "search") userId context = evaluateFlag created (str "search") userId context := by
  obtain ⟨⟨created, stored⟩, creates, flag, loaded, sends, representable, accepted⟩ := ok_of_any
    (createFlag .empty firstSupply regionalCreate (str "ops"))
    (fun result => ∃ flag ∈ getFlag result.1 (str "search"),
      regionalSave.toFlagUpdateBody = saveBody flag (toDraft flag.rules) ∧
      (∀ rule ∈ flag.rules, Representable rule) ∧
      (updateFlag result.1 (supplyOf 1) (str "search") regionalSave (str "ops")).toOption.isSome)
    (by decide +kernel)
  obtain ⟨same, keeps⟩ := (saveUntouched_iff loaded).mpr representable
  cases updates : updateFlag created (supplyOf 1) (str "search") regionalSave (str "ops") with
  | error => simp [updates, Except.toOption] at accepted
  | ok result =>
    exact ⟨created, stored, flag, creates, loaded, same, sends, result.1, result.2, updates,
      keeps _ _ _ _ _ sends updates⟩

def cityCreate : FlagCreate :=
  ⟨{ key := str "search", name := str "Search", enabled := true,
     rules := [{ attr := str "city", operator := .in_, values := [str "Portland, Maine"] }] },
    by decide +kernel⟩

def citySave : FlagUpdate :=
  ⟨{ rules := .value [{ attr := str "city", operator := .in_, values := [str "Portland", str "Maine"] }],
     version := 1 }, by decide +kernel⟩

def portland : Context := AList.singleton (str "city") (str "Portland, Maine")

theorem comma_retargets :
    ∃ created stored flag after returned,
      createFlag .empty firstSupply cityCreate (str "ops") = .ok (created, stored) ∧
      getFlag created (str "search") = some flag ∧
      (savePayload (toDraft flag.rules)).map (fun rule => rule.ranked.spec) ≠ flag.rules.map TargetingRule.toSpec ∧
      citySave.toFlagUpdateBody = saveBody flag (toDraft flag.rules) ∧
      updateFlag created (supplyOf 1) (str "search") citySave (str "ops") = .ok (after, returned) ∧
      evaluateFlag created (str "search") (str "ada") (some portland) =
        .ok { enabled := true, reason := .targetingMatch } ∧
      evaluateFlag after (str "search") (str "ada") (some portland) =
        .ok { enabled := false, reason := .rolloutExcluded } := by
  obtain ⟨⟨created, stored⟩, creates, ⟨flag, loaded, differs, sends⟩, before, updates⟩ := ok_of_any
    (createFlag .empty firstSupply cityCreate (str "ops"))
    (fun result => (∃ flag ∈ getFlag result.1 (str "search"),
      (savePayload (toDraft flag.rules)).map (fun rule => rule.ranked.spec) ≠ flag.rules.map TargetingRule.toSpec ∧
      citySave.toFlagUpdateBody = saveBody flag (toDraft flag.rules)) ∧
      evaluateFlag result.1 (str "search") (str "ada") (some portland) =
        .ok { enabled := true, reason := .targetingMatch } ∧
      (updateFlag result.1 (supplyOf 1) (str "search") citySave (str "ops")).toOption.any fun after =>
        evaluateFlag after.1 (str "search") (str "ada") (some portland) =
          .ok { enabled := false, reason := .rolloutExcluded })
    (by decide +kernel)
  obtain ⟨⟨after, returned⟩, accepts, served⟩ := ok_of_any _ _ updates
  exact ⟨created, stored, flag, after, returned, creates, loaded, differs, sends, accepts, before, served⟩

end Ripcord
