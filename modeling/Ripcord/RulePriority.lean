import Ripcord.Cache

namespace Ripcord

open Foundation

structure RankedRule where
  priority : Int
  spec : RuleSpec

def TargetingRule.ranked (rule : TargetingRule) : RankedRule := ⟨rule.priority, rule.toSpec⟩

def TargetingRuleIn.ranked (rule : TargetingRuleIn) : RankedRule :=
  ⟨rule.priority,
    { attr := rule.attr, operator := rule.operator.value, values := rule.values, variant := rule.variant }⟩

/-- An enabled flag lists a rule before one of lower priority number, some context has the first match in
    the list and the match of least priority differ, and some user is served differently by the two. -/
def Misordered (flag : FlagSpec) (rules : List RankedRule) : Prop :=
  flag.enabled ∧ ∃ (before after : List RankedRule) (r s : RankedRule) (context : Context) (userId : Str),
    rules = before ++ r :: after ∧ s ∈ after ∧ s.priority < r.priority ∧
      ruleMatches r.spec context ∧ ruleMatches s.spec context ∧
      (∀ t ∈ before, ¬ ruleMatches t.spec context) ∧
      (∀ t ∈ rules, ruleMatches t.spec context → s.priority ≤ t.priority) ∧
      ruleResult flag r.spec.variant userId ≠ ruleResult flag s.spec.variant userId

section Order

variable {flag : FlagSpec} {rules : List RankedRule} {context : Context} {userId : Str}

def FlagSpec.withRules (flag : FlagSpec) (rules : List RankedRule) : FlagSpec :=
  { flag with rules := rules.map RankedRule.spec }

theorem evaluate_enabled (enabled : flag.enabled) (rules : List RankedRule) (context : Context) (userId : Str) :
    evaluate (flag.withRules rules) userId (some context) =
      match rules.find? fun rule => ruleMatches rule.spec context with
      | some rule => ruleResult flag rule.spec.variant userId
      | none => rolloutResult flag userId := by
  have on : (flag.withRules rules).enabled = true := enabled
  have specs : (flag.withRules rules).rules = rules.map RankedRule.spec := rfl
  simp only [evaluate, Option.getD_some, on, Bool.not_true, Bool.false_eq_true, if_false, specs,
    List.find?_map, Function.comp_def]
  cases rules.find? fun rule => ruleMatches rule.spec context <;> rfl

theorem evaluate_disabled (off : flag.enabled = false) (rules : List RankedRule) (userId : Str)
    (context : Option Context) :
    evaluate (flag.withRules rules) userId context = .ok (offResult flag .flagDisabled) := by
  have specOff : (flag.withRules rules).enabled = false := off
  simp only [evaluate, specOff, Bool.not_false, if_true]
  rfl

theorem evaluate_of_ordered (enabled : flag.enabled) (distinct : (rules.map RankedRule.priority).Nodup)
    (ordered : ¬ Misordered flag rules) (userId : Str) (context : Context) :
    evaluate (flag.withRules rules) userId (some context) =
      evaluate (flag.withRules (sortOn RankedRule.priority rules)) userId (some context) := by
  rw [evaluate_enabled enabled, evaluate_enabled enabled]
  cases lowest : (sortOn RankedRule.priority rules).find? fun rule => ruleMatches rule.spec context with
  | none =>
    have unmatched : (rules.find? fun rule => ruleMatches rule.spec context) = none := by
      rw [List.find?_eq_none] at lowest ⊢
      exact fun t member => lowest t (mem_sortOn.mpr member)
    rw [unmatched]
  | some s =>
    obtain ⟨member, matchesS, least⟩ := (find?_sortOn distinct).mp lowest
    cases first : rules.find? fun rule => ruleMatches rule.spec context with
    | none => exact absurd matchesS (List.find?_eq_none.mp first s member)
    | some r =>
      obtain ⟨matchesR, before, after, split, earlier⟩ := List.find?_eq_some_iff_append.mp first
      by_contra differ
      have unequal : r ≠ s := by
        intro same
        subst same
        exact differ rfl
      have here : r ∈ rules := by simp [split]
      have less : s.priority < r.priority := by
        apply lt_of_le_of_ne (least r here matchesR)
        intro same
        apply unequal
        exact (List.inj_on_of_nodup_map distinct member here same).symm
      have later : s ∈ after := by
        rw [split, List.mem_append, List.mem_cons] at member
        rcases member with early | rfl | late
        · exact absurd matchesS (by simpa using earlier s early)
        · exact absurd rfl unequal
        · exact late
      exact ordered ⟨enabled, before, after, r, s, context, userId, split, later, less, matchesR, matchesS,
        fun t early => by simpa using earlier t early, least, differ⟩

theorem not_misordered_of_agree (distinct : (rules.map RankedRule.priority).Nodup)
    (agree : ∀ userId context, evaluate (flag.withRules rules) userId context =
      evaluate (flag.withRules (sortOn RankedRule.priority rules)) userId context) :
    ¬ Misordered flag rules := by
  intro misordered
  obtain ⟨enabled, before, after, r, s, context, userId, split, later, _, matchesR, matchesS, earlier, least,
    differ⟩ := misordered
  have first : (rules.find? fun rule => ruleMatches rule.spec context) = some r :=
    List.find?_eq_some_iff_append.mpr ⟨matchesR, before, after, split, fun t early => by simpa using earlier t early⟩
  have member : s ∈ rules := by
    rw [split]
    exact List.mem_append_right _ (List.mem_cons_of_mem _ later)
  have lowest := (find?_sortOn distinct (p := fun rule => ruleMatches rule.spec context)).mpr
    ⟨member, matchesS, least⟩
  have same := agree userId (some context)
  rw [evaluate_enabled enabled, evaluate_enabled enabled, first, lowest] at same
  exact differ same

/-- With distinct priorities the order of the rules shows exactly where they are misordered. -/
theorem evaluate_sorted_iff (distinct : (rules.map RankedRule.priority).Nodup) :
    (∀ userId context, evaluate (flag.withRules rules) userId context =
        evaluate (flag.withRules (sortOn RankedRule.priority rules)) userId context) ↔
      ¬ Misordered flag rules := by
  refine ⟨not_misordered_of_agree distinct, fun ordered userId context => ?_⟩
  cases enabled : flag.enabled with
  | false => rw [evaluate_disabled enabled, evaluate_disabled enabled]
  | true =>
    cases context with
    | none => exact evaluate_of_ordered enabled distinct ordered userId ∅
    | some context => exact evaluate_of_ordered enabled distinct ordered userId context

end Order

section Merge

def VariantIn.toSpec (v : VariantIn) : VariantSpec := { key := v.key, value := v.value, weight := v.weight }

theorem variantsFromInput_toSpec (ids : Nat → Nat) (variants : List VariantIn) :
    (variantsFromInput ids variants).map Variant.toSpec = variants.map VariantIn.toSpec := by
  apply List.ext_getElem
  · simp [variantsFromInput]
  · intro i _ _
    simp [variantsFromInput, Variant.toSpec, VariantIn.toSpec]

theorem rulesFromInput_ranked (ids : Nat → Nat) (rules : List TargetingRuleIn) :
    (rulesFromInput ids rules).map TargetingRule.ranked = rules.map TargetingRuleIn.ranked := by
  apply List.ext_getElem
  · simp [rulesFromInput]
  · intro i _ _
    simp [rulesFromInput, TargetingRule.ranked, TargetingRule.toSpec, TargetingRuleIn.ranked]

theorem wantedVariants_of_distinct {incoming : List VariantIn} (distinct : (incoming.map VariantIn.key).Nodup) :
    wantedVariants incoming = incoming := by
  suffices folds : ∀ wanted : List VariantIn, ((wanted ++ incoming).map VariantIn.key).Nodup →
      incoming.foldl (fun wanted v =>
        if v.key ∈ wanted.map VariantIn.key then wanted.map fun w => if w.key = v.key then v else w
        else wanted ++ [v]) wanted = wanted ++ incoming from folds [] distinct
  clear distinct
  induction incoming with
  | nil => simp
  | cons v rest ih =>
    intro wanted distinct
    have fresh : v.key ∉ wanted.map VariantIn.key := by
      intro taken
      rw [List.map_append, List.nodup_append] at distinct
      exact distinct.2.2 _ taken _ (List.mem_map_of_mem List.mem_cons_self) rfl
    have further := ih (wanted ++ [v]) (by simpa using distinct)
    rw [List.foldl_cons, if_neg fresh, further, List.append_assoc]
    rfl

theorem applyVariants_perm (ids : Nat → Nat) {rows : List Variant} {incoming : List VariantIn}
    (stored : (rows.map Variant.key).Nodup) (distinct : (incoming.map VariantIn.key).Nodup) :
    ((applyVariants ids rows incoming).map Variant.toSpec).Perm (incoming.map VariantIn.toSpec) := by
  have kept : (rows.filterMap fun row =>
      (incoming.find? fun v => v.key = row.key).map fun v => { row with value := v.value, weight := v.weight }).map
        Variant.toSpec =
      (rows.filterMap fun row => incoming.find? fun v => v.key = row.key).map VariantIn.toSpec := by
    rw [List.map_filterMap, List.map_filterMap]
    congr 1
    funext row
    cases found : incoming.find? fun v => v.key = row.key with
    | none => rfl
    | some v =>
      have same : v.key = row.key := by simpa using List.find?_some found
      simp [Variant.toSpec, VariantIn.toSpec, same]
  simp only [applyVariants, wantedVariants_of_distinct distinct, List.map_append, variantsFromInput_toSpec, kept]
  rw [← List.map_append]
  have found := filterMap_find?_perm stored distinct (p := fun v => v.key ∈ rows.map Variant.key)
    fun v => decide_eq_true_iff
  refine List.Perm.map _ ((found.append_right _).trans ?_)
  simpa only [decide_not] using List.filter_append_perm (fun v : VariantIn => v.key ∈ rows.map Variant.key) incoming

end Merge

section WritePath

def FlagCreate.requested (data : FlagCreate) : FlagSpec :=
  { key := data.key
    enabled := data.enabled
    rolloutPercentage := data.rolloutPercentage
    offVariant := data.offVariant
    variants := data.variants.map VariantIn.toSpec }

def FlagUpdate.requested (stored : Flag) (data : FlagUpdate) : FlagSpec :=
  { key := stored.key
    enabled := data.enabled.get?.getD stored.enabled
    rolloutPercentage := data.rolloutPercentage.get?.getD stored.rolloutPercentage
    offVariant := effectiveOffVariant stored data
    variants := match data.variants.get? with
      | some variants => variants.map VariantIn.toSpec
      | none => stored.variants.map Variant.toSpec }

variable {db after : Database} {supply : Supply} {key actor : Str}

theorem createFlag_ok {data : FlagCreate} {returned : Option Flag}
    (creates : createFlag db supply data actor = .ok (after, returned)) :
    returned = some (createdFlag supply data) ∧ after.row? data.key = some (createdFlag supply data) := by
  unfold createFlag at creates
  obtain ⟨⟨committed, held⟩, commits, result⟩ := map_eq_ok creates
  cases result
  have created := createFlagCommit_ok commits
  have stored := created.row?
  rw [created.holds] at stored ⊢
  simp [getFlagHeld, stored]

theorem updateFlag_updated {data : FlagUpdate} {returned : Option Flag}
    (updates : updateFlag db supply key data actor = .ok (after, returned)) :
    ∃ row held, row.key = key ∧ Updated row.load db supply key data actor after held row ∧
      returned = some held ∧ after.row? key = some held := by
  unfold updateFlag at updates
  obtain ⟨⟨committed, held⟩, commits, result⟩ := map_eq_ok updates
  cases result
  obtain ⟨row, named, updated, stored⟩ := updateFlagCommit_getFlag commits
  refine ⟨row, held, named, updated, ?_, stored⟩
  simp [getFlagHeld, stored]

theorem updateFlag_ok {data : FlagUpdate} {returned : Option Flag}
    (updates : updateFlag db supply key data actor = .ok (after, returned)) :
    ∃ stored, getFlag db key = some stored ∧ returned = some (patchedFlag supply stored data) ∧
      after.row? key = some (patchedFlag supply stored data) := by
  obtain ⟨row, held, named, updated, same, stored⟩ := updateFlag_updated updates
  rw [updated.holds] at same stored
  exact ⟨row.load, getFlag_stored updated.stored named, same, stored⟩

theorem toSpec_withRules (flag : Flag) (rules : List TargetingRule) :
    toSpec { flag with rules } = (toSpec flag).withRules (rules.map TargetingRule.ranked) := by
  simp [toSpec, FlagSpec.withRules, TargetingRule.ranked, TargetingRule.toSpec]

theorem sortOn_ranked (rules : List TargetingRule) :
    sortOn RankedRule.priority (rules.map TargetingRule.ranked) =
      (sortOn TargetingRule.priority rules).map TargetingRule.ranked :=
  sortOn_map _ _ rules

theorem evaluatePayload_held {held : Flag} (stored : after.row? key = some held) (userId : Str)
    (context : Option Context) :
    evaluatePayload (flagPayload held) userId context =
        evaluate ((toSpec held).withRules (held.rules.map TargetingRule.ranked)) userId context ∧
      evaluateFlag after key userId context =
        evaluate ((toSpec held).withRules (sortOn RankedRule.priority (held.rules.map TargetingRule.ranked))) userId
          context := by
  obtain ⟨member, rfl⟩ := Database.row?_eq_some.mp stored
  have distinct := (after.valid.rowsValid held member).2.2.2.1
  constructor
  · rw [← toSpec_withRules]
    exact evaluatePayload_flagPayload held distinct userId context
  · have loaded := evaluate_toFlagOut { held with rules := sortOn TargetingRule.priority held.rules } distinct userId
      context
    rw [sortOn_ranked, ← loaded.trans (congrArg (evaluate · userId context) (toSpec_withRules held _))]
    simp only [evaluateFlag, getFlag, stored, Option.map_some]
    rfl

theorem payload_agrees_iff {held : Flag} {requested : FlagSpec} {rules : List RankedRule}
    (stored : after.row? key = some held) (ranked : held.rules.map TargetingRule.ranked = rules)
    (serves : ∀ rules userId context, evaluate ((toSpec held).withRules rules) userId context =
      evaluate (requested.withRules rules) userId context)
    (distinct : (rules.map RankedRule.priority).Nodup) :
    (∀ userId context,
        evaluatePayload (flagPayload held) userId context = evaluateFlag after key userId context) ↔
      ¬ Misordered requested rules := by
  subst ranked
  rw [← evaluate_sorted_iff distinct]
  simp only [evaluatePayload_held stored, serves]

theorem evaluate_created (data : FlagCreate) (rules : List RankedRule) (userId : Str) (context : Option Context) :
    evaluate ((toSpec (createdFlag supply data)).withRules rules) userId context =
      evaluate (data.requested.withRules rules) userId context := by
  have variants : (toSpec (createdFlag supply data)).variants = data.variants.map VariantIn.toSpec :=
    variantsFromInput_toSpec _ _
  have same : (toSpec (createdFlag supply data)).withRules rules = data.requested.withRules rules := by
    simp only [FlagSpec.withRules, variants]
    rfl
  rw [same]

theorem evaluate_patched {stored : Flag} (distinct : (stored.variants.map Variant.key).Nodup) (data : FlagUpdate)
    (rules : List RankedRule) (userId : Str) (context : Option Context) :
    evaluate ((toSpec (patchedFlag supply stored data)).withRules rules) userId context =
      evaluate ((data.requested stored).withRules rules) userId context := by
  have keys : ((data.requested stored).variants.map VariantSpec.key).Nodup := by
    simp only [FlagUpdate.requested]
    split
    · rename_i variants sent
      simpa [Function.comp_def, VariantIn.toSpec] using data.variants_distinct sent
    · simpa [Function.comp_def, Variant.toSpec] using distinct
  have merged : (data.requested stored).variants.Perm (toSpec (patchedFlag supply stored data)).variants := by
    have patched : (toSpec (patchedFlag supply stored data)).variants =
        (patchedFlag supply stored data).variants.map Variant.toSpec := rfl
    rw [patched]
    simp only [FlagUpdate.requested, patchedFlag, assignCollections, assignFields]
    cases sent : data.variants.get? with
    | none => exact .refl _
    | some variants => exact (applyVariants_perm _ distinct (data.variants_distinct sent)).symm
  have ruled : ((data.requested stored).withRules rules).variants.Perm
      (toSpec (patchedFlag supply stored data)).variants := merged
  exact evaluate_variants_perm ruled keys userId context

/-- The payload a change is announced with evaluates like the flag in the database exactly when the rules
    it was sent are not misordered for the flag it asks for. -/
theorem payload_keeps_priority_iff (db after : Database) (supply : Supply) (actor : Str) (flag : Flag) :
    (∀ data : FlagCreate, createFlag db supply data actor = .ok (after, some flag) →
      (data.rules.map TargetingRuleIn.priority).Nodup →
      ((∀ userId context,
          evaluatePayload (flagPayload flag) userId context = evaluateFlag after data.key userId context) ↔
        ¬ Misordered data.requested (data.rules.map TargetingRuleIn.ranked))) ∧
    ∀ (key : Str) (data : FlagUpdate) (stored : Flag), getFlag db key = some stored →
      updateFlag db supply key data actor = .ok (after, some flag) →
      (∀ rules ∈ data.rules.get?, (rules.map TargetingRuleIn.priority).Nodup) →
      ((∀ userId context,
          evaluatePayload (flagPayload flag) userId context = evaluateFlag after key userId context) ↔
        ∀ rules ∈ data.rules.get?, ¬ Misordered (data.requested stored) (rules.map TargetingRuleIn.ranked)) := by
  constructor
  · intro data creates distinct
    obtain ⟨same, row⟩ := createFlag_ok creates
    cases same
    apply payload_agrees_iff row (rulesFromInput_ranked _ _) (evaluate_created data)
    simpa [Function.comp_def, TargetingRuleIn.ranked] using distinct
  · intro key data stored read updates distinct
    obtain ⟨also, readAlso, same, row⟩ := updateFlag_ok updates
    rw [read] at readAlso
    cases readAlso
    cases same
    obtain ⟨loaded, _, _, valid, rfl⟩ := getFlag_spec read
    have variants : (loaded.load.variants.map Variant.key).Nodup :=
      ((sortOn_perm Variant.key loaded.variants).map Variant.key).nodup_iff.mpr valid.2.2.2.1
    cases sent : data.rules.get? with
    | none =>
      have kept : (patchedFlag supply loaded.load data).rules = sortOn TargetingRule.priority loaded.rules := by
        simp [patchedFlag, assignCollections, assignFields, sent, Flag.load]
      simp [evaluatePayload_held row, kept, sortOn_ranked]
    | some rules =>
      have ranked : (patchedFlag supply loaded.load data).rules.map TargetingRule.ranked =
          rules.map TargetingRuleIn.ranked := by
        simp [patchedFlag, assignCollections, sent, rulesFromInput_ranked]
      have agrees := payload_agrees_iff row ranked (evaluate_patched variants data)
        (by simpa [Function.comp_def, TargetingRuleIn.ranked] using distinct rules sent)
      simpa using agrees

def bannerVariants : List VariantIn :=
  [{ key := str "red", weight := 40 }, { key := str "blue", weight := 60 }]

def bannerRules : List TargetingRuleIn :=
  [{ attr := str "plan", operator := .eq, values := [str "pro"], priority := 1, variant := some (str "blue") },
    { attr := str "plan", operator := .in_, values := [str "pro"], priority := 0, variant := some (str "red") }]

def bannerCreate : FlagCreate :=
  ⟨{ key := str "banner", name := str "Banner", enabled := true, rules := bannerRules,
     variants := bannerVariants }, by decide +kernel⟩

def bannerUpdate : FlagUpdate := ⟨{ rules := .value bannerRules, version := 3 }, by decide +kernel⟩

def proContext : Context := AList.singleton (str "plan") (str "pro")

theorem payload_keeps_priority_iff_banner :
    (∃ after flag, createFlag .empty firstSupply bannerCreate (str "ops") = .ok (after, some flag) ∧
      ((∀ userId context,
          evaluatePayload (flagPayload flag) userId context = evaluateFlag after (str "banner") userId context) ↔
        ¬ Misordered bannerCreate.requested (bannerRules.map TargetingRuleIn.ranked))) ∧
    ∃ after flag, updateFlag bannerDatabase firstSupply (str "banner") bannerUpdate (str "ops") =
        .ok (after, some flag) ∧
      ((∀ userId context,
          evaluatePayload (flagPayload flag) userId context = evaluateFlag after (str "banner") userId context) ↔
        ∀ rules ∈ bannerUpdate.rules.get?, ¬ Misordered (bannerUpdate.requested bannerFlag.load)
          (rules.map TargetingRuleIn.ranked)) := by
  constructor
  · obtain ⟨⟨after, returned⟩, creates, _⟩ := ok_of_any
      (createFlag .empty firstSupply bannerCreate (str "ops")) (fun _ => True) (by decide +kernel)
    obtain ⟨rfl, _⟩ := createFlag_ok creates
    exact ⟨after, _, creates, (payload_keeps_priority_iff _ _ _ _ _).1 _ creates (by decide)⟩
  · obtain ⟨⟨after, returned⟩, updates, _⟩ := ok_of_any
      (updateFlag bannerDatabase firstSupply (str "banner") bannerUpdate (str "ops")) (fun _ => True)
      (by decide +kernel)
    obtain ⟨stored, read, rfl, _⟩ := updateFlag_ok updates
    have same : getFlag bannerDatabase (str "banner") = some bannerFlag.load := by decide +kernel
    exact ⟨after, _, updates, (payload_keeps_priority_iff _ _ _ _ _).2 _ _ _ same updates (by decide +kernel)⟩

theorem payload_drops_priority :
    ∃ after flag, createFlag .empty firstSupply bannerCreate (str "ops") = .ok (after, some flag) ∧
      (bannerCreate.rules.map TargetingRuleIn.priority).Nodup ∧
      evaluatePayload (flagPayload flag) (str "ada") (some proContext) ≠
        evaluateFlag after bannerCreate.key (str "ada") (some proContext) := by
  obtain ⟨⟨after, returned⟩, creates, differ⟩ := ok_of_any
    (createFlag .empty firstSupply bannerCreate (str "ops"))
    (fun result =>
      evaluatePayload (flagPayload (createdFlag firstSupply bannerCreate)) (str "ada") (some proContext) ≠
        evaluateFlag result.1 bannerCreate.key (str "ada") (some proContext)) (by decide +kernel)
  obtain ⟨rfl, _⟩ := createFlag_ok creates
  exact ⟨after, _, creates, by decide, differ⟩

end WritePath

end Ripcord
