import Ripcord.RulePriority
import Ripcord.SerialStore

namespace Ripcord

open Foundation

def servedVariant (flag : FlagSpec) (pin : Option Str) (userId : Str) : Except PyError (Option VariantSpec) :=
  match findVariant flag pin with
  | some pinned => .ok (some pinned)
  | none => chooseVariant flag userId

/-- An enabled flag has two rules of one priority that match some context before every other rule does, and
    some user is served different variants by the two. -/
def Tied (flag : FlagSpec) (rules : List RankedRule) : Prop :=
  flag.enabled ∧ ∃ r ∈ rules, ∃ s ∈ rules, ∃ (context : Context) (userId : Str),
    r.priority = s.priority ∧ ruleMatches r.spec context ∧ ruleMatches s.spec context ∧
      (∀ t ∈ rules, ruleMatches t.spec context → r.priority ≤ t.priority) ∧
      servedVariant flag r.spec.variant userId ≠ servedVariant flag s.spec.variant userId

section Served

variable {flag : FlagSpec} {pin other : Option Str} {userId : Str}

theorem ruleResult_served (flag : FlagSpec) (pin : Option Str) (userId : Str) :
    ruleResult flag pin userId = (servedVariant flag pin userId).map (chosenResult .targetingMatch) := by
  unfold ruleResult servedVariant
  cases findVariant flag pin with
  | some pinned => rfl
  | none =>
    by_cases boolean : flag.variants = []
    · simp [FlagSpec.isMultivariate, boolean, chooseVariant_boolean boolean, Except.map, chosenResult]
    · simp [FlagSpec.isMultivariate, boolean]

theorem chosenResult_variant (reason : Reason) (chosen : Option VariantSpec) :
    (chosenResult reason chosen).variant = chosen.map VariantSpec.key := by
  cases chosen <;> rfl

theorem servedVariant_mem {v : VariantSpec} (serves : servedVariant flag pin userId = .ok (some v)) :
    v ∈ flag.variants := by
  unfold servedVariant at serves
  split at serves
  · rename_i pinned found
    cases serves
    exact (findVariant_some found).1
  · exact chooseVariant_mem serves

theorem servedVariant_of_result (distinct : (flag.variants.map VariantSpec.key).Nodup)
    (same : ruleResult flag pin userId = ruleResult flag other userId) :
    servedVariant flag pin userId = servedVariant flag other userId := by
  rw [ruleResult_served, ruleResult_served] at same
  cases first : servedVariant flag pin userId with
  | error failure =>
    cases second : servedVariant flag other userId with
    | error also =>
      rw [first, second] at same
      injection same with failed
      rw [failed]
    | ok => simp [first, second, Except.map] at same
  | ok chosen =>
    cases second : servedVariant flag other userId with
    | error => simp [first, second, Except.map] at same
    | ok also =>
      rw [first, second] at same
      injection same with evaluations
      have keys : chosen.map VariantSpec.key = also.map VariantSpec.key := by
        rw [← chosenResult_variant .targetingMatch, evaluations, chosenResult_variant]
      cases chosen with
      | none =>
        cases also with
        | none => rfl
        | some => cases keys
      | some v =>
        cases also with
        | none => cases keys
        | some w =>
          injection keys with key
          rw [List.inj_on_of_nodup_map distinct (servedVariant_mem first) (servedVariant_mem second) key]

end Served

section Orders

variable {flag : FlagSpec} {rules first second : List RankedRule} {context : Context} {userId : Str}

theorem evaluate_of_untied (enabled : flag.enabled) (untied : ¬ Tied flag first) (perm : first.Perm second)
    (sorted : first.Pairwise fun a b => a.priority ≤ b.priority)
    (alsoSorted : second.Pairwise fun a b => a.priority ≤ b.priority) (userId : Str) (context : Context) :
    evaluate (flag.withRules first) userId (some context) = evaluate (flag.withRules second) userId (some context) := by
  rw [evaluate_enabled enabled, evaluate_enabled enabled]
  cases found : first.find? fun rule => ruleMatches rule.spec context with
  | none =>
    have unmatched : (second.find? fun rule => ruleMatches rule.spec context) = none := by
      rw [List.find?_eq_none] at found ⊢
      exact fun t member => found t (perm.mem_iff.mpr member)
    rw [unmatched]
  | some r =>
    have member := List.mem_of_find?_eq_some found
    have matchesR : ruleMatches r.spec context := by simpa using List.find?_some found
    have least := find?_least sorted found
    cases also : second.find? fun rule => ruleMatches rule.spec context with
    | none => exact absurd matchesR (List.find?_eq_none.mp also r (perm.mem_iff.mp member))
    | some s =>
      have there := perm.mem_iff.mpr (List.mem_of_find?_eq_some also)
      have matchesS : ruleMatches s.spec context := by simpa using List.find?_some also
      have level : r.priority = s.priority :=
        le_antisymm (least s there matchesS) (find?_least alsoSorted also r (perm.mem_iff.mp member) matchesR)
      have served : servedVariant flag r.spec.variant userId = servedVariant flag s.spec.variant userId := by
        by_contra differ
        exact untied ⟨enabled, r, member, s, there, context, userId, level, matchesR, matchesS, least, differ⟩
      simp only [ruleResult_served, served]

theorem evaluate_frontmost (enabled : flag.enabled) {r : RankedRule} (matchesR : ruleMatches r.spec context)
    (least : ∀ t ∈ rules, ruleMatches t.spec context → r.priority ≤ t.priority) :
    evaluate (flag.withRules (sortOn RankedRule.priority (r :: rules))) userId (some context) =
      ruleResult flag r.spec.variant userId := by
  have front : (sortOn RankedRule.priority (r :: rules)).find? (fun rule => ruleMatches rule.spec context) = some r :=
    find?_sortOn_cons matchesR least
  rw [evaluate_enabled enabled, front]

end Orders

/-- An order in which `ORDER BY priority` may load the rules of a row. -/
structure Loads (row : Flag) (rules : List TargetingRule) : Prop where
  perm : rules.Perm row.rules
  sorted : rules.Pairwise fun a b => a.priority ≤ b.priority

instance (row : Flag) (rules : List TargetingRule) : Decidable (Loads row rules) :=
  decidable_of_iff (rules.Perm row.rules ∧ rules.Pairwise fun a b => a.priority ≤ b.priority)
    ⟨fun ⟨perm, sorted⟩ => ⟨perm, sorted⟩, fun loads => ⟨loads.perm, loads.sorted⟩⟩

section Stored

variable {row : Flag}

theorem Loads.ranked_sorted {rules : List TargetingRule} (loads : Loads row rules) :
    (rules.map TargetingRule.ranked).Pairwise fun a b => a.priority ≤ b.priority :=
  List.pairwise_map.mpr loads.sorted

theorem Loads.frontmost {rule : TargetingRule} (member : rule ∈ row.rules) :
    Loads row (sortOn TargetingRule.priority (rule :: row.rules.erase rule)) where
  perm := (sortOn_perm _ _).trans (List.perm_cons_erase member).symm
  sorted := sortOn_pairwise _ _

theorem evaluate_loads_frontmost (enabled : (toSpec row.load).enabled) {rule : TargetingRule} {context : Context}
    (matching : ruleMatches rule.toSpec context)
    (least : ∀ t ∈ row.rules.map TargetingRule.ranked, ruleMatches t.spec context → rule.priority ≤ t.priority)
    (userId : Str) :
    evaluate (toSpec { row.load with rules := sortOn TargetingRule.priority (rule :: row.rules.erase rule) }) userId
        (some context) =
      ruleResult (toSpec row.load) rule.variant userId := by
  rw [toSpec_withRules, ← sortOn_ranked, List.map_cons]
  apply evaluate_frontmost enabled matching
  intro t member matchesT
  obtain ⟨other, listed, rfl⟩ := List.mem_map.mp member
  exact least _ (List.mem_map_of_mem (List.mem_of_mem_erase listed)) matchesT

/-- The evaluations of a stored flag depend on the order its rules are loaded in exactly where two rules of
    one priority tie. -/
theorem evaluate_order_iff {db : Database} {row : Flag} (stored : row ∈ db.flags) :
    (∀ first second, Loads row first → Loads row second → ∀ userId context,
        evaluate (toSpec { row.load with rules := first }) userId context =
          evaluate (toSpec { row.load with rules := second }) userId context) ↔
      ¬ Tied (toSpec row.load) (row.rules.map TargetingRule.ranked) := by
  constructor
  · intro agree tied
    obtain ⟨enabled, r, hr, s, hs, context, userId, level, matchesR, matchesS, least, differ⟩ := tied
    obtain ⟨rule, member, rfl⟩ := List.mem_map.mp hr
    obtain ⟨other, also, rfl⟩ := List.mem_map.mp hs
    have same := agree _ _ (.frontmost member) (.frontmost also) userId (some context)
    have leastAlso : ∀ t ∈ row.rules.map TargetingRule.ranked, ruleMatches t.spec context →
        other.ranked.priority ≤ t.priority := fun t listed matchesT => level ▸ least t listed matchesT
    rw [evaluate_loads_frontmost enabled matchesR least, evaluate_loads_frontmost enabled matchesS leastAlso] at same
    have distinct : ((toSpec row.load).variants.map VariantSpec.key).Nodup := by
      simpa [toSpec, Function.comp_def, Variant.toSpec] using (db.valid.rowsValid row stored).load_variants
    exact differ (servedVariant_of_result distinct same)
  · intro untied first second loads also userId context
    rw [toSpec_withRules row.load first, toSpec_withRules row.load second]
    have perm := loads.perm.map TargetingRule.ranked
    have together := perm.trans (also.perm.map TargetingRule.ranked).symm
    cases enabled : (toSpec row.load).enabled with
    | false => rw [evaluate_disabled enabled, evaluate_disabled enabled]
    | true =>
      have untiedFirst : ¬ Tied (toSpec row.load) (first.map TargetingRule.ranked) := by
        intro tied
        obtain ⟨on, r, hr, s, hs, context, userId, level, matchesR, matchesS, least, differ⟩ := tied
        exact untied ⟨on, r, perm.mem_iff.mp hr, s, perm.mem_iff.mp hs, context, userId, level, matchesR, matchesS,
          fun t listed => least t (perm.mem_iff.mpr listed), differ⟩
      have orders := evaluate_of_untied enabled untiedFirst together loads.ranked_sorted also.ranked_sorted userId
      cases context with
      | none => exact orders ∅
      | some context => exact orders context

def tiedRules : List TargetingRuleIn :=
  [{ attr := str "plan", operator := .eq, values := [str "pro"], variant := some (str "blue") },
    { attr := str "plan", operator := .in_, values := [str "pro"], variant := some (str "red") }]

def tiedCreate : FlagCreate :=
  ⟨{ key := str "banner", name := str "Banner", enabled := true, rules := tiedRules,
     variants := bannerVariants }, by decide +kernel⟩

def tiedCalls : List (Nat × StoreAct) :=
  [(0, .read (.create tiedCreate (str "ops"))), (0, .commit firstSupply)]

theorem evaluate_order_iff_banner :
    ∃ world : StoreWorld, run (World.act storeStep) StoreWorld.start tiedCalls = some world ∧
      ∃ row ∈ world.shared.db.flags,
        ((∀ first second, Loads row first → Loads row second → ∀ userId context,
            evaluate (toSpec { row.load with rules := first }) userId context =
              evaluate (toSpec { row.load with rules := second }) userId context) ↔
          ¬ Tied (toSpec row.load) (row.rules.map TargetingRule.ranked)) := by
  obtain ⟨world, runs, row, stored, _⟩ := run_reaches (World.act storeStep) StoreWorld.start tiedCalls
    (fun world => ∃ row ∈ world.shared.db.flags, row.rules.length = 2) (by decide +kernel)
  exact ⟨world, runs, row, stored, evaluate_order_iff stored⟩

theorem tiedRules_disagree :
    ∃ world : StoreWorld, run (World.act storeStep) StoreWorld.start tiedCalls = some world ∧
      ∃ row ∈ world.shared.db.flags, Loads row row.rules ∧ Loads row row.rules.reverse ∧
        evaluate (toSpec { row.load with rules := row.rules }) (str "ada") (some proContext) ≠
          evaluate (toSpec { row.load with rules := row.rules.reverse }) (str "ada") (some proContext) :=
  run_reaches (World.act storeStep) StoreWorld.start tiedCalls _ (by decide +kernel)

end Stored

end Ripcord
