import Ripcord.Services

namespace Ripcord

open Foundation

def flagPayload (flag : Flag) : Str := flag.toFlagOut.toJson.print

/-- The body that `/ruleset` splices from the payloads of its flags. -/
def rulesetBody (payloads : List Str) : Str := str "[" ++ join (str ",") payloads ++ str "]"

/-! Reading parsed JSON the way Python reads it. -/

def getItem (name : String) : Json → Except PyError Json
  | .obj members =>
    match Json.member? (str name) members with
    | some value => .ok value
    | none => .error (.keyError (str name))
  | _ => .error .typeError

def getDefault (name : String) (default : Json) : Json → Except PyError Json
  | .obj members => .ok ((Json.member? (str name) members).getD default)
  | _ => .error .attributeError

/-- `for item in data`: a dictionary yields its keys, a string its characters. -/
def iterate : Json → Except PyError (List Json)
  | .arr items => .ok items
  | .obj members => .ok (members.map fun member => .str member.1)
  | .str s => .ok (s.map fun c => .str [c])
  | _ => .error .typeError

def asText : Json → Except PyError Str
  | .str s => .ok s
  | _ => .error .illTyped

def asOptionalText : Json → Except PyError (Option Str)
  | .null => .ok none
  | .str s => .ok (some s)
  | _ => .error .illTyped

def asBool : Json → Except PyError Bool
  | .bool b => .ok b
  | _ => .error .illTyped

def asInt : Json → Except PyError Int
  | .int n => .ok n
  | _ => .error .illTyped

def asTextList : Json → Except PyError (List Str)
  | .arr items => items.mapM asText
  | _ => .error .illTyped

def loads (text : Str) : Except PyError Json :=
  match Json.parse text with
  | some data => .ok data
  | none => .error .jsonDecodeError

def variantFromData (v : Json) : Except PyError VariantSpec := do
  let key ← asText (← getItem "key" v)
  let value ← getDefault "value" .null v
  let weight ← asInt (← getItem "weight" v)
  .ok { key, value, weight }

def ruleFromData (r : Json) : Except PyError RuleSpec := do
  let attr ← asText (← getItem "attribute" r)
  let operator ← asText (← getItem "operator" r)
  let values ← (← iterate (← getItem "values" r)).mapM asText
  let variant ← asOptionalText (← getDefault "variant" .null r)
  .ok { attr, operator, values, variant }

def specFromPayload (payload : Str) : Except PyError FlagSpec := do
  let data ← loads payload
  let key ← asText (← getItem "key" data)
  let enabled ← asBool (← getItem "enabled" data)
  let rolloutPercentage ← asInt (← getItem "rollout_percentage" data)
  let offVariant ← asOptionalText (← getDefault "off_variant" .null data)
  let rules ← (← iterate (← getDefault "rules" (.arr []) data)).mapM ruleFromData
  let variants ← (← iterate (← getDefault "variants" (.arr []) data)).mapM variantFromData
  .ok { key, enabled, rolloutPercentage, rules, variants, offVariant }

/-- The rules of the SDK's decoder, which keeps `values` as it came. -/
def sdkRuleFromData (r : Json) : Except PyError RuleSpec := do
  let attr ← asText (← getItem "attribute" r)
  let operator ← asText (← getItem "operator" r)
  let values ← asTextList (← getItem "values" r)
  let variant ← asOptionalText (← getDefault "variant" .null r)
  .ok { attr, operator, values, variant }

def specFromJson (data : Json) : Except PyError FlagSpec := do
  let key ← asText (← getItem "key" data)
  let enabled ← asBool (← getItem "enabled" data)
  let rolloutPercentage ← asInt (← getItem "rollout_percentage" data)
  let offVariant ← asOptionalText (← getDefault "off_variant" .null data)
  let rules ← (← iterate (← getItem "rules" data)).mapM sdkRuleFromData
  let variants ← (← iterate (← getDefault "variants" (.arr []) data)).mapM variantFromData
  .ok { key, enabled, rolloutPercentage, rules, variants, offVariant }

def evaluatePayload (payload userId : Str) (context : Option Context) : Except PyError Evaluation :=
  (specFromPayload payload).bind fun spec => evaluate spec userId context

section RoundTrip

theorem asOptionalText_optionalText (s : Option Str) : asOptionalText (optionalText s) = .ok s := by
  cases s <;> rfl

theorem mapM_asText (values : List Str) : values.mapM (asText ∘ Json.str) = .ok values := by
  induction values with
  | nil => rfl
  | cons value values ih => simp [asText, ih, Bind.bind, Except.bind, Pure.pure, Except.pure]

theorem mapM_of_decodes {α β : Type} {encode : α → Json} {decode : Json → Except PyError β} {project : α → β}
    (decodes : ∀ a, decode (encode a) = .ok (project a)) (items : List α) :
    (items.map encode).mapM decode = .ok (items.map project) := by
  induction items with
  | nil => rfl
  | cons a items ih => simp [decodes, ih, Bind.bind, Except.bind, Pure.pure, Except.pure]

def TargetingRule.toSpec (r : TargetingRule) : RuleSpec :=
  { attr := r.attr, operator := r.operator.value, values := r.values, variant := r.variant }

def Variant.toSpec (v : Variant) : VariantSpec := { key := v.key, value := v.value, weight := v.weight }

theorem variantFromData_toJson (v : Variant) : variantFromData v.toJson = .ok v.toSpec := by
  simp [variantFromData, Variant.toJson, getItem, getDefault, Json.member?, asText, asInt, Variant.toSpec,
    Bind.bind, Except.bind]

theorem ruleFromData_toJson (r : TargetingRule) : ruleFromData r.toJson = .ok r.toSpec := by
  simp [ruleFromData, TargetingRule.toJson, getItem, getDefault, Json.member?, asText, iterate, mapM_asText,
    asOptionalText_optionalText, TargetingRule.toSpec, Bind.bind, Except.bind]

theorem sdkRuleFromData_toJson (r : TargetingRule) : sdkRuleFromData r.toJson = .ok r.toSpec := by
  simp [sdkRuleFromData, TargetingRule.toJson, getItem, getDefault, Json.member?, asText, asTextList,
    mapM_asText, asOptionalText_optionalText, TargetingRule.toSpec, Bind.bind, Except.bind]

theorem loads_flagPayload (flag : Flag) : loads (flagPayload flag) = .ok flag.toFlagOut.toJson := by
  simp [loads, flagPayload, Json.parse_print]

theorem specFromPayload_flagPayload (flag : Flag) :
    specFromPayload (flagPayload flag) = .ok (toSpec flag.toFlagOut) := by
  have rules := mapM_of_decodes ruleFromData_toJson flag.toFlagOut.rules
  have variants := mapM_of_decodes variantFromData_toJson flag.toFlagOut.variants
  simp only [specFromPayload, loads_flagPayload, Bind.bind, Except.bind]
  simp [Flag.toJson, getItem, getDefault, Json.member?, asText, asBool, asInt, iterate,
    asOptionalText_optionalText, rules, variants]
  rfl

theorem specFromJson_toJson (flag : Flag) : specFromJson flag.toFlagOut.toJson = .ok (toSpec flag.toFlagOut) := by
  have rules := mapM_of_decodes sdkRuleFromData_toJson flag.toFlagOut.rules
  have variants := mapM_of_decodes variantFromData_toJson flag.toFlagOut.variants
  simp [specFromJson, Flag.toJson, getItem, getDefault, Json.member?, asText, asBool, asInt, iterate,
    asOptionalText_optionalText, rules, variants, Bind.bind, Except.bind]
  rfl

theorem evaluate_toFlagOut (flag : Flag) (distinct : (flag.variants.map Variant.key).Nodup) (userId : Str)
    (context : Option Context) :
    evaluate (toSpec flag.toFlagOut) userId context = evaluate (toSpec flag) userId context := by
  have perm : (toSpec flag).variants.Perm (toSpec flag.toFlagOut).variants :=
    (sortOn_perm Variant.key flag.variants).symm.map _
  have keys : ((toSpec flag).variants.map VariantSpec.key).Nodup := by
    simpa [toSpec, Function.comp_def] using distinct
  exact evaluate_variants_perm perm keys userId context

theorem printItems_map {α : Type} (toJson : α → Json) (items : List α) :
    Json.printItems (items.map toJson) = items.map fun a => (toJson a).print := by
  induction items with
  | nil => rfl
  | cons a items ih => simp [Json.printItems, ih]

theorem loads_rulesetBody (ruleset : List Flag) :
    loads (rulesetBody (ruleset.map flagPayload)) =
      .ok (.arr (ruleset.map fun flag => flag.toFlagOut.toJson)) := by
  have spliced : rulesetBody (ruleset.map flagPayload) =
      (Json.arr (ruleset.map fun flag => flag.toFlagOut.toJson)).print := by
    simp only [rulesetBody, Json.print, printItems_map]
    rfl
  simp [loads, spliced, Json.parse_print]

theorem evaluatePayload_flagPayload (flag : Flag) (distinct : (flag.variants.map Variant.key).Nodup)
    (userId : Str) (context : Option Context) :
    evaluatePayload (flagPayload flag) userId context = evaluate (toSpec flag) userId context := by
  simp only [evaluatePayload, specFromPayload_flagPayload, Except.bind,
    evaluate_toFlagOut flag distinct userId context]

theorem evaluate_specFromJson (flag : Flag) (distinct : (flag.variants.map Variant.key).Nodup)
    (userId : Str) (context : Option Context) :
    ((specFromJson flag.toFlagOut.toJson).bind fun spec => evaluate spec userId context) =
      evaluate (toSpec flag) userId context := by
  simp only [specFromJson_toJson, Except.bind, evaluate_toFlagOut flag distinct userId context]

/-- The server, its cache and the SDK give one answer: from the row, from the flag's payload, and from
    the flag's item in any `/ruleset` body that carries it. -/
theorem evaluations_agree (ruleset : List Flag) (flag : Flag)
    (distinct : (flag.variants.map Variant.key).Nodup) (userId : Str) (context : Option Context) :
    evaluatePayload (flagPayload flag) userId context = evaluate (toSpec flag) userId context ∧
      ∃ items : List Json, loads (rulesetBody (ruleset.map flagPayload)) = .ok (.arr items) ∧
        ∀ i : Nat, ruleset[i]? = some flag → ∃ item, items[i]? = some item ∧
          ((specFromJson item).bind fun spec => evaluate spec userId context) =
            evaluate (toSpec flag) userId context := by
  refine ⟨evaluatePayload_flagPayload flag distinct userId context, _, loads_rulesetBody ruleset, ?_⟩
  intro i here
  exact ⟨flag.toFlagOut.toJson, by simp [here], evaluate_specFromJson flag distinct userId context⟩

def bannerFlag : Flag :=
  { id := 7, key := str "banner", name := str "Banner", description := none, enabled := true,
    rolloutPercentage := 50, offVariant := some (str "blue"), version := 3, createdAt := str "2026-01-01",
    updatedAt := str "2026-01-02",
    rules := [{ id := 1, attr := str "plan", operator := .eq, values := [str "pro"], priority := 0,
                variant := some (str "red") }],
    variants := [{ id := 1, key := str "red", value := .int 1, weight := 40 },
      { id := 2, key := str "blue", value := .null, weight := 60 }] }

theorem evaluations_agree_banner :
    evaluatePayload (flagPayload bannerFlag) (str "ada") none =
        evaluate (toSpec bannerFlag) (str "ada") none ∧
      ∃ items : List Json, loads (rulesetBody ([bannerFlag].map flagPayload)) = .ok (.arr items) ∧
        ∀ i : Nat, [bannerFlag][i]? = some bannerFlag → ∃ item, items[i]? = some item ∧
          ((specFromJson item).bind fun spec => evaluate spec (str "ada") none) =
            evaluate (toSpec bannerFlag) (str "ada") none :=
  evaluations_agree [bannerFlag] bannerFlag (by decide) (str "ada") none

end RoundTrip

end Ripcord
