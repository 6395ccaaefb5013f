import Ripcord.Foundation.TextEncodings
import Ripcord.SdkRefresh

namespace Ripcord

open Foundation

/-! The SDK's decoder on any JSON value. A dataclass checks no types: its fields keep whatever value came. -/

structure RawRule where
  attr : Json
  operator : Json
  values : Json
  variant : Json

structure RawVariant where
  key : Json
  value : Json
  weight : Json

structure RawFlag where
  key : Json
  enabled : Json
  rolloutPercentage : Json
  offVariant : Json
  rules : List RawRule
  variants : List RawVariant

def rawRuleFromData (r : Json) : Except PyError RawRule := do
  let attr ← getItem "attribute" r
  let operator ← getItem "operator" r
  let values ← getItem "values" r
  let variant ← getDefault "variant" .null r
  .ok { attr, operator, values, variant }

def rawVariantFromData (v : Json) : Except PyError RawVariant := do
  let key ← getItem "key" v
  let value ← getDefault "value" .null v
  let weight ← getItem "weight" v
  .ok { key, value, weight }

def rawSpecFromJson (data : Json) : Except PyError RawFlag := do
  let key ← getItem "key" data
  let enabled ← getItem "enabled" data
  let rolloutPercentage ← getItem "rollout_percentage" data
  let offVariant ← getDefault "off_variant" .null data
  let rules ← (← iterate (← getItem "rules" data)).mapM rawRuleFromData
  let variants ← (← iterate (← getDefault "variants" (.arr []) data)).mapM rawVariantFromData
  .ok { key, enabled, rolloutPercentage, offVariant, rules, variants }

def Hashable : Json → Prop
  | .arr _ | .obj _ => False
  | _ => True

instance : DecidablePred Hashable
  | .arr _ | .obj _ => inferInstanceAs (Decidable False)
  | .null | .bool _ | .int _ | .float .. | .nan | .infinity _ | .str _ => inferInstanceAs (Decidable True)

/-- `item["key"]: _spec_from_json(item)`, inserted into the dictionary. -/
def rawEntryFromItem (item : Json) : Except PyError (Json × RawFlag) := do
  let key ← getItem "key" item
  let spec ← rawSpecFromJson item
  if Hashable key then .ok (key, spec) else .error .typeError

/-- The `_flags` of a client, by the insertions it was built with. -/
abbrev RawFlags := List (Json × RawFlag)

/-- `_flags.get(flag_key)`: the last insertion of a key is the one that counts. -/
def RawFlags.get? (flags : RawFlags) (flagKey : Str) : Option RawFlag :=
  (flags.reverse.find? fun entry => entry.1 = .str flagKey).map Prod.snd

def Readable : Json → Prop
  | .int n => FitsDigits n
  | _ => True

instance : DecidablePred Readable
  | .int n => inferInstanceAs (Decidable (FitsDigits n))
  | .null | .bool _ | .float .. | .nan | .infinity _ | .str _ | .arr _ | .obj _ => inferInstanceAs (Decidable True)

/-- `response.json()`: `json.loads` of the bytes as they came, whatever the headers say of them. -/
def jsonBody (content : List Byte) : Except PyError Json :=
  match decodeText content with
  | none => .error .unicodeDecodeError
  | some text =>
    match Json.parse text with
    | none => .error .jsonDecodeError
    | some data => if ∀ leaf ∈ data.leaves, Readable leaf then .ok data else .error .valueError

def rawFlagsFromBody (content : List Byte) : Except PyError RawFlags := do
  let items ← iterate (← jsonBody content)
  items.mapM rawEntryFromItem

structure RawResponse where
  status : Nat
  content : List Byte

inductive Outcome
  | raised
  | answered (response : RawResponse)

def refresh (flags : RawFlags) : Outcome → RawFlags
  | .raised => flags
  | .answered response =>
    if response.status = 401 ∨ response.status = 403 then flags
    else if response.status < 200 ∨ 300 ≤ response.status then flags
    else
      match rawFlagsFromBody response.content with
      | .ok installed => installed
      | .error _ => flags

/-! The text of a `datetime` field: a date, a time of day, with a fraction or none, and a zone or none. -/

def takeNumber (width low high : Nat) (text : Str) : Option (Nat × Str) :=
  let digits := (Json.spanDigits (text.take width)).1
  if digits.length = width ∧ low ≤ Json.decimal digits ∧ Json.decimal digits ≤ high then
    some (Json.decimal digits, text.drop width)
  else none

def takeMark (mark : Char) : Str → Option Str
  | [] => none
  | c :: rest => if c = ch mark then some rest else none

def daysIn (year month : Nat) : Nat :=
  if month = 2 then (if year % 4 = 0 ∧ (year % 100 ≠ 0 ∨ year % 400 = 0) then 29 else 28)
  else if month = 4 ∨ month = 6 ∨ month = 9 ∨ month = 11 then 30 else 31

def takeDate (text : Str) : Option Str := do
  let (year, text) ← takeNumber 4 1 9999 text
  let (month, text) ← takeNumber 2 1 12 (← takeMark '-' text)
  let (_, text) ← takeNumber 2 1 (daysIn year month) (← takeMark '-' text)
  some text

def takeTime (text : Str) : Option Str := do
  let (_, text) ← takeNumber 2 0 23 text
  let (_, text) ← takeNumber 2 0 59 (← takeMark ':' text)
  let (_, text) ← takeNumber 2 0 59 (← takeMark ':' text)
  some text

def skipFraction (text : Str) : Str :=
  match takeMark '.' text with
  | none => text
  | some digits =>
    let (fraction, rest) := Json.spanDigits digits
    if 0 < fraction.length ∧ fraction.length ≤ 6 then rest else text

def IsOffset (text : Str) : Prop :=
  (do
    let (_, text) ← takeNumber 2 0 23 text
    let (_, text) ← takeNumber 2 0 59 (← takeMark ':' text)
    some text) = some []
  deriving Decidable

def IsZone (text : Str) : Prop :=
  text = [] ∨ text = str "Z" ∨ (∃ offset ∈ takeMark '+' text, IsOffset offset) ∨
    ∃ offset ∈ takeMark '-' text, IsOffset offset
  deriving Decidable

def IsDateTime (text : Str) : Prop :=
  ∃ time ∈ (takeDate text).bind (takeMark 'T'), ∃ rest ∈ takeTime time, IsZone (skipFraction rest)
  deriving Decidable

example : IsDateTime (str "2024-02-29T23:59:59.250000Z") ∧ ¬ IsDateTime (str "2026-02-29T00:00:00+05:30") := by
  decide +kernel

/-! What a `/ruleset` entry is: an object with every field of `FlagOut`, each of its type. -/

def field? (name : String) : Json → Option Json
  | .obj members => Json.member? (str name) members
  | _ => none

def IntField (name : String) (item : Json) : Prop := ∃ n, field? name item = some (.int n)

def TimeField (name : String) (item : Json) : Prop := ∃ text, field? name item = some (.str text) ∧ IsDateTime text

structure RuleOf (item : Json) (rule : RuleSpec) : Prop where
  id : IntField "id" item
  attr : field? "attribute" item = some (.str rule.attr)
  operator : field? "operator" item = some (.str rule.operator)
  known : ∃ op : Operator, op.value = rule.operator
  values : field? "values" item = some (.arr (rule.values.map .str))
  priority : IntField "priority" item
  variant : field? "variant" item = some (optionalText rule.variant)

structure VariantOf (item : Json) (variant : VariantSpec) : Prop where
  id : IntField "id" item
  key : field? "key" item = some (.str variant.key)
  value : field? "value" item = some variant.value
  weight : field? "weight" item = some (.int variant.weight)

structure EntryOf (item : Json) (spec : FlagSpec) : Prop where
  id : IntField "id" item
  key : field? "key" item = some (.str spec.key)
  name : ∃ text, field? "name" item = some (.str text)
  description : ∃ text, field? "description" item = some (optionalText text)
  enabled : field? "enabled" item = some (.bool spec.enabled)
  rolloutPercentage : field? "rollout_percentage" item = some (.int spec.rolloutPercentage)
  version : IntField "version" item
  createdAt : TimeField "created_at" item
  updatedAt : TimeField "updated_at" item
  offVariant : field? "off_variant" item = some (optionalText spec.offVariant)
  rules : ∃ items, field? "rules" item = some (.arr items) ∧ List.Forall₂ RuleOf items spec.rules
  variants : ∃ items, field? "variants" item = some (.arr items) ∧ List.Forall₂ VariantOf items spec.variants

/-- The body is a JSON array of `/ruleset` entries, which decode to the specs. -/
def Entries (body : Json) (specs : List FlagSpec) : Prop :=
  ∃ items, body = .arr items ∧ List.Forall₂ EntryOf items specs

def RuleSpec.raw (rule : RuleSpec) : RawRule :=
  { attr := .str rule.attr, operator := .str rule.operator, values := .arr (rule.values.map .str),
    variant := optionalText rule.variant }

def VariantSpec.raw (v : VariantSpec) : RawVariant :=
  { key := .str v.key, value := v.value, weight := .int v.weight }

def FlagSpec.raw (spec : FlagSpec) : RawFlag :=
  { key := .str spec.key, enabled := .bool spec.enabled, rolloutPercentage := .int spec.rolloutPercentage,
    offVariant := optionalText spec.offVariant, rules := spec.rules.map RuleSpec.raw,
    variants := spec.variants.map VariantSpec.raw }

def installed (specs : List FlagSpec) : RawFlags := specs.map fun spec => (.str spec.key, spec.raw)

/-- The body of an answer that `raise_for_status` accepts, once `response.json()` has parsed it. -/
def Outcome.body? : Outcome → Option Json
  | .raised => none
  | .answered response =>
    if 200 ≤ response.status ∧ response.status < 300 then (jsonBody response.content).toOption else none

/-- After a refresh the ruleset is the one before, or the decoding of a successful answer whose body is an
    array of entries. -/
def AllOrNothing (flags : RawFlags) (outcome : Outcome) : Prop :=
  refresh flags outcome = flags ∨
    ∃ body ∈ outcome.body?, ∃ specs, Entries body specs ∧ refresh flags outcome = installed specs

/-! What gets through the decoder without being an array of entries. -/

/-- A loop over the value raises on nothing: its items are all good, or there are none. -/
def Loops (good : Json → Prop) : Json → Prop
  | .arr items => ∀ item ∈ items, good item
  | .obj members => members = []
  | .str s => s = []
  | _ => False

def HasFields (names : List String) (item : Json) : Prop := ∀ name ∈ names, (field? name item).isSome

def RuleCarried : Json → Prop := HasFields ["attribute", "operator", "values"]

def VariantCarried : Json → Prop := HasFields ["key", "weight"]

/-- An object with every field that is read without a default, whatever the types. -/
structure EntryCarried (item : Json) : Prop where
  carries : HasFields ["key", "enabled", "rollout_percentage", "rules"] item
  hashable : ∀ key ∈ field? "key" item, Hashable key
  rules : ∀ rules ∈ field? "rules" item, Loops RuleCarried rules
  variants : ∀ variants ∈ field? "variants" item, Loops VariantCarried variants

def Slips (outcome : Outcome) : Prop :=
  ∃ body ∈ outcome.body?, Loops EntryCarried body ∧ ¬ ∃ specs, Entries body specs

section Decoding

variable {item data : Json} {name : String} {value : Json}

theorem getItem_eq_ok : getItem name item = .ok value ↔ field? name item = some value := by
  cases item with
  | obj members =>
    simp only [getItem, field?]
    split <;> simp_all
  | _ => simp [getItem, field?]

theorem getDefault_eq_ok {default : Json} (carried : ∃ other : String, (field? other item).isSome) :
    getDefault name default item = .ok value ↔ (field? name item).getD default = value := by
  cases item with
  | obj members => simp [getDefault, field?]
  | _ =>
    obtain ⟨_, carried⟩ := carried
    cases carried

theorem carried_of_field (here : field? name item = some value) : ∃ other : String, (field? other item).isSome :=
  ⟨name, by rw [here]; rfl⟩

theorem hasFields_cons {names : List String} :
    HasFields (name :: names) item ↔ (∃ value, field? name item = some value) ∧ HasFields names item := by
  simp [HasFields, Option.isSome_iff_exists]

theorem hasFields_nil : HasFields [] item := fun _ none => by cases none

theorem iterate_mapM_ok {β : Type} {f : Json → Except PyError β} (texts : ∀ s, ¬ ∃ b, f (.str s) = .ok b) :
    (∃ results, (iterate data >>= fun items => items.mapM f) = .ok results) ↔
      Loops (fun item => ∃ b, f item = .ok b) data := by
  rw [exists_bind_ok]
  simp only [exists_mapM_ok]
  cases data with
  | arr items => simp [iterate, Loops]
  | obj members =>
    simp only [iterate, Loops, Except.ok.injEq, exists_eq_left', List.forall_mem_map, texts]
    exact List.eq_nil_iff_forall_not_mem.symm
  | str s =>
    simp only [iterate, Loops, Except.ok.injEq, exists_eq_left', List.forall_mem_map, texts]
    exact List.eq_nil_iff_forall_not_mem.symm
  | _ => simp [iterate, Loops]

theorem rawRuleFromData_ok : (∃ raw, rawRuleFromData item = .ok raw) ↔ RuleCarried item := by
  simp only [rawRuleFromData, exists_bind_ok, getItem_eq_ok, RuleCarried, hasFields_cons, hasFields_nil, and_true]
  constructor
  · rintro ⟨attr, hasAttr, operator, hasOperator, values, hasValues, _⟩
    exact ⟨⟨attr, hasAttr⟩, ⟨operator, hasOperator⟩, values, hasValues⟩
  · rintro ⟨⟨attr, hasAttr⟩, ⟨operator, hasOperator⟩, values, hasValues⟩
    have carried := carried_of_field hasAttr
    exact ⟨attr, hasAttr, operator, hasOperator, values, hasValues, _, (getDefault_eq_ok carried).mpr rfl, _, rfl⟩

theorem rawVariantFromData_ok : (∃ raw, rawVariantFromData item = .ok raw) ↔ VariantCarried item := by
  simp only [rawVariantFromData, exists_bind_ok, getItem_eq_ok, VariantCarried, hasFields_cons, hasFields_nil, and_true]
  constructor
  · rintro ⟨key, hasKey, _, _, weight, hasWeight, _⟩
    exact ⟨⟨key, hasKey⟩, weight, hasWeight⟩
  · rintro ⟨⟨key, hasKey⟩, weight, hasWeight⟩
    have carried := carried_of_field hasKey
    exact ⟨key, hasKey, _, (getDefault_eq_ok carried).mpr rfl, weight, hasWeight, _, rfl⟩

theorem rawRules_ok :
    (∃ raws, (iterate data >>= fun items => items.mapM rawRuleFromData) = .ok raws) ↔ Loops RuleCarried data := by
  have texts : ∀ s, ¬ ∃ raw, rawRuleFromData (.str s) = .ok raw := fun s => by
    rw [rawRuleFromData_ok]
    exact fun carried => by cases carried "attribute" (by simp)
  simp only [iterate_mapM_ok texts, rawRuleFromData_ok]

theorem rawVariants_ok :
    (∃ raws, (iterate data >>= fun items => items.mapM rawVariantFromData) = .ok raws) ↔
      Loops VariantCarried data := by
  have texts : ∀ s, ¬ ∃ raw, rawVariantFromData (.str s) = .ok raw := fun s => by
    rw [rawVariantFromData_ok]
    exact fun carried => by cases carried "key" (by simp)
  simp only [iterate_mapM_ok texts, rawVariantFromData_ok]

theorem rawSpecFromJson_ok :
    (∃ raw, rawSpecFromJson item = .ok raw) ↔ HasFields ["key", "enabled", "rollout_percentage", "rules"] item ∧
      (∀ rules ∈ field? "rules" item, Loops RuleCarried rules) ∧
      ∀ variants ∈ field? "variants" item, Loops VariantCarried variants := by
  simp only [rawSpecFromJson, exists_bind_ok, getItem_eq_ok, hasFields_cons, hasFields_nil, and_true]
  constructor
  · rintro ⟨key, hasKey, enabled, hasEnabled, rollout, hasRollout, _, _, rules, hasRules, items, loops, raws, decodes,
      variants, hasVariants, others, also, more, decodesToo, _⟩
    have carried := carried_of_field hasKey
    refine ⟨⟨⟨key, hasKey⟩, ⟨enabled, hasEnabled⟩, ⟨rollout, hasRollout⟩, rules, hasRules⟩, ?_, ?_⟩
    · intro value here
      rw [hasRules] at here
      cases here
      exact rawRules_ok.mp (exists_bind_ok.mpr ⟨items, loops, raws, decodes⟩)
    · intro value here
      rw [getDefault_eq_ok carried, Option.mem_def.mp here, Option.getD_some] at hasVariants
      subst hasVariants
      exact rawVariants_ok.mp (exists_bind_ok.mpr ⟨others, also, more, decodesToo⟩)
  · rintro ⟨⟨⟨key, hasKey⟩, ⟨enabled, hasEnabled⟩, ⟨rollout, hasRollout⟩, rules, hasRules⟩, ruleLoop,
      variantLoop⟩
    have carried := carried_of_field hasKey
    obtain ⟨items, loops, raws, decodes⟩ := exists_bind_ok.mp (rawRules_ok.mpr (ruleLoop rules hasRules))
    have variants : Loops VariantCarried ((field? "variants" item).getD (.arr [])) := by
      cases here : field? "variants" item with
      | none => exact fun v none => by cases none
      | some value => exact variantLoop value here
    obtain ⟨others, also, more, decodesToo⟩ := exists_bind_ok.mp (rawVariants_ok.mpr variants)
    exact ⟨key, hasKey, enabled, hasEnabled, rollout, hasRollout, _, (getDefault_eq_ok carried).mpr rfl, rules,
      hasRules, items, loops, raws, decodes, _, (getDefault_eq_ok carried).mpr rfl, others, also, more, decodesToo,
      _, rfl⟩

theorem rawEntryFromItem_ok : (∃ entry, rawEntryFromItem item = .ok entry) ↔ EntryCarried item := by
  simp only [rawEntryFromItem, exists_bind_ok, getItem_eq_ok]
  constructor
  · rintro ⟨key, hasKey, raw, decodes, entry, hashes⟩
    obtain ⟨carries, rules, variants⟩ := rawSpecFromJson_ok.mp ⟨raw, decodes⟩
    refine ⟨carries, fun other here => ?_, rules, variants⟩
    rw [hasKey] at here
    cases here
    split at hashes
    · assumption
    · cases hashes
  · intro carried
    obtain ⟨key, hasKey⟩ := (hasFields_cons.mp carried.carries).1
    obtain ⟨raw, decodes⟩ := rawSpecFromJson_ok.mpr ⟨carried.carries, carried.rules, carried.variants⟩
    exact ⟨key, hasKey, raw, decodes, _, if_pos (carried.hashable key hasKey)⟩

theorem rawFlags_ok :
    (∃ flags, (iterate data >>= fun items => items.mapM rawEntryFromItem) = .ok flags) ↔ Loops EntryCarried data := by
  have texts : ∀ s, ¬ ∃ entry, rawEntryFromItem (.str s) = .ok entry := fun s => by
    rw [rawEntryFromItem_ok]
    exact fun carried => by cases carried.carries "key" (by simp)
  simp only [iterate_mapM_ok texts, rawEntryFromItem_ok]

theorem field_getD {default : Json} (here : field? name item = some value) :
    (field? name item).getD default = value := by
  rw [here]
  rfl

theorem RuleOf.decodes {rule : RuleSpec} (of : RuleOf item rule) : rawRuleFromData item = .ok rule.raw := by
  have carried := carried_of_field of.attr
  rw [rawRuleFromData, getItem_eq_ok.mpr of.attr, getItem_eq_ok.mpr of.operator, getItem_eq_ok.mpr of.values,
    (getDefault_eq_ok carried).mpr (field_getD of.variant)]
  rfl

theorem VariantOf.decodes {v : VariantSpec} (of : VariantOf item v) : rawVariantFromData item = .ok v.raw := by
  have carried := carried_of_field of.key
  rw [rawVariantFromData, getItem_eq_ok.mpr of.key, (getDefault_eq_ok carried).mpr (field_getD of.value),
    getItem_eq_ok.mpr of.weight]
  rfl

theorem EntryOf.decodes {spec : FlagSpec} (of : EntryOf item spec) :
    rawEntryFromItem item = .ok (.str spec.key, spec.raw) := by
  have carried := carried_of_field of.key
  obtain ⟨rules, hasRules, eachRule⟩ := of.rules
  have ruleSpecs : rules.mapM rawRuleFromData = .ok (spec.rules.map RuleSpec.raw) := by
    rw [mapM_eq_ok, List.forall₂_map_right_iff]
    exact eachRule.imp fun _ _ => RuleOf.decodes
  obtain ⟨variants, hasVariants, eachVariant⟩ := of.variants
  have variantSpecs : variants.mapM rawVariantFromData = .ok (spec.variants.map VariantSpec.raw) := by
    rw [mapM_eq_ok, List.forall₂_map_right_iff]
    exact eachVariant.imp fun _ _ => VariantOf.decodes
  simp only [rawEntryFromItem, rawSpecFromJson, getItem_eq_ok.mpr of.key, getItem_eq_ok.mpr of.enabled,
    getItem_eq_ok.mpr of.rolloutPercentage, (getDefault_eq_ok carried).mpr (field_getD of.offVariant),
    getItem_eq_ok.mpr hasRules, (getDefault_eq_ok carried).mpr (field_getD hasVariants), iterate, ruleSpecs,
    variantSpecs, Bind.bind, Except.bind]
  exact if_pos trivial

end Decoding

section Refreshing

variable {flags : RawFlags} {outcome : Outcome} {body : Json} {specs : List FlagSpec}

theorem refresh_eq (flags : RawFlags) (outcome : Outcome) :
    refresh flags outcome =
      match outcome.body? with
      | none => flags
      | some body =>
        match iterate body >>= fun items => items.mapM rawEntryFromItem with
        | .ok installed => installed
        | .error _ => flags := by
  cases outcome with
  | raised => rfl
  | answered response =>
    simp only [refresh, Outcome.body?]
    by_cases succeeds : 200 ≤ response.status ∧ response.status < 300
    · have authorized : ¬ (response.status = 401 ∨ response.status = 403) := by omega
      have accepted : ¬ (response.status < 200 ∨ 300 ≤ response.status) := by omega
      rw [if_neg authorized, if_neg accepted, if_pos succeeds, rawFlagsFromBody]
      cases jsonBody response.content <;> rfl
    · have refused : response.status < 200 ∨ 300 ≤ response.status := by omega
      rw [if_neg succeeds, if_pos refused, ite_self]

theorem refresh_none (unread : outcome.body? = none) : refresh flags outcome = flags := by
  rw [refresh_eq, unread]

theorem refresh_rejected (read : outcome.body? = some body) (rejected : ¬ Loops EntryCarried body) :
    refresh flags outcome = flags := by
  rw [refresh_eq, read]
  cases decodes : iterate body >>= fun items => items.mapM rawEntryFromItem with
  | ok installed => exact absurd (rawFlags_ok.mp ⟨installed, decodes⟩) rejected
  | error => simp only [decodes]

theorem refresh_loops (read : outcome.body? = some body) (loops : Loops EntryCarried body) :
    ∃ installed, ∀ flags, refresh flags outcome = installed := by
  obtain ⟨installed, decodes⟩ := rawFlags_ok.mpr loops
  refine ⟨installed, fun flags => ?_⟩
  rw [refresh_eq, read]
  simp only [decodes]

theorem refresh_entries (read : outcome.body? = some body) (entries : Entries body specs) :
    refresh flags outcome = installed specs := by
  obtain ⟨items, rfl, each⟩ := entries
  have decodes : items.mapM rawEntryFromItem = .ok (installed specs) := by
    rw [mapM_eq_ok, installed, List.forall₂_map_right_iff]
    exact each.imp fun _ _ => EntryOf.decodes
  rw [refresh_eq, read]
  simp only [iterate, decodes, Bind.bind, Except.bind]

theorem allOrNothing_of_not_slips (kept : ¬ Slips outcome) (flags : RawFlags) : AllOrNothing flags outcome := by
  cases read : outcome.body? with
  | none => exact .inl (refresh_none read)
  | some body =>
    by_cases loops : Loops EntryCarried body
    · have entries : ∃ specs, Entries body specs := by
        by_contra other
        exact kept ⟨body, read, loops, other⟩
      obtain ⟨specs, entries⟩ := entries
      exact .inr ⟨body, read, specs, entries, refresh_entries read entries⟩
    · exact .inl (refresh_rejected read loops)

theorem not_allOrNothing_of_slips (slips : Slips outcome) : ∃ flags, ¬ AllOrNothing flags outcome := by
  obtain ⟨body, read, loops, other⟩ := slips
  obtain ⟨installed, always⟩ := refresh_loops read loops
  let earlier : RawFlags := (.null, ⟨.null, .null, .null, .null, [], []⟩) :: installed
  have different : installed ≠ earlier := by simp [earlier]
  refine ⟨earlier, ?_⟩
  rintro (same | ⟨body', also, specs, entries, _⟩)
  · exact different ((always _).symm.trans same)
  · rw [Option.mem_def.mp also] at read
    cases read
    exact other ⟨specs, entries⟩

theorem AllOrNothing.installed (holds : AllOrNothing (installed specs) outcome) :
    ∃ specs', refresh (Ripcord.installed specs) outcome = Ripcord.installed specs' := by
  rcases holds with kept | ⟨_, _, specs', _, replaced⟩
  · exact ⟨specs, kept⟩
  · exact ⟨specs', replaced⟩

end Refreshing

section Typed

variable {item : Json} {specs : List FlagSpec}

def specMap (specs : List FlagSpec) : SdkFlags := specs.foldl (fun flags spec => flags.insert spec.key spec) ∅

theorem installed_get? (specs : List FlagSpec) (key : Str) :
    (installed specs).get? key = ((specMap specs).lookup key).map FlagSpec.raw := by
  induction specs using List.reverseRecOn with
  | nil => rfl
  | append_singleton specs spec ih =>
    have last : (installed (specs ++ [spec])).reverse = (.str spec.key, spec.raw) :: (installed specs).reverse := by
      simp [installed]
    have inserted : specMap (specs ++ [spec]) = (specMap specs).insert spec.key spec := by simp [specMap]
    by_cases same : spec.key = key
    · subst same
      simp [RawFlags.get?, last, inserted]
    · rw [inserted, AList.lookup_insert_ne (Ne.symm same), ← ih]
      simp [RawFlags.get?, last, same]

theorem RuleOf.typed {rule : RuleSpec} (of : RuleOf item rule) : sdkRuleFromData item = .ok rule := by
  have carried := carried_of_field of.attr
  have values : asTextList (.arr (rule.values.map .str)) = .ok rule.values := by
    simp [asTextList, mapM_asText]
  simp [sdkRuleFromData, getItem_eq_ok.mpr of.attr, getItem_eq_ok.mpr of.operator, getItem_eq_ok.mpr of.values,
    (getDefault_eq_ok carried).mpr (field_getD of.variant), asText, values, asOptionalText_optionalText, Bind.bind,
    Except.bind]

theorem VariantOf.typed {v : VariantSpec} (of : VariantOf item v) : variantFromData item = .ok v := by
  have carried := carried_of_field of.key
  simp [variantFromData, getItem_eq_ok.mpr of.key, (getDefault_eq_ok carried).mpr (field_getD of.value),
    getItem_eq_ok.mpr of.weight, asText, asInt, Bind.bind, Except.bind]

theorem EntryOf.typed {spec : FlagSpec} (of : EntryOf item spec) : specFromJson item = .ok spec := by
  have carried := carried_of_field of.key
  obtain ⟨rules, hasRules, eachRule⟩ := of.rules
  have ruleSpecs : rules.mapM sdkRuleFromData = .ok spec.rules :=
    mapM_eq_ok.mpr (eachRule.imp fun _ _ => RuleOf.typed)
  obtain ⟨variants, hasVariants, eachVariant⟩ := of.variants
  have variantSpecs : variants.mapM variantFromData = .ok spec.variants :=
    mapM_eq_ok.mpr (eachVariant.imp fun _ _ => VariantOf.typed)
  simp [specFromJson, getItem_eq_ok.mpr of.key, getItem_eq_ok.mpr of.enabled, getItem_eq_ok.mpr of.rolloutPercentage,
    (getDefault_eq_ok carried).mpr (field_getD of.offVariant), getItem_eq_ok.mpr hasRules,
    (getDefault_eq_ok carried).mpr (field_getD hasVariants), iterate, ruleSpecs, variantSpecs, asText, asBool, asInt,
    asOptionalText_optionalText, Bind.bind, Except.bind]

theorem flagsFromBody_entries {body : Str} {data : Json} (parsed : Json.parse body = some data)
    (entries : Entries data specs) : flagsFromBody body = .ok (specMap specs) := by
  obtain ⟨items, rfl, each⟩ := entries
  have folds : ∀ flags : SdkFlags, items.foldlM (fun flags item => do
      let key ← asText (← getItem "key" item)
      let spec ← specFromJson item
      .ok (flags.insert key spec)) flags =
      .ok (specs.foldl (fun flags spec => flags.insert spec.key spec) flags) := by
    clear parsed
    induction each with
    | nil => exact fun flags => rfl
    | cons of _ ih =>
      intro flags
      rw [List.foldlM_cons, getItem_eq_ok.mpr of.key, of.typed]
      exact ih _
  rw [flagsFromBody, loads, parsed]
  exact folds ∅

end Typed

section Served

theorem ruleOf_toJson (rule : TargetingRule) : RuleOf rule.toJson rule.toSpec where
  id := ⟨rule.id, rfl⟩
  attr := rfl
  operator := rfl
  known := ⟨rule.operator, rfl⟩
  values := rfl
  priority := ⟨rule.priority, rfl⟩
  variant := rfl

theorem variantOf_toJson (variant : Variant) : VariantOf variant.toJson variant.toSpec where
  id := ⟨variant.id, rfl⟩
  key := rfl
  value := rfl
  weight := rfl

theorem forall₂_toJson {α β : Type} {of : Json → β → Prop} {encode : α → Json} {project : α → β}
    (each : ∀ a, of (encode a) (project a)) (items : List α) :
    List.Forall₂ of (items.map encode) (items.map project) := by
  rw [List.forall₂_map_left_iff, List.forall₂_map_right_iff]
  exact List.forall₂_same.mpr fun a _ => each a

theorem entryOf_toJson {flag : Flag} (created : IsDateTime flag.createdAt) (updated : IsDateTime flag.updatedAt) :
    EntryOf flag.toJson (toSpec flag) where
  id := ⟨flag.id, rfl⟩
  key := rfl
  name := ⟨flag.name, rfl⟩
  description := ⟨flag.description, rfl⟩
  enabled := rfl
  rolloutPercentage := rfl
  version := ⟨flag.version, rfl⟩
  createdAt := ⟨flag.createdAt, rfl, created⟩
  updatedAt := ⟨flag.updatedAt, rfl, updated⟩
  offVariant := rfl
  rules := ⟨_, rfl, forall₂_toJson ruleOf_toJson flag.rules⟩
  variants := ⟨_, rfl, forall₂_toJson variantOf_toJson flag.variants⟩

theorem rulesetBody_ascii (ruleset : List Flag) :
    ∃ c s, rulesetBody (ruleset.map flagPayload) = ch '[' :: c :: s ∧ 0 < c.val ∧ c.val < 0x80 := by
  cases ruleset with
  | nil => exact ⟨ch ']', [], rfl, by decide⟩
  | cons flag rest => cases rest <;> exact ⟨ch '\x7b', _, rfl, by decide⟩

/-- What the server answers is an array of entries, and a client takes it over. -/
theorem refresh_ruleset {ruleset : List Flag} {content : List Byte}
    (encodes : encode (rulesetBody (ruleset.map flagPayload)) = some content)
    (readable : ∀ flag ∈ ruleset, ∀ leaf ∈ flag.toFlagOut.toJson.leaves, Readable leaf)
    (stamped : ∀ flag ∈ ruleset, IsDateTime flag.createdAt ∧ IsDateTime flag.updatedAt) (flags : RawFlags) :
    refresh flags (.answered ⟨200, content⟩) = installed (ruleset.map fun flag => toSpec flag.toFlagOut) := by
  obtain ⟨c, s, starts, ascii⟩ := rulesetBody_ascii ruleset
  have decoded : decodeText content = some (rulesetBody (ruleset.map flagPayload)) := by
    rw [starts] at encodes ⊢
    exact decodeText_encode (by decide) ascii encodes
  have parsed : Json.parse (rulesetBody (ruleset.map flagPayload)) =
      some (.arr (ruleset.map fun flag => flag.toFlagOut.toJson)) := by
    have loaded := loads_rulesetBody ruleset
    unfold loads at loaded
    split at loaded <;> cases loaded
    assumption
  have leaves : ∀ leaf ∈ (Json.arr (ruleset.map fun flag => flag.toFlagOut.toJson)).leaves, Readable leaf := by
    intro leaf inside
    obtain ⟨item, member, inside⟩ := Json.mem_leaves_arr.mp inside
    obtain ⟨flag, listed, rfl⟩ := List.mem_map.mp member
    exact readable flag listed leaf inside
  have read : (Outcome.answered ⟨200, content⟩).body? =
      some (.arr (ruleset.map fun flag => flag.toFlagOut.toJson)) := by
    have json : jsonBody content = .ok (.arr (ruleset.map fun flag => flag.toFlagOut.toJson)) := by
      simp only [jsonBody, decoded, parsed, if_pos leaves]
    rw [Outcome.body?, if_pos (show 200 ≤ 200 ∧ 200 < 300 by decide), json]
    rfl
  refine refresh_entries read ⟨_, rfl, ?_⟩
  rw [List.forall₂_map_left_iff, List.forall₂_map_right_iff]
  exact List.forall₂_same.mpr fun flag listed => entryOf_toJson (stamped flag listed).1 (stamped flag listed).2

end Served

/-- A refresh is all-or-nothing from every client state exactly for the outcomes that let nothing slip through;
    and a client that has seen no other outcome holds typed specs. -/
theorem refresh_allOrNothing_iff (outcome : Outcome) (outcomes : List Outcome) :
    ((∀ flags, AllOrNothing flags outcome) ↔ ¬ Slips outcome) ∧
      ((∀ outcome ∈ outcomes, ¬ Slips outcome) →
        ∃ typed : SdkFlags,
          ∀ key, (outcomes.foldl refresh []).get? key = (typed.lookup key).map FlagSpec.raw) := by
  constructor
  · constructor
    · intro always slips
      obtain ⟨flags, broken⟩ := not_allOrNothing_of_slips slips
      exact broken (always flags)
    · exact fun kept => allOrNothing_of_not_slips kept
  · intro kept
    have held : ∃ specs, outcomes.foldl refresh [] = installed specs := by
      induction outcomes using List.reverseRecOn with
      | nil => exact ⟨[], rfl⟩
      | append_singleton outcomes outcome ih =>
        obtain ⟨specs, before⟩ := ih fun earlier member => kept earlier (List.mem_append_left _ member)
        rw [List.foldl_append, before]
        exact (allOrNothing_of_not_slips (kept outcome (by simp)) (installed specs)).installed
    obtain ⟨specs, held⟩ := held
    exact ⟨specMap specs, fun key => by rw [held, installed_get?]⟩

def emptyObject : Outcome := .answered ⟨200, [0x7B, 0x7D]⟩

theorem emptyObject_empties :
    refresh (installed [toSpec bannerFlag]) emptyObject = [] ∧
      ¬ AllOrNothing (installed [toSpec bannerFlag]) emptyObject := by
  have read : emptyObject.body? = some (.obj []) := by decide +kernel
  have empties : refresh (installed [toSpec bannerFlag]) emptyObject = [] := by
    rw [refresh_eq, read]
    rfl
  refine ⟨empties, ?_⟩
  rintro (kept | ⟨body, also, specs, ⟨items, rfl, _⟩, _⟩)
  · rw [empties] at kept
    cases kept
  · rw [read] at also
    cases also

end Ripcord
