import Ripcord.Exceptions
import Ripcord.Foundation.Bands
import Ripcord.Foundation.JsonRoundTrip
import Ripcord.Foundation.Md5
import Ripcord.Foundation.Sorting
import Mathlib.Algebra.Order.Ring.Rat
import Mathlib.Data.List.AList
import Mathlib.Data.List.Lex

namespace Ripcord

open Foundation

def bucketCount : Nat := 10000

def variantSalt : Str := str "variant"

structure RuleSpec where
  attr : Str
  operator : Str
  values : List Str
  variant : Option Str := none
  deriving DecidableEq

/-- `value` is any JSON value; `.null` is Python's `None`. -/
structure VariantSpec where
  key : Str
  value : Json := .null
  weight : Int := 0
  deriving DecidableEq

structure FlagSpec where
  key : Str
  enabled : Bool
  rolloutPercentage : Int
  rules : List RuleSpec := []
  variants : List VariantSpec := []
  offVariant : Option Str := none
  deriving DecidableEq

def FlagSpec.isMultivariate (flag : FlagSpec) : Bool := !flag.variants.isEmpty

inductive Reason
  | flagDisabled
  | targetingMatch
  | rolloutIncluded
  | rolloutExcluded
  | flagNotFound
  deriving DecidableEq

structure Evaluation where
  enabled : Bool
  reason : Reason
  variant : Option Str := none
  value : Json := .null
  deriving DecidableEq

abbrev Context := AList fun _ : Str => Str

def bucketFor (flagKey userId salt : Str) : Except PyError Nat :=
  match encode (join [0] [flagKey, salt, userId]) with
  | some material => .ok (Md5.leadingWord material % bucketCount)
  | none => .error .unicodeEncodeError

def ruleMatches (rule : RuleSpec) (context : Context) : Bool :=
  match context.lookup rule.attr with
  | none => false
  | some actual =>
    if rule.operator = str "in" then actual ∈ rule.values
    else if rule.operator = str "not_in" then actual ∉ rule.values
    else if rule.operator = str "eq" then rule.values.head? = some actual
    else if rule.operator = str "neq" then rule.values ≠ [] ∧ rule.values.head? ≠ some actual
    else false

def inRollout (flagKey userId : Str) (rolloutPercentage : Int) : Except PyError Bool :=
  if rolloutPercentage ≤ 0 then .ok false
  else if rolloutPercentage ≥ 100 then .ok true
  else
    let threshold := rolloutPercentage * (bucketCount / 100 : Nat)
    (bucketFor flagKey userId []).map fun bucket => (bucket : Int) < threshold

def findVariant (flag : FlagSpec) : Option Str → Option VariantSpec
  | none => none
  | some key => flag.variants.find? fun v => v.key = key

/-- The loop of `choose_variant`: the first variant whose cumulative weight passes the position. -/
def chooseBand (position : Rat) : Rat → List VariantSpec → Option VariantSpec
  | _, [] => none
  | cumulative, variant :: rest =>
    if position < cumulative + variant.weight then some variant
    else chooseBand position (cumulative + variant.weight) rest

/-- Positions and cumulative weights are exact rationals here, floats in the source. -/
def chooseVariant (flag : FlagSpec) (userId : Str) : Except PyError (Option VariantSpec) :=
  if flag.variants = [] then .ok none
  else
    let ordered := sortOn VariantSpec.key flag.variants
    let total := (ordered.map VariantSpec.weight).sum
    if total ≤ 0 then .ok ordered.head?
    else
      (bucketFor flag.key userId variantSalt).map fun bucket =>
        let position : Rat := bucket * total / bucketCount
        (chooseBand position 0 ordered).or ordered.getLast?

def offResult (flag : FlagSpec) (reason : Reason) : Evaluation :=
  match findVariant flag flag.offVariant with
  | none => { enabled := false, reason }
  | some off => { enabled := false, reason, variant := off.key, value := off.value }

def chosenResult (reason : Reason) : Option VariantSpec → Evaluation
  | none => { enabled := true, reason }
  | some chosen => { enabled := true, reason, variant := chosen.key, value := chosen.value }

def ruleResult (flag : FlagSpec) (pin : Option Str) (userId : Str) : Except PyError Evaluation :=
  match findVariant flag pin with
  | some pinned =>
    .ok { enabled := true, reason := .targetingMatch, variant := pinned.key, value := pinned.value }
  | none =>
    if flag.isMultivariate then (chooseVariant flag userId).map (chosenResult .targetingMatch)
    else .ok { enabled := true, reason := .targetingMatch }

def rolloutResult (flag : FlagSpec) (userId : Str) : Except PyError Evaluation :=
  (inRollout flag.key userId flag.rolloutPercentage).bind fun included =>
    if included then
      if flag.isMultivariate then (chooseVariant flag userId).map (chosenResult .rolloutIncluded)
      else .ok { enabled := true, reason := .rolloutIncluded }
    else .ok (offResult flag .rolloutExcluded)

def evaluate (flag : FlagSpec) (userId : Str) (context : Option Context) : Except PyError Evaluation :=
  let context := context.getD ∅
  if !flag.enabled then .ok (offResult flag .flagDisabled)
  else
    match flag.rules.find? fun rule => ruleMatches rule context with
    | some rule => ruleResult flag rule.variant userId
    | none => rolloutResult flag userId

section Choice

variable {flag : FlagSpec} {variants : List VariantSpec} {position reached : Rat} {v : VariantSpec}

theorem chooseBand_eq_firstPassing (position reached : Rat) (variants : List VariantSpec) :
    chooseBand position reached variants = firstPassing (fun v => (v.weight : Rat)) position reached variants := by
  induction variants generalizing reached with
  | nil => rfl
  | cons v rest ih => simp only [chooseBand, firstPassing, ih]

theorem chooseBand_mem (chooses : chooseBand position reached variants = some v) : v ∈ variants := by
  rw [chooseBand_eq_firstPassing] at chooses
  exact firstPassing_mem chooses

theorem findVariant_some {key : Option Str} (found : findVariant flag key = some v) :
    v ∈ flag.variants ∧ key = some v.key := by
  cases key with
  | none => cases found
  | some key =>
    have same : v.key = key := by simpa using List.find?_some found
    exact ⟨List.mem_of_find?_eq_some found, congrArg some same.symm⟩

theorem chooseVariant_boolean (boolean : flag.variants = []) (userId : Str) : chooseVariant flag userId = .ok none := by
  rw [chooseVariant, if_pos boolean]

theorem chooseVariant_mem {userId : Str} (chooses : chooseVariant flag userId = .ok (some v)) :
    v ∈ flag.variants := by
  have sorted : v ∈ sortOn VariantSpec.key flag.variants ↔ v ∈ flag.variants := mem_sortOn
  rw [← sorted]
  unfold chooseVariant at chooses
  split at chooses
  · cases chooses
  · simp only at chooses
    split at chooses
    · injection chooses with first
      exact List.mem_of_head? first
    · obtain ⟨bucket, _, chosen⟩ := map_eq_ok chooses
      rcases Option.or_eq_some_iff.mp chosen with band | ⟨_, last⟩
      · exact chooseBand_mem band
      · exact List.mem_of_getLast? last

end Choice

section VariantOrder

variable {flag : FlagSpec} {variants : List VariantSpec}

theorem findVariant_perm (perm : flag.variants.Perm variants)
    (distinct : (flag.variants.map VariantSpec.key).Nodup) (key : Option Str) :
    findVariant { flag with variants } key = findVariant flag key := by
  cases key with
  | none => rfl
  | some key => exact (find?_eq_of_perm perm distinct key).symm

theorem isMultivariate_perm (perm : flag.variants.Perm variants) :
    { flag with variants }.isMultivariate = flag.isMultivariate := by
  simp only [FlagSpec.isMultivariate, perm.isEmpty_eq]

theorem chooseVariant_perm (perm : flag.variants.Perm variants)
    (distinct : (flag.variants.map VariantSpec.key).Nodup) (userId : Str) :
    chooseVariant { flag with variants } userId = chooseVariant flag userId := by
  have ordered := sortOn_eq_of_perm perm distinct
  have empty : variants = [] ↔ flag.variants = [] := by
    rw [← List.isEmpty_iff, ← List.isEmpty_iff, perm.isEmpty_eq]
  simp only [chooseVariant, ordered, empty]

theorem offResult_perm (perm : flag.variants.Perm variants)
    (distinct : (flag.variants.map VariantSpec.key).Nodup) (reason : Reason) :
    offResult { flag with variants } reason = offResult flag reason := by
  unfold offResult
  rw [findVariant_perm perm distinct]

theorem ruleResult_perm (perm : flag.variants.Perm variants)
    (distinct : (flag.variants.map VariantSpec.key).Nodup) (pin : Option Str) (userId : Str) :
    ruleResult { flag with variants } pin userId = ruleResult flag pin userId := by
  unfold ruleResult
  rw [findVariant_perm perm distinct, isMultivariate_perm perm, chooseVariant_perm perm distinct]

theorem rolloutResult_perm (perm : flag.variants.Perm variants)
    (distinct : (flag.variants.map VariantSpec.key).Nodup) (userId : Str) :
    rolloutResult { flag with variants } userId = rolloutResult flag userId := by
  unfold rolloutResult
  rw [isMultivariate_perm perm, chooseVariant_perm perm distinct, offResult_perm perm distinct]

/-- The order in which a flag's variants are stored is invisible to every evaluation. -/
theorem evaluate_variants_perm (perm : flag.variants.Perm variants)
    (distinct : (flag.variants.map VariantSpec.key).Nodup) (userId : Str) (context : Option Context) :
    evaluate { flag with variants } userId context = evaluate flag userId context := by
  unfold evaluate
  rw [offResult_perm perm distinct, rolloutResult_perm perm distinct]
  simp only [ruleResult_perm perm distinct]

end VariantOrder

section Total

variable {flag : FlagSpec} {userId : Str}

theorem bucketFor_ok {flagKey : Str} (salt : Str) (key : IsUnicode flagKey) (user : IsUnicode userId)
    (salted : IsUnicode salt) : ∃ bucket, bucketFor flagKey userId salt = .ok bucket := by
  have separator : IsUnicode [0] := by decide
  have unicode : IsUnicode (join [0] [flagKey, salt, userId]) :=
    (key.append separator).append ((salted.append separator).append user)
  obtain ⟨material, encoded⟩ := Option.isSome_iff_exists.mp ((encode_isSome _).mpr unicode)
  exact ⟨Md5.leadingWord material % bucketCount, by simp only [bucketFor, encoded]⟩

theorem chooseVariant_ok (key : IsUnicode flag.key) (user : IsUnicode userId) :
    ∃ chosen, chooseVariant flag userId = .ok chosen := by
  obtain ⟨bucket, hashed⟩ := bucketFor_ok variantSalt key user (by decide)
  unfold chooseVariant
  split
  · exact ⟨_, rfl⟩
  · simp only [hashed, Except.map]
    split <;> exact ⟨_, rfl⟩

theorem inRollout_ok {flagKey : Str} (key : IsUnicode flagKey) (user : IsUnicode userId) (percentage : Int) :
    ∃ included, inRollout flagKey userId percentage = .ok included := by
  obtain ⟨bucket, hashed⟩ := bucketFor_ok [] key user (by decide)
  simp only [inRollout, hashed, Except.map]
  split
  · exact ⟨_, rfl⟩
  · split <;> exact ⟨_, rfl⟩

theorem ruleResult_ok (key : IsUnicode flag.key) (user : IsUnicode userId) (pin : Option Str) :
    ∃ evaluation, ruleResult flag pin userId = .ok evaluation := by
  obtain ⟨chosen, chooses⟩ := chooseVariant_ok key user
  simp only [ruleResult, chooses, Except.map]
  split
  · exact ⟨_, rfl⟩
  · split <;> exact ⟨_, rfl⟩

theorem rolloutResult_ok (key : IsUnicode flag.key) (user : IsUnicode userId) :
    ∃ evaluation, rolloutResult flag userId = .ok evaluation := by
  obtain ⟨chosen, chooses⟩ := chooseVariant_ok key user
  obtain ⟨included, rolls⟩ := inRollout_ok key user flag.rolloutPercentage
  simp only [rolloutResult, rolls, Except.bind, chooses, Except.map]
  split
  · split <;> exact ⟨_, rfl⟩
  · exact ⟨_, rfl⟩

theorem evaluate_ok (key : IsUnicode flag.key) (user : IsUnicode userId) (context : Option Context) :
    ∃ evaluation, evaluate flag userId context = .ok evaluation := by
  simp only [evaluate]
  split
  · exact ⟨_, rfl⟩
  · split
    · exact ruleResult_ok key user _
    · exact rolloutResult_ok key user

end Total

section Reasons

variable {flag : FlagSpec} {userId : Str} {evaluation : Evaluation}

@[simp] theorem offResult_reason (flag : FlagSpec) (reason : Reason) : (offResult flag reason).reason = reason := by
  unfold offResult
  split <;> rfl

@[simp] theorem chosenResult_reason (reason : Reason) (chosen : Option VariantSpec) :
    (chosenResult reason chosen).reason = reason := by
  cases chosen <;> rfl

theorem map_chosenResult_reason {reason : Reason} {choice : Except PyError (Option VariantSpec)}
    (gives : choice.map (chosenResult reason) = .ok evaluation) : evaluation.reason = reason := by
  obtain ⟨chosen, _, rfl⟩ := map_eq_ok gives
  exact chosenResult_reason reason chosen

theorem ruleResult_reason {pin : Option Str} (gives : ruleResult flag pin userId = .ok evaluation) :
    evaluation.reason = .targetingMatch := by
  unfold ruleResult at gives
  split at gives
  · cases gives
    rfl
  · split at gives
    · exact map_chosenResult_reason gives
    · cases gives
      rfl

theorem rolloutResult_reason (gives : rolloutResult flag userId = .ok evaluation) :
    evaluation.reason = .rolloutIncluded ∨ evaluation.reason = .rolloutExcluded := by
  unfold rolloutResult at gives
  obtain ⟨included, _, gives⟩ := bind_eq_ok gives
  split at gives
  · left
    split at gives
    · exact map_chosenResult_reason gives
    · cases gives
      rfl
  · right
    cases gives
    exact offResult_reason _ _

theorem evaluate_reason {context : Option Context} (gives : evaluate flag userId context = .ok evaluation) :
    evaluation.reason ≠ .flagNotFound := by
  simp only [evaluate] at gives
  split at gives
  · cases gives
    simp
  · split at gives
    · simp [ruleResult_reason gives]
    · rcases rolloutResult_reason gives with reason | reason <;> simp [reason]

end Reasons

end Ripcord
