import Ripcord.StoredFlags

namespace Ripcord

open Foundation

/-! What the columns ask of a request beyond its schema. -/

def TargetingRuleIn.Fits (rule : TargetingRuleIn) : Prop :=
  Storable rule.attr ∧ (∀ s ∈ rule.values, Storable s) ∧ FitsInteger rule.priority
  deriving Decidable

def RulesFit (rules : List TargetingRuleIn) : Prop := ∀ rule ∈ rules, rule.Fits
  deriving Decidable

def ValuesFit (variants : List VariantIn) : Prop := ∀ v ∈ variants, FitsJsonb v.value
  deriving Decidable

def FlagCreate.Fits (data : FlagCreate) : Prop :=
  Storable data.name ∧ (∀ s ∈ data.description, Storable s) ∧ RulesFit data.rules ∧ ValuesFit data.variants
  deriving Decidable

def FlagUpdate.ChildrenFit (data : FlagUpdate) : Prop :=
  (∀ rules ∈ data.rules.get?, RulesFit rules) ∧ ∀ variants ∈ data.variants.get?, ValuesFit variants
  deriving Decidable

section Texts

theorem isKeyTail_storable {c : CodePoint} (tail : isKeyTail c) : ¬ IsSurrogate c ∧ c ≠ 0 := by
  have ascii : c.val ≤ 0x7A ∧ 0x2D ≤ c.val := by
    simp only [isKeyTail, isKeyHead, Bool.decide_or, Bool.or_eq_true, decide_eq_true_eq, Fin.le_def,
      Fin.ext_iff] at tail
    have chars : (ch 'a').val = 0x61 ∧ (ch 'z').val = 0x7A ∧ (ch '0').val = 0x30 ∧ (ch '9').val = 0x39 ∧
        (ch '.').val = 0x2E ∧ (ch '_').val = 0x5F ∧ (ch '-').val = 0x2D := by decide
    omega
  constructor
  · intro surrogate
    unfold IsSurrogate at surrogate
    omega
  · rintro rfl
    exact absurd ascii.2 (by decide)

theorem MatchesKeyPattern.storable {key : Str} (pattern : MatchesKeyPattern key) : Storable key := by
  have tails : ∀ c ∈ key, isKeyTail c := by
    cases key with
    | nil => intro c none; cases none
    | cons head rest =>
      intro c member
      rcases List.mem_cons.mp member with rfl | later
      · simp [isKeyTail, pattern.1]
      · exact pattern.2 c later
  exact ⟨fun c member => (isKeyTail_storable (tails c member)).1,
    fun nul => (isKeyTail_storable (tails 0 nul)).2 rfl⟩

end Texts

section Rows

end Rows

section Creation

variable {db : Database} {supply : Supply} {data : FlagCreate} {actor : Str}

end Creation

section Update

variable {seen db : Database} {supply : Supply} {flag : Flag} {data : FlagUpdate} {key actor : Str}

theorem Flag.RowValid.load {row : Flag} (valid : row.RowValid) : row.load.RowValid := by
  have distinct := valid.load_variants
  obtain ⟨fits, ⟨rules, variants⟩, rollout, _, weights⟩ := valid
  have children : row.load.ChildrenFit :=
    ⟨fun rule member => rules rule (mem_sortOn.mp member), fun v member => variants v (mem_sortOn.mp member)⟩
  exact ⟨fits, children, rollout, distinct, fun v member => weights v (mem_sortOn.mp member)⟩

end Update

def TargetingRule.input (rule : TargetingRule) : TargetingRuleIn :=
  { attr := rule.attr, operator := rule.operator, values := rule.values, priority := rule.priority,
    variant := rule.variant }

def Variant.input (v : Variant) : VariantIn := { key := v.key, value := v.value, weight := v.weight }

end Ripcord
