import Ripcord.Foundation.Str
import Mathlib.InformationTheory.Coding.UniquelyDecodable

namespace Foundation

section Codes

variable {α β : Type*} {code : α → List β}

/-- No code word is empty or begins another symbol's. -/
structure PrefixFree (code : α → List β) : Prop where
  nonempty : ∀ a, code a ≠ []
  unique : ∀ a b, code a <+: code b → a = b

theorem PrefixFree.injective (free : PrefixFree code) : Function.Injective code := by
  intro a b same
  exact free.unique a b (same ▸ List.prefix_rfl)

theorem PrefixFree.append_inj (free : PrefixFree code) {a b : α} {s t : List β} (same : code a ++ s = code b ++ t) :
    a = b ∧ s = t := by
  have first : code a <+: code a ++ s := List.prefix_append _ _
  have second : code b <+: code a ++ s := same ▸ List.prefix_append _ _
  have equal : a = b := by
    rcases List.prefix_or_prefix_of_prefix first second with begins | begins
    · exact free.unique a b begins
    · exact (free.unique b a begins).symm
  subst equal
  exact ⟨rfl, List.append_cancel_left same⟩

theorem PrefixFree.uniquelyDecodable (free : PrefixFree code) :
    InformationTheory.UniquelyDecodable (Set.range code) := by
  intro first
  induction first with
  | nil =>
    intro second _ words same
    cases second with
    | nil => rfl
    | cons word rest =>
      obtain ⟨a, rfl⟩ := words word List.mem_cons_self
      have empty : code a = [] := (List.append_eq_nil_iff.mp same.symm).1
      exact absurd empty (free.nonempty a)
  | cons word first ih =>
    intro second words others same
    obtain ⟨a, rfl⟩ := words word List.mem_cons_self
    cases second with
    | nil => exact absurd (List.append_eq_nil_iff.mp same).1 (free.nonempty a)
    | cons word second =>
      obtain ⟨b, rfl⟩ := others word List.mem_cons_self
      obtain ⟨rfl, later⟩ := free.append_inj same
      rw [ih second (fun w member => words w (List.mem_cons_of_mem _ member))
        (fun w member => others w (List.mem_cons_of_mem _ member)) later]

theorem PrefixFree.flatMap_injective (free : PrefixFree code) :
    Function.Injective fun symbols : List α => symbols.flatMap code := by
  intro s t same
  have words (symbols : List α) : ∀ w ∈ symbols.map code, w ∈ Set.range code := by
    intro w member
    obtain ⟨a, _, rfl⟩ := List.mem_map.mp member
    exact ⟨a, rfl⟩
  have flat : (s.map code).flatten = (t.map code).flatten := by
    rw [← List.flatMap_def, ← List.flatMap_def]
    exact same
  have decoded := free.uniquelyDecodable (s.map code) (t.map code) (words s) (words t) flat
  exact List.map_injective_iff.mpr free.injective decoded

end Codes

theorem utf8Point_ne_nil (c : CodePoint) : utf8Point c ≠ [] := by
  unfold utf8Point
  simp only
  split_ifs <;> simp

/-- The first byte says how many there are, and between sequences of one length the code points are told
    apart by their digits in base 64. -/
theorem utf8Point_unique {c d : CodePoint} (begins : utf8Point c <+: utf8Point d) : c = d := by
  have hc := c.isLt
  have hd := d.isLt
  apply Fin.ext
  unfold utf8Point at begins
  simp only at begins
  split_ifs at begins <;>
    simp only [List.cons_prefix_cons, List.prefix_nil, List.nil_prefix, Fin.ext_iff, Fin.val_ofNat, reduceCtorEq,
      and_true, and_false] at begins <;>
    omega

theorem utf8Point_prefixFree : PrefixFree utf8Point := ⟨utf8Point_ne_nil, fun _ _ => utf8Point_unique⟩

theorem encode_eq_some {s : Str} {bytes : List Byte} :
    encode s = some bytes ↔ IsUnicode s ∧ s.flatMap utf8Point = bytes := by
  unfold encode
  split <;> simp_all

theorem encode_inj {s t : Str} {bytes : List Byte} (first : encode s = some bytes) (second : encode t = some bytes) :
    s = t := by
  have same := (encode_eq_some.mp first).2.trans (encode_eq_some.mp second).2.symm
  exact utf8Point_prefixFree.flatMap_injective same

end Foundation
