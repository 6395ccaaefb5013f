import Ripcord.Foundation.Str
import Mathlib.Data.List.Forall2

namespace Ripcord

open Foundation

inductive PyError
  | unicodeEncodeError
  | unicodeDecodeError
  | overflowError
  | valueError
  | keyError (name : Str)
  | typeError
  | attributeError
  | jsonDecodeError
  | redisError
  | missingGreenlet
  /-- A field of another type than its dataclass declares. Python stores such a value unchecked and
      fails where it is first used; the typed records of this model cannot hold it. -/
  | illTyped
  deriving DecidableEq

theorem map_eq_ok {ε α β : Type*} {f : α → β} {result : Except ε α} {b : β} (gives : result.map f = .ok b) :
    ∃ a, result = .ok a ∧ f a = b := by
  cases result with
  | error => cases gives
  | ok a =>
    injection gives with same
    exact ⟨a, rfl, same⟩

theorem bind_eq_ok {ε α β : Type*} {f : α → Except ε β} {result : Except ε α} {b : β}
    (gives : result.bind f = .ok b) : ∃ a, result = .ok a ∧ f a = .ok b := by
  cases result with
  | error => cases gives
  | ok a => exact ⟨a, rfl, gives⟩

theorem exists_bind_ok {ε α β : Type} {f : α → Except ε β} {result : Except ε α} :
    (∃ b, (result >>= f) = .ok b) ↔ ∃ a, result = .ok a ∧ ∃ b, f a = .ok b := by
  cases result with
  | error => simp [Bind.bind, Except.bind]
  | ok a => simp [Bind.bind, Except.bind]

theorem mapM_eq_ok {ε α β : Type} {f : α → Except ε β} {items : List α} {results : List β} :
    items.mapM f = .ok results ↔ List.Forall₂ (fun a b => f a = .ok b) items results := by
  induction items generalizing results with
  | nil =>
    rw [List.mapM_nil, List.forall₂_nil_left_iff]
    exact ⟨fun same => by cases same; rfl, fun empty => empty ▸ rfl⟩
  | cons a items ih =>
    rw [List.mapM_cons, List.forall₂_cons_left_iff]
    constructor
    · intro gives
      obtain ⟨b, first, gives⟩ := bind_eq_ok gives
      obtain ⟨rest, later, gives⟩ := bind_eq_ok gives
      cases gives
      exact ⟨b, rest, first, ih.mp later, rfl⟩
    · rintro ⟨b, rest, first, later, rfl⟩
      rw [first, ih.mpr later]
      rfl

theorem exists_mapM_ok {ε α β : Type} {f : α → Except ε β} {items : List α} :
    (∃ results, items.mapM f = .ok results) ↔ ∀ a ∈ items, ∃ b, f a = .ok b := by
  induction items with
  | nil => simp [Pure.pure, Except.pure]
  | cons a items ih =>
    rw [List.mapM_cons, exists_bind_ok, List.forall_mem_cons, ← ih]
    constructor
    · rintro ⟨b, first, rest⟩
      obtain ⟨results, later, _⟩ := exists_bind_ok.mp rest
      exact ⟨⟨b, first⟩, results, later⟩
    · rintro ⟨⟨b, first⟩, results, later⟩
      exact ⟨b, first, exists_bind_ok.mpr ⟨results, later, _, rfl⟩⟩

theorem ok_of_any {ε α : Type} (result : Except ε α) (holds : α → Prop) [DecidablePred holds]
    (any : result.toOption.any (fun a => holds a) = true) : ∃ a, result = .ok a ∧ holds a := by
  cases result with
  | error => cases any
  | ok a => exact ⟨a, rfl, of_decide_eq_true any⟩

end Ripcord
