import Ripcord.Foundation.RowWrites
import Ripcord.RulePriority

namespace Ripcord

open Foundation

/-! `_apply_variants` loop by loop, on the collection as each assignment leaves it. -/

/-- The first loop runs over a copy of the rows and removes from the collection. -/
def removeUnwanted (wanted : List VariantIn) (variants : List Variant) (existing : List Variant) : List Variant :=
  existing.foldl (fun variants row =>
    if row.key ∉ wanted.map VariantIn.key then variants.erase row else variants) variants

def VariantIn.assignTo (v : VariantIn) (row : Variant) : Variant := { row with value := v.value, weight := v.weight }

def VariantIn.toRow (v : VariantIn) (id : Nat) : Variant := { id, key := v.key, value := v.value, weight := v.weight }

def mergeWanted (ids : Nat → Nat) (existing : List Variant) : Nat → List Variant → List VariantIn → List Variant
  | _, variants, [] => variants
  | created, variants, v :: rest =>
    if v.key ∈ existing.map Variant.key then
      mergeWanted ids existing created
        (variants.map fun row => if row.key = v.key then v.assignTo row else row) rest
    else mergeWanted ids existing (created + 1) (variants ++ [v.toRow (ids created)]) rest

def applyVariantsInPlace (ids : Nat → Nat) (rows : List Variant) (incoming : List VariantIn) : List Variant :=
  let wanted := wantedVariants incoming
  mergeWanted ids rows 0 (removeUnwanted wanted rows rows) wanted

section Loops

variable {ids : Nat → Nat} {rows : List Variant} {incoming wanted : List VariantIn}

theorem removeUnwanted_eq_filter {variants existing : List Variant} (distinct : variants.Nodup) :
    removeUnwanted wanted variants existing =
      variants.filter fun row => row ∉ existing ∨ row.key ∈ wanted.map VariantIn.key := by
  induction existing generalizing variants with
  | nil => simp [removeUnwanted]
  | cons first rest ih =>
    by_cases kept : first.key ∈ wanted.map VariantIn.key
    · have step := ih distinct
      rw [removeUnwanted, List.foldl_cons, if_neg (not_not.mpr kept)]
      refine step.trans (List.filter_congr fun row _ => ?_)
      by_cases same : row = first
      · simp [same, kept]
      · simp [same]
    · have step := ih (distinct.erase first)
      rw [removeUnwanted, List.foldl_cons, if_pos kept]
      refine step.trans ?_
      rw [distinct.erase_eq_filter, List.filter_filter]
      refine List.filter_congr fun row _ => ?_
      by_cases same : row = first
      · simp [same, kept]
      · simp [same]

def settle (rows : List Variant) (wanted : List VariantIn) (row : Variant) : Variant :=
  if row.key ∈ rows.map Variant.key then
    ((wanted.find? fun v => v.key = row.key).map fun v => v.assignTo row).getD row
  else row

theorem settle_cons {v : VariantIn} (existing : v.key ∈ rows.map Variant.key)
    (once : v.key ∉ wanted.map VariantIn.key) (row : Variant) :
    settle rows wanted (if row.key = v.key then v.assignTo row else row) = settle rows (v :: wanted) row := by
  by_cases same : row.key = v.key
  · have absent : wanted.find? (fun w => w.key = v.key) = none := by
      simp only [List.find?_eq_none, decide_eq_true_eq]
      exact fun w member equal => once (equal ▸ List.mem_map_of_mem member)
    have assigned : (v.assignTo row).key = v.key := same
    rw [if_pos same, settle, settle, assigned, same, if_pos existing, if_pos existing, absent]
    simp
  · rw [if_neg same, settle, settle, List.find?_cons_of_neg (by simpa using Ne.symm same)]

theorem settle_cons_new {v : VariantIn} (new : v.key ∉ rows.map Variant.key) (row : Variant) :
    settle rows (v :: wanted) row = settle rows wanted row := by
  unfold settle
  split
  · rename_i existing
    have other : v.key ≠ row.key := fun same => new (same ▸ existing)
    rw [List.find?_cons_of_neg (by simpa using other)]
  · rfl

theorem mergeWanted_eq (created : Nat) (variants : List Variant) (distinct : (wanted.map VariantIn.key).Nodup) :
    mergeWanted ids rows created variants wanted =
      variants.map (settle rows wanted) ++
        (wanted.filter fun v => v.key ∉ rows.map Variant.key).mapIdx fun i v => v.toRow (ids (created + i)) := by
  induction wanted generalizing created variants with
  | nil =>
    have same : settle rows [] = fun row => row := by
      funext row
      simp [settle]
    simp [mergeWanted, same]
  | cons v rest ih =>
    rw [List.map_cons, List.nodup_cons] at distinct
    by_cases existing : v.key ∈ rows.map Variant.key
    · rw [mergeWanted, if_pos existing, ih _ _ distinct.2, List.map_map,
        List.filter_cons_of_neg (by simpa using existing)]
      congr 1
      apply List.map_congr_left
      intro row _
      exact settle_cons existing distinct.1 row
    · have appended : settle rows rest (v.toRow (ids created)) = v.toRow (ids created) := if_neg existing
      have shift : ∀ i, created + 1 + i = created + (i + 1) := fun i => by omega
      rw [mergeWanted, if_neg existing, ih _ _ distinct.2, List.map_append, List.map_singleton, appended,
        List.filter_cons_of_pos (by simpa using existing), List.mapIdx_cons, List.append_assoc]
      congr 1
      · apply List.map_congr_left
        intro row _
        exact (settle_cons_new existing row).symm
      · simp only [shift, add_zero, List.singleton_append]

/-- The loops leave what the model of `update_flag` assigns. -/
theorem applyVariantsInPlace_eq (stored : (rows.map Variant.key).Nodup)
    (distinct : (incoming.map VariantIn.key).Nodup) :
    applyVariantsInPlace ids rows incoming = applyVariants ids rows incoming := by
  have keys : ((wantedVariants incoming).map VariantIn.key).Nodup := by rwa [wantedVariants_of_distinct distinct]
  simp only [applyVariantsInPlace, applyVariants, removeUnwanted_eq_filter stored.of_map, mergeWanted_eq _ _ keys,
    zero_add]
  congr 1
  rw [← List.filterMap_eq_map, List.filterMap_filter]
  refine List.filterMap_congr fun row stored => ?_
  have existing : row.key ∈ rows.map Variant.key := List.mem_map_of_mem stored
  cases found : (wantedVariants incoming).find? fun v => v.key = row.key with
  | none =>
    have gone : row.key ∉ (wantedVariants incoming).map VariantIn.key := by
      intro kept
      obtain ⟨v, member, same⟩ := List.mem_map.mp kept
      simpa [same] using List.find?_eq_none.mp found v member
    simp [stored, gone]
  | some v =>
    have kept : row.key ∈ (wantedVariants incoming).map VariantIn.key := by
      have same : v.key = row.key := by simpa using List.find?_some found
      exact same ▸ List.mem_map_of_mem (List.mem_of_find?_eq_some found)
    have settled : settle rows (wantedVariants incoming) row = v.assignTo row := by
      rw [settle, if_pos existing, found]
      rfl
    simp [kept, settled, VariantIn.assignTo]

end Loops

section Rows

variable {ids : Nat → Nat} {rows : List Variant} {incoming : List VariantIn} {merged : Variant}

def newVariants (rows : List Variant) (incoming : List VariantIn) : List VariantIn :=
  incoming.filter fun v => v.key ∉ rows.map Variant.key

theorem mem_applyVariants (distinct : (incoming.map VariantIn.key).Nodup) :
    merged ∈ applyVariants ids rows incoming ↔
      (∃ row ∈ rows, ∃ v ∈ incoming, v.key = row.key ∧ merged = v.assignTo row) ∨
        ∃ (i : Nat) (v : VariantIn), (newVariants rows incoming)[i]? = some v ∧ merged = v.toRow (ids i) := by
  simp only [applyVariants, wantedVariants_of_distinct distinct, List.mem_append, List.mem_filterMap,
    Option.map_eq_some_iff]
  apply or_congr
  · constructor
    · rintro ⟨row, stored, v, found, rfl⟩
      exact ⟨row, stored, v, List.mem_of_find?_eq_some found, by simpa using List.find?_some found, rfl⟩
    · rintro ⟨row, stored, v, member, same, rfl⟩
      exact ⟨row, stored, v, (find?_key_eq_some distinct).mpr ⟨member, same⟩, rfl⟩
  · rw [variantsFromInput, List.mem_mapIdx]
    constructor
    · rintro ⟨i, inside, rfl⟩
      exact ⟨i, _, List.getElem?_eq_getElem inside, rfl⟩
    · rintro ⟨i, v, here, rfl⟩
      obtain ⟨inside, rfl⟩ := List.getElem?_eq_some_iff.mp here
      exact ⟨i, inside, rfl⟩

/-- `variants.id` is a primary key that a sequence feeds, and a sequence gives no id twice. -/
structure KeysGenerated (ids : Nat → Nat) (rows : List Variant) : Prop where
  stored : (rows.map Variant.id).Nodup
  fresh : ∀ i, ids i ∉ rows.map Variant.id
  once : Function.Injective ids

theorem applyVariants_keys (stored : (rows.map Variant.key).Nodup) (distinct : (incoming.map VariantIn.key).Nodup) :
    ((applyVariants ids rows incoming).map Variant.key).Nodup := by
  have keys := (applyVariants_perm ids stored distinct).map VariantSpec.key
  rw [List.map_map, List.map_map] at keys
  exact keys.nodup_iff.mpr distinct

theorem variant_origin (distinct : (incoming.map VariantIn.key).Nodup)
    (member : merged ∈ rows ∨ merged ∈ applyVariants ids rows incoming) :
    (∃ row ∈ rows, merged.id = row.id ∧ merged.key = row.key) ∨
      ∃ (i : Nat) (v : VariantIn), (newVariants rows incoming)[i]? = some v ∧ merged.id = ids i ∧
        merged.key = v.key := by
  rcases member with old | held
  · exact .inl ⟨merged, old, rfl, rfl⟩
  · rcases (mem_applyVariants distinct).mp held with ⟨row, old, v, _, _, rfl⟩ | ⟨i, v, here, rfl⟩
    · exact .inl ⟨row, old, rfl, rfl⟩
    · exact .inr ⟨i, v, here, rfl, rfl⟩

theorem newVariants_index (distinct : (incoming.map VariantIn.key).Nodup) {i j : Nat} {v w : VariantIn}
    (at_i : (newVariants rows incoming)[i]? = some v) (at_j : (newVariants rows incoming)[j]? = some w)
    (same : v.key = w.key) : i = j := by
  have keys : ((newVariants rows incoming).map VariantIn.key).Nodup :=
    distinct.sublist (List.filter_sublist.map _)
  have inside : i < ((newVariants rows incoming).map VariantIn.key).length := by
    rw [List.length_map]
    exact (List.getElem?_eq_some_iff.mp at_i).1
  apply (List.getElem?_inj inside keys).mp
  rw [List.getElem?_map, List.getElem?_map, at_i, at_j, Option.map_some, Option.map_some, same]

theorem newVariants_new {v : VariantIn} {i : Nat} (here : (newVariants rows incoming)[i]? = some v) :
    v ∈ incoming ∧ v.key ∉ rows.map Variant.key := by
  have member := List.mem_of_getElem? here
  simpa [newVariants] using member

theorem variant_same_row (stored : (rows.map Variant.key).Nodup) (distinct : (incoming.map VariantIn.key).Nodup)
    (a b : Variant) (fromA : a ∈ rows ∨ a ∈ applyVariants ids rows incoming)
    (fromB : b ∈ rows ∨ b ∈ applyVariants ids rows incoming) (same : a.key = b.key) : a.id = b.id := by
  rcases variant_origin distinct fromA with ⟨row, old, idA, keyA⟩ | ⟨i, v, at_i, idA, keyA⟩
  · rcases variant_origin distinct fromB with ⟨other, also, idB, keyB⟩ | ⟨j, w, at_j, idB, keyB⟩
    · have one := List.inj_on_of_nodup_map stored old also (keyA.symm.trans (same.trans keyB))
      rw [idA, idB, one]
    · have new := (newVariants_new at_j).2
      exact absurd (List.mem_map_of_mem old) (keyA.symm.trans (same.trans keyB) ▸ new)
  · rcases variant_origin distinct fromB with ⟨other, also, idB, keyB⟩ | ⟨j, w, at_j, idB, keyB⟩
    · have new := (newVariants_new at_i).2
      exact absurd (List.mem_map_of_mem also) (keyB.symm.trans (same.symm.trans keyA) ▸ new)
    · rw [idA, idB, newVariants_index distinct at_i at_j (keyA.symm.trans (same.trans keyB))]

theorem applyVariants_ids (stored : (rows.map Variant.key).Nodup) (distinct : (incoming.map VariantIn.key).Nodup)
    (generated : KeysGenerated ids rows) : ((applyVariants ids rows incoming).map Variant.id).Nodup := by
  refine List.Nodup.map_on ?_ (applyVariants_keys stored distinct).of_map
  intro a heldA b heldB same
  apply List.inj_on_of_nodup_map (applyVariants_keys stored distinct) heldA heldB
  rcases variant_origin distinct (.inr heldA) with ⟨row, old, idA, keyA⟩ | ⟨i, v, at_i, idA, keyA⟩
  · rcases variant_origin distinct (.inr heldB) with ⟨other, also, idB, keyB⟩ | ⟨j, w, _, idB, _⟩
    · have one := List.inj_on_of_nodup_map generated.stored old also (idA.symm.trans (same.trans idB))
      rw [keyA, keyB, one]
    · exact absurd (List.mem_map_of_mem old) (idA.symm.trans (same.trans idB) ▸ generated.fresh j)
  · rcases variant_origin distinct (.inr heldB) with ⟨other, also, idB, _⟩ | ⟨j, w, at_j, idB, keyB⟩
    · exact absurd (List.mem_map_of_mem also) (idB.symm.trans (same.symm.trans idA) ▸ generated.fresh i)
    · have index := generated.once (idA.symm.trans (same.trans idB))
      rw [index, at_j] at at_i
      cases at_i
      rw [keyA, keyB]

end Rows

/-- What merging a variant set into the rows of a flag is to leave, and what writing it may do on the way. -/
structure MergesExactly (ids : Nat → Nat) (rows : List Variant) (incoming : List VariantIn)
    (merged : List Variant) : Prop where
  contents : (merged.map Variant.toSpec).Perm (incoming.map VariantIn.toSpec)
  /-- A key present before and after keeps its row, with the value and the weight sent for it. -/
  keeps : ∀ row ∈ rows, ∀ v ∈ incoming, v.key = row.key → v.assignTo row ∈ merged
  removes : ∀ row ∈ rows, row.key ∉ incoming.map VariantIn.key → row.id ∉ merged.map Variant.id
  adds : ∀ v ∈ incoming, v.key ∉ rows.map Variant.key →
    ∃ i, v.toRow (ids i) ∈ merged ∧ ids i ∉ rows.map Variant.id
  distinct : (merged.map Variant.key).Nodup ∧ (merged.map Variant.id).Nodup
  /-- The statements that write it, in any order, never store a key twice, and together store the merged rows. -/
  written : ∀ writes : List (RowWrite Variant Nat), writes.Perm (writesBetween Variant.id rows merged) →
    (∀ n, ((executeAll Variant.id rows (writes.take n)).map Variant.key).Nodup) ∧
      (executeAll Variant.id rows writes).Perm merged

theorem applyVariantsInPlace_exact {ids : Nat → Nat} {rows : List Variant} {incoming : List VariantIn}
    (stored : (rows.map Variant.key).Nodup) (distinct : (incoming.map VariantIn.key).Nodup)
    (generated : KeysGenerated ids rows) :
    MergesExactly ids rows incoming (applyVariantsInPlace ids rows incoming) := by
  rw [applyVariantsInPlace_eq stored distinct]
  have held := applyVariants_ids stored distinct generated
  constructor
  · exact applyVariants_perm ids stored distinct
  · intro row old v sent same
    exact (mem_applyVariants distinct).mpr (.inl ⟨row, old, v, sent, same, rfl⟩)
  · intro row old dropped kept
    obtain ⟨merged, member, same⟩ := List.mem_map.mp kept
    rcases (mem_applyVariants distinct).mp member with ⟨other, also, v, sent, named, rfl⟩ | ⟨i, v, _, rfl⟩
    · have one : other = row := List.inj_on_of_nodup_map generated.stored also old same
      exact dropped (one ▸ named ▸ List.mem_map_of_mem sent)
    · have taken : ids i = row.id := same
      exact generated.fresh i (taken ▸ List.mem_map_of_mem old)
  · intro v sent new
    have listed : v ∈ newVariants rows incoming := by simpa [newVariants] using ⟨sent, by simpa using new⟩
    obtain ⟨i, here⟩ := List.mem_iff_getElem?.mp listed
    exact ⟨i, (mem_applyVariants distinct).mpr (.inr ⟨i, v, here, rfl⟩), generated.fresh i⟩
  · exact ⟨applyVariants_keys stored distinct, held⟩
  · intro writes perm
    refine ⟨fun n => ?_, executeAll_perm generated.stored held perm⟩
    exact executeAll_unique Variant.key generated.stored held (variant_same_row stored distinct) perm n

def reshaped : List VariantIn :=
  [{ key := str "blue", value := .bool true, weight := 50 }, { key := str "green", weight := 50 }]

theorem applyVariantsInPlace_exact_reshaped :
    MergesExactly (· + 10) bannerFlag.variants reshaped (applyVariantsInPlace (· + 10) bannerFlag.variants reshaped) :=
  applyVariantsInPlace_exact (by decide) (by decide)
    ⟨by decide, fun i taken => by simp [bannerFlag] at taken, fun i j same => by simpa using same⟩

example : (applyVariantsInPlace (· + 10) bannerFlag.variants reshaped).map (fun row => (row.id, row.weight)) =
    [(2, 50), (10, 50)] := by decide

end Ripcord
