import Ripcord.Foundation.Shares
import Ripcord.RulesEditor
import Ripcord.VariantBands

namespace Ripcord

open Foundation

/-! The dashboard's editor of a flag's variants, and what an even split comes to for the users. -/

/-- A row of the form. Its weight is a number, which a browser holds as a double. -/
structure VariantDraft where
  key : Str
  weight : ℚ
  value : Str
  deriving DecidableEq

def draftTotal (drafts : List VariantDraft) : ℚ := drafts.foldl (fun sum d => nearestDouble (sum + d.weight)) 0

def weightsOk (drafts : List VariantDraft) : Prop := drafts = [] ∨ draftTotal drafts = 100

def enoughVariants (drafts : List VariantDraft) : Prop := drafts = [] ∨ 2 ≤ drafts.length

def balance (drafts : List VariantDraft) : List VariantDraft :=
  if drafts = [] then drafts
  else
    let each := ⌊nearestDouble (100 / drafts.length)⌋
    let remainder := 100 - each * drafts.length
    drafts.mapIdx fun i d => { d with weight := (each + if i < remainder then 1 else 0 : ℤ) }

section Save

variable (jsonParse : Str → Option Json)

/-- An empty field means null, and what `JSON.parse` refuses is kept as a string. -/
def parseValue (raw : Str) : Json :=
  if trim isJsBlank raw = [] then .null else (jsonParse (trim isJsBlank raw)).getD (.str (trim isJsBlank raw))

def VariantDraft.sent (draft : VariantDraft) : VariantIn :=
  { key := trim isJsBlank draft.key, value := parseValue jsonParse draft.value, weight := draft.weight.num }

/-- What `save` sends; none where a weight is not whole, as the schema then refuses the request. -/
def variantsBody (flag : Flag) (drafts : List VariantDraft) (offVariant : Str) : Option FlagUpdateBody :=
  if ∀ draft ∈ drafts, draft.weight.den = 1 then
    some
      { variants := .value (drafts.map (VariantDraft.sent jsonParse))
        offVariant := if offVariant = [] then .null else .value offVariant
        version := flag.version }
  else none

end Save

section Balance

variable {jsonParse : Str → Option Json} {drafts : List VariantDraft} {flag : Flag} {offVariant : Str}

theorem balance_eq (given : drafts ≠ []) :
    balance drafts = drafts.mapIdx fun i d => { d with weight := (evenShare 100 drafts.length i : ℕ) } := by
  have positive := List.length_pos_iff.mpr given
  have parts := Nat.div_add_mod 100 drafts.length
  have each := floor_nearestDouble_div (by decide : 100 < 2 ^ 26) positive
  rw [Nat.cast_ofNat] at each
  rw [balance, if_neg given, each]
  dsimp only
  congr 1
  funext i d
  have extra : ((i : ℤ) < 100 - ((100 / drafts.length : ℕ) : ℤ) * (drafts.length : ℤ)) ↔
      i < 100 % drafts.length := by
    have product : ((100 / drafts.length : ℕ) : ℤ) * (drafts.length : ℤ) =
        ((drafts.length * (100 / drafts.length) : ℕ) : ℤ) := by
      push_cast
      ring
    rw [product]
    omega
  simp only [extra, evenShare]
  generalize 100 / drafts.length = share
  split <;> simp

theorem mem_balance (given : drafts ≠ []) {draft : VariantDraft} (member : draft ∈ balance drafts) :
    ∃ i, draft.weight = (evenShare 100 drafts.length i : ℕ) := by
  rw [balance_eq given] at member
  obtain ⟨i, _, same⟩ := List.mem_mapIdx.mp member
  exact ⟨i, by rw [← same]⟩

theorem balance_weights (given : drafts ≠ []) :
    (balance drafts).map VariantDraft.weight =
      (drafts.mapIdx fun i _ => evenShare 100 drafts.length i).map fun (n : ℕ) => (n : ℚ) := by
  rw [balance_eq given]
  apply List.ext_getElem <;> simp

theorem draftTotal_balance (given : drafts ≠ []) : draftTotal (balance drafts) = 100 := by
  have total := sum_evenShare given 100
  have added := @foldl_nearestDouble 0 (drafts.mapIdx fun i _ => evenShare 100 drafts.length i) (by omega)
  have spread : draftTotal (balance drafts) =
      ((balance drafts).map VariantDraft.weight).foldl (fun sum w => nearestDouble (sum + w)) 0 := by
    rw [draftTotal, List.foldl_map]
  rw [spread, balance_weights given, List.foldl_map, ← Nat.cast_zero, added, total]
  norm_num

theorem length_balance (drafts : List VariantDraft) : (balance drafts).length = drafts.length := by
  unfold balance
  split
  · rfl
  · exact List.length_mapIdx

theorem variantsBody_balance (given : drafts ≠ []) :
    variantsBody jsonParse flag (balance drafts) offVariant = some
      { variants := .value ((balance drafts).map (VariantDraft.sent jsonParse))
        offVariant := if offVariant = [] then .null else .value offVariant
        version := flag.version } := by
  apply if_pos
  intro draft member
  obtain ⟨i, weight⟩ := mem_balance given member
  rw [weight, Rat.den_natCast]

theorem sent_balance_keys (drafts : List VariantDraft) :
    ((balance drafts).map (VariantDraft.sent jsonParse)).map VariantIn.key =
      drafts.map fun draft => trim isJsBlank draft.key := by
  unfold balance
  split
  · rename_i empty
    rw [empty]
    rfl
  · apply List.ext_getElem <;> simp [VariantDraft.sent]

theorem sent_balance_weight (given : drafts ≠ []) {v : VariantIn}
    (member : v ∈ (balance drafts).map (VariantDraft.sent jsonParse)) :
    ∃ i, v.weight = (evenShare 100 drafts.length i : ℕ) := by
  obtain ⟨draft, there, rfl⟩ := List.mem_map.mp member
  obtain ⟨i, weight⟩ := mem_balance given there
  exact ⟨i, by rw [VariantDraft.sent, weight, Rat.num_natCast]⟩

theorem sum_balance_weights (given : drafts ≠ []) :
    (((balance drafts).map (VariantDraft.sent jsonParse)).map VariantIn.weight).sum = 100 := by
  have total := sum_evenShare given 100
  have weights : ((balance drafts).map (VariantDraft.sent jsonParse)).map VariantIn.weight =
      (drafts.mapIdx fun i _ => evenShare 100 drafts.length i).map fun (n : ℕ) => (n : ℤ) := by
    rw [balance_eq given]
    apply List.ext_getElem <;> simp [VariantDraft.sent]
  have added := map_list_sum (Nat.castAddMonoidHom ℤ) (drafts.mapIdx fun i _ => evenShare 100 drafts.length i)
  rw [total] at added
  rw [weights]
  exact added.symm

end Balance

section Shares

variable {supply : Supply} {flag : Flag} {data : FlagUpdate} {incoming : List VariantIn}

theorem patchedFlag_variants (distinct : (flag.variants.map Variant.key).Nodup)
    (sent : data.variants.get? = some incoming) :
    ((patchedFlag supply flag data).load.variants.map Variant.toSpec).Perm (incoming.map VariantIn.toSpec) := by
  have loaded := (sortOn_perm Variant.key (patchedFlag supply flag data).variants).map Variant.toSpec
  refine loaded.trans ?_
  simp only [patchedFlag, assignCollections, assignFields, sent]
  exact applyVariants_perm supply.variantIds distinct (data.variants_distinct sent)

theorem totalWeight_of_perm {spec : FlagSpec} (perm : spec.variants.Perm (incoming.map VariantIn.toSpec)) :
    spec.totalWeight = (incoming.map VariantIn.weight).sum := by
  have sorted := ((sortOn_perm VariantSpec.key spec.variants).trans perm).map VariantSpec.weight
  rw [List.map_map] at sorted
  exact sorted.sum_eq

/-- Where every weight is an even share, so is every variant's part of the buckets, and a user is served the
    variant whose part the user's bucket is in. -/
theorem bucketsOf_evenShare {spec : FlagSpec} {n : Nat} (distinct : (spec.variants.map VariantSpec.key).Nodup)
    (shares : ∀ v ∈ spec.variants, ∃ i, v.weight = (evenShare 100 n i : ℕ)) (total : spec.totalWeight = 100) :
    (∀ v ∈ spec.variants, (spec.bucketsOf v).card = 100 * (100 / n) ∨ (spec.bucketsOf v).card = 100 * (100 / n + 1)) ∧
    ∀ userId bucket, bucketFor spec.key userId variantSalt = .ok bucket →
      ∃ v ∈ spec.variants, bucket ∈ spec.bucketsOf v ∧ chooseVariant spec userId = .ok (some v) := by
  have weights : ∀ v ∈ spec.variants, 0 ≤ v.weight := by
    intro v member
    obtain ⟨i, weight⟩ := shares v member
    omega
  constructor
  · intro v member
    obtain ⟨i, weight⟩ := shares v member
    have count := card_bucketsOf weights total distinct member
    rw [weight] at count
    rcases evenShare_eq 100 n i with less | more
    · rw [less] at count
      exact .inl (by exact_mod_cast count)
    · rw [more] at count
      exact .inr (by exact_mod_cast count)
  · intro userId bucket hashes
    have positive : 0 < spec.totalWeight := by omega
    obtain ⟨v, chooses⟩ := chooseBand_returns positive (bucketFor_lt hashes)
    obtain ⟨i, at_i, _⟩ := (chooseBand_eq_some_iff weights positive).mp chooses
    have member : v ∈ spec.variants := mem_sortOn.mp (List.mem_of_getElem? at_i)
    have within : bucket ∈ spec.bucketsOf v :=
      Finset.mem_filter.mpr ⟨Finset.mem_range.mpr (bucketFor_lt hashes), chooses⟩
    exact ⟨v, member, within, chooseVariant_in_loop positive hashes chooses⟩

end Shares

/-- After "Split evenly" the save is enabled and its weights pass the server's checks, and once it is accepted the
    arms share the buckets out: each is served to the floor of its equal part in percent or to one percent more. -/
theorem splitEvenly_shares (jsonParse : Str → Option Json) {drafts : List VariantDraft} (arms : 2 ≤ drafts.length)
    (flag : Flag) (offVariant : Str) :
    weightsOk (balance drafts) ∧ enoughVariants (balance drafts) ∧
    ∃ body incoming, variantsBody jsonParse flag (balance drafts) offVariant = some body ∧
      body.variants = .value incoming ∧
      incoming.map VariantIn.key = drafts.map (fun draft => trim isJsBlank draft.key) ∧
      (incoming.map VariantIn.weight).sum = 100 ∧ (∀ v ∈ incoming, 0 ≤ v.weight ∧ v.weight ≤ 100) ∧
      ∀ (db after : Database) (supply : Supply) (key actor : Str) (data : FlagUpdate) (returned : Option Flag),
        data.toFlagUpdateBody = body → updateFlag db supply key data actor = .ok (after, returned) →
        ∃ stored, getFlag after key = some stored ∧
          ((toSpec stored).variants.map VariantSpec.key).Perm (drafts.map fun draft => trim isJsBlank draft.key) ∧
          (∀ v ∈ (toSpec stored).variants, ((toSpec stored).bucketsOf v).card = 100 * (100 / drafts.length) ∨
            ((toSpec stored).bucketsOf v).card = 100 * (100 / drafts.length + 1)) ∧
          ∀ userId bucket, bucketFor stored.key userId variantSalt = .ok bucket →
            ∃ v ∈ (toSpec stored).variants, bucket ∈ (toSpec stored).bucketsOf v ∧
              chooseVariant (toSpec stored) userId = .ok (some v) := by
  have given : drafts ≠ [] := by
    rintro rfl
    cases arms
  have enough : 2 ≤ (balance drafts).length := by rwa [length_balance]
  refine ⟨.inr (draftTotal_balance given), .inr enough, _, _, variantsBody_balance given, rfl, sent_balance_keys drafts,
    sum_balance_weights given, ?_, ?_⟩
  · intro v member
    obtain ⟨i, weight⟩ := sent_balance_weight given member
    have most := @evenShare_le 100 _ (List.length_pos_iff.mpr given) i
    omega
  · intro db after supply key actor data returned sends updates
    obtain ⟨loaded, read, _, written⟩ := updateFlag_ok updates
    obtain ⟨row, _, _, valid, rfl⟩ := getFlag_spec read
    have sent : data.variants.get? = some ((balance drafts).map (VariantDraft.sent jsonParse)) := by
      rw [sends]
      rfl
    have perm : (toSpec (patchedFlag supply row.load data).load).variants.Perm
        (((balance drafts).map (VariantDraft.sent jsonParse)).map VariantIn.toSpec) :=
      patchedFlag_variants valid.load_variants sent
    have keys := perm.map VariantSpec.key
    rw [List.map_map] at keys
    have distinct := keys.nodup_iff.mpr (data.variants_distinct sent)
    have shares : ∀ v ∈ (toSpec (patchedFlag supply row.load data).load).variants,
        ∃ i, v.weight = (evenShare 100 drafts.length i : ℕ) := by
      intro v member
      obtain ⟨arm, there, rfl⟩ := List.mem_map.mp (perm.mem_iff.mp member)
      exact sent_balance_weight given there
    have total := (totalWeight_of_perm perm).trans (sum_balance_weights given)
    have served := bucketsOf_evenShare distinct shares total
    refine ⟨(patchedFlag supply row.load data).load, by rw [getFlag, written, Option.map_some], ?_, served⟩
    rw [← @sent_balance_keys jsonParse drafts]
    exact keys

def threeArms : List VariantDraft :=
  [{ key := str "red", weight := 50, value := [] }, { key := str " blue", weight := 50, value := str "blue" },
    { key := str "green", weight := 0, value := [] }]

def splitSave : FlagUpdate :=
  ⟨{ variants := .value [{ key := str "red", weight := 34 },
       { key := str "blue", value := .str (str "blue"), weight := 33 }, { key := str "green", weight := 33 }],
     offVariant := .null, version := 1 }, by decide +kernel⟩

theorem splitEvenly_shares_three :
    weightsOk (balance threeArms) ∧
      ∃ created row flag after returned stored,
        createFlag .empty firstSupply describedCreate (str "ops") = .ok (created, row) ∧
        getFlag created (str "banner") = some flag ∧
        variantsBody (fun _ => none) flag (balance threeArms) [] = some splitSave.toFlagUpdateBody ∧
        updateFlag created (supplyOf 1) (str "banner") splitSave (str "ops") = .ok (after, returned) ∧
        getFlag after (str "banner") = some stored ∧
        ∀ v ∈ (toSpec stored).variants, ((toSpec stored).bucketsOf v).card = 3300 ∨
          ((toSpec stored).bucketsOf v).card = 3400 := by
  obtain ⟨⟨created, row⟩, creates, ⟨flag, loaded, sends⟩, accepted⟩ := ok_of_any
    (createFlag .empty firstSupply describedCreate (str "ops"))
    (fun result => (∃ flag ∈ getFlag result.1 (str "banner"),
      variantsBody (fun _ => none) flag (balance threeArms) [] = some splitSave.toFlagUpdateBody) ∧
      (updateFlag result.1 (supplyOf 1) (str "banner") splitSave (str "ops")).toOption.isSome)
    (by decide +kernel)
  obtain ⟨weights, _, body, incoming, sent, _, _, _, _, serves⟩ :=
    @splitEvenly_shares (fun _ => none) threeArms (by decide) flag []
  cases updates : updateFlag created (supplyOf 1) (str "banner") splitSave (str "ops") with
  | error => simp [updates, Except.toOption] at accepted
  | ok result =>
    have same := Option.some.inj (sends.symm.trans sent)
    obtain ⟨stored, read, _, shares, _⟩ := serves _ _ _ _ _ _ _ same updates
    exact ⟨weights, created, row, flag, result.1, result.2, stored, creates, loaded, sends, updates, read, shares⟩

end Ripcord
