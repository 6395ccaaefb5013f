import Ripcord.EpochFence

namespace Ripcord

open Foundation

section FencedPublish

variable {shared : Shared} {rebuild : Rebuild} {fence : Fence} {snapshot : Database}

def RebuildPoint.FencedBy (point : RebuildPoint) (fence : Fence) (snapshot : Database) : Prop :=
  point = .compare fence snapshot ∨ point = .exec (some fence) snapshot

theorem RebuildPoint.Sound.fenced {point : RebuildPoint} (own : point.Sound shared)
    (fencedBy : point.FencedBy fence snapshot) :
    Past shared.db snapshot ∧ Fenced shared fence.expected snapshot := by
  rcases fencedBy with rfl | rfl
  · exact ⟨own.1, own.2.1⟩
  · exact ⟨own.1, own.2.1⟩

theorem Rebuild.next_of_moved (own : rebuild.point.Sound shared) (fencedBy : rebuild.point.FencedBy fence snapshot)
    (moved : readEpoch shared.redis ≠ fence.expected) :
    rebuild.next shared.db shared.redis = some (shared.redis, .answered (some false)) := by
  obtain ⟨caller, point⟩ := rebuild
  rcases fencedBy with rfl | rfl
  · simp [Rebuild.next, moved]
  · obtain ⟨_, _, _, compared⟩ := own
    have aborts : ¬ Fence.Passes shared.redis (some fence) := fun passes => moved (compared (passes fence rfl))
    simp [Rebuild.next, aborts]

theorem Fenced.moved (fenced : Fenced shared fence.expected snapshot)
    (overtaken : ∃ n ∈ shared.announced, snapshot.audit.length ≤ n) :
    readEpoch shared.redis ≠ fence.expected := by
  intro still
  obtain ⟨n, announced, late⟩ := overtaken
  exact absurd (fenced.current still n announced) (Nat.not_lt.mpr late)

theorem Rebuild.published {redis : Redis} (own : rebuild.point.Sound shared)
    (fencedBy : rebuild.point.FencedBy fence snapshot)
    (steps : rebuild.next shared.db shared.redis = some (redis, .answered (some true))) :
    readEpoch shared.redis = fence.expected ∧
      redis = shared.redis.replaceRuleset (buildRulesetMapping snapshot) := by
  obtain ⟨caller, point⟩ := rebuild
  rcases fencedBy with rfl | rfl
  · cases Rebuild.next_moves steps
  · obtain ⟨_, _, _, compared⟩ := own
    cases Rebuild.next_moves steps with
    | publishes passes => exact ⟨compared (passes fence rfl), rfl⟩

theorem Past.rowPayload {db : Database} (past : Past db snapshot) {key : Str}
    (untouched : ∀ n, snapshot.audit.length ≤ n → ¬ KeyAt db.audit n key) :
    rowPayload snapshot key = Ripcord.rowPayload db key := by
  simp only [Ripcord.rowPayload, getFlag, past.rows key untouched]

end FencedPublish

/-- The epoch fence. A fenced `write_ruleset` that returns True publishes a snapshot with every change
    announced before its `EXEC`, so no field of it is behind an announced change; one that was overtaken
    returns False and leaves everything as it was. -/
theorem fenced_rebuild_includes_announced {world : Traffic} {acts : List (Nat × Act)}
    (runs : run (World.act trafficStep) Traffic.start acts = some world) {who : Nat} {rebuild : Rebuild}
    {fence : Fence} {snapshot : Database} (reads : world.parties who = .reader rebuild)
    (fencedBy : rebuild.point.FencedBy fence snapshot) :
    (∀ after, trafficStep world.shared (world.parties who) .next =
        some (after, .reader { rebuild with point := .answered (some true) }) →
      snapshot.audit <+: world.shared.db.audit ∧
        (∀ n ∈ world.shared.announced, n < snapshot.audit.length) ∧
        (∀ key, key ≠ completeField → after.redis.hget key = rowPayload snapshot key) ∧
        ∀ key, key ≠ completeField → (∀ n, KeyAt world.shared.db.audit n key → n ∈ world.shared.announced) →
          after.redis.hget key = rowPayload world.shared.db key) ∧
      ((readEpoch world.shared.redis ≠ fence.expected ∨
          ∃ n ∈ world.shared.announced, snapshot.audit.length ≤ n) →
        trafficStep world.shared (world.parties who) .next =
          some (world.shared, .reader { rebuild with point := .answered (some false) })) := by
  have own : rebuild.point.Sound world.shared := by
    have own := (Traffic.sound_of_run runs).2 who
    rwa [reads] at own
  obtain ⟨past, fenced⟩ := own.fenced fencedBy
  rw [reads]
  constructor
  · intro after steps
    obtain ⟨⟨redis, point⟩, publishes, same⟩ := Option.map_eq_some_iff.mp steps
    cases same
    obtain ⟨still, rfl⟩ := Rebuild.published own fencedBy publishes
    have included := fenced.current still
    have fields : ∀ key, key ≠ completeField →
        (world.shared.redis.replaceRuleset (buildRulesetMapping snapshot)).hget key = rowPayload snapshot key :=
      fun key flagField => (hget_replaceRuleset _ _ flagField).trans (lookup_buildRulesetMapping _ _)
    refine ⟨past.audit, included, fields, ?_⟩
    intro key flagField announced
    rw [fields key flagField]
    exact past.rowPayload fun n late here => Nat.not_lt.mpr late (included n (announced n here))
  · intro overtaken
    have moved : readEpoch world.shared.redis ≠ fence.expected := overtaken.elim id fenced.moved
    simp [trafficStep, Party.next, Rebuild.next_of_moved own fencedBy moved]

def Party.exec? : Party → Option (Option Fence × Database)
  | .reader ⟨_, .exec fence snapshot⟩ => some (fence, snapshot)
  | _ => none

def checkoutCreate : FlagCreate :=
  ⟨{ key := str "checkout", name := str "Checkout", enabled := true, rolloutPercentage := 100 }, by decide +kernel⟩

theorem Party.exec?_eq_some {party : Party} {fence : Option Fence} {snapshot : Database}
    (exec : party.exec? = some (fence, snapshot)) : ∃ caller, party = .reader ⟨caller, .exec fence snapshot⟩ := by
  unfold Party.exec? at exec
  split at exec <;> cases exec
  exact ⟨_, rfl⟩

/-- A flag is created and notified, and a cold `get_ruleset` is about to publish. -/
def refill : List (Nat × Act) :=
  [(1, .request (.create checkoutCreate (str "ops")) firstSupply), (1, .next), (1, .next), (1, .next),
    (1, .next), (1, .next), (1, .next), (0, .getRuleset), (0, .next), (0, .next), (0, .next), (0, .next),
    (0, .next)]

theorem fenced_rebuild_includes_announced_refill :
    ∃ world rebuild fence snapshot after, run (World.act trafficStep) Traffic.start refill = some world ∧
      world.parties 0 = .reader rebuild ∧ rebuild.point.FencedBy fence snapshot ∧
      trafficStep world.shared (world.parties 0) .next =
        some (after, .reader { rebuild with point := .answered (some true) }) ∧
      0 ∈ world.shared.announced ∧ ∀ n ∈ world.shared.announced, n < snapshot.audit.length := by
  obtain ⟨world, runs, ready, announced⟩ := run_reaches (World.act trafficStep)
    Traffic.start refill
    (fun world =>
      ((world.parties 0).exec?.any fun exec => exec.1.isSome ∧ Fence.Passes world.shared.redis exec.1) = true ∧
        0 ∈ world.shared.announced) (by decide +kernel)
  obtain ⟨⟨fence, snapshot⟩, exec, passing⟩ := (Option.any_eq_true _ _).mp ready
  obtain ⟨fenced, passes⟩ := of_decide_eq_true passing
  obtain ⟨fence, rfl⟩ := Option.isSome_iff_exists.mp fenced
  obtain ⟨caller, reads⟩ := Party.exec?_eq_some exec
  have publishes : trafficStep world.shared (world.parties 0) .next =
      some ({ world.shared with redis := world.shared.redis.replaceRuleset (buildRulesetMapping snapshot) },
        .reader ⟨caller, .answered (some true)⟩) := by
    rw [reads]
    simp [trafficStep, Party.next, Rebuild.next, passes]
  exact ⟨world, _, fence, snapshot, _, runs, reads, .inr rfl, publishes, announced,
    ((fenced_rebuild_includes_announced runs reads (.inr rfl)).1 _ publishes).2.1⟩

section Unfenced

variable {shared after : Shared} {party next : Party}

def RebuildPoint.IsFenced : RebuildPoint → Prop
  | .query none | .exec none _ => False
  | _ => True

def Party.IsFenced : Party → Prop
  | .reader rebuild => rebuild.point.IsFenced
  | _ => True

def Party.ReadsEpoch : Party → Prop
  | .reader ⟨.evaluateFlagCached, .epoch⟩ => True
  | _ => False

instance : DecidablePred Party.ReadsEpoch := by
  intro party
  unfold Party.ReadsEpoch
  split <;> infer_instance

theorem Rebuild.next_isFenced {db : Database} {redis changed : Redis} {rebuild : Rebuild} {point : RebuildPoint}
    (own : rebuild.point.IsFenced) (steps : rebuild.next db redis = some (changed, point)) : point.IsFenced := by
  obtain ⟨caller, old⟩ := rebuild
  cases Rebuild.next_moves steps with
  | unfenced => exact absurd own id
  | _ => trivial

theorem Party.raises_isFenced {raised : Party} (answers : ¬ party.ReadsEpoch) (raises : party.raises = some raised) :
    raised.IsFenced := by
  rcases Party.raises_cases raises with ⟨change, rfl, rfl⟩ | ⟨⟨caller, old⟩, point, rfl, raises, rfl⟩
  · trivial
  · cases old with
    | epoch =>
      cases caller with
      | evaluateFlagCached => exact absurd trivial answers
      | getRuleset =>
        cases raises
        trivial
    | _ => cases caller <;> cases raises <;> trivial

theorem trafficStep_isFenced {act : Act} (own : party.IsFenced)
    (answers : party.ReadsEpoch → act.NoFault)
    (steps : trafficStep shared party act = some (after, next)) : next.IsFenced := by
  cases trafficStep_moves steps with
  | reader rebuilds => exact Rebuild.next_isFenced own rebuilds
  | raises raises _ => exact Party.raises_isFenced answers raises
  | lapses => exact own
  | _ => trivial

end Unfenced

def Act.Executes : Act → Prop
  | .next | .fault true => True
  | _ => False

instance : DecidablePred Act.Executes
  | .next | .fault true => inferInstanceAs (Decidable True)
  | .request .. | .evaluateFlagCached _ | .getRuleset | .fault false | .lapse => inferInstanceAs (Decidable False)

/-- If the step is an `EXEC` that goes through, with a fence such as `fences` admits, its snapshot has
    every change that has completed its notification. -/
def PublishesCurrent (fences : Option Fence → Prop) (world : Traffic) (action : Nat × Act) : Prop :=
  ∀ exec ∈ (world.parties action.1).exec?,
    fences exec.1 ∧ action.2.Executes ∧ Fence.Passes world.shared.redis exec.1 →
      ∀ n ∈ world.shared.completed, n < exec.2.audit.length

instance (fences : Option Fence → Prop) [DecidablePred fences] (world : Traffic) (action : Nat × Act) :
    Decidable (PublishesCurrent fences world action) := by
  unfold PublishesCurrent
  infer_instance

/-- No step replaces the hash by a snapshot older than a change whose notification has completed. -/
abbrev NeverStale : Traffic → Nat × Act → Prop := PublishesCurrent fun _ => True

/-- No unfenced `EXEC`, which is one whose `read_epoch` raised, comes after such a change. -/
abbrev UnfencedCurrent : Traffic → Nat × Act → Prop := PublishesCurrent fun fence => fence = none

theorem Party.Sound.exec {shared : Shared} {party : Party} {fence : Fence} {snapshot : Database}
    (own : party.Sound shared) (exec : party.exec? = some (some fence, snapshot)) :
    Fenced shared fence.expected snapshot ∧
      (fence.watched = shared.redis.epochWrites → readEpoch shared.redis = fence.expected) := by
  unfold Party.exec? at exec
  split at exec <;> cases exec
  exact ⟨own.2.1, own.2.2.2⟩

theorem neverStale_of_unfencedCurrent {world : Traffic} {action : Nat × Act} (sound : world.Sound)
    (unfenced : UnfencedCurrent world action) : NeverStale world action := by
  intro ⟨fence, snapshot⟩ exec ⟨_, executes, passes⟩ n completed
  cases fence with
  | none => exact unfenced _ exec ⟨rfl, executes, passes⟩ n completed
  | some fence =>
    obtain ⟨fenced, compared⟩ := (sound.2 action.1).exec exec
    exact fenced.current (compared (passes fence rfl)) n
      (sound.1.written n (sound.1.completed n completed))

theorem unfencedCurrent_of_neverStale {world : Traffic} {action : Nat × Act}
    (never : NeverStale world action) : UnfencedCurrent world action :=
  fun exec here ⟨_, executes⟩ => never exec here ⟨trivial, executes⟩

def EpochReads (world : Traffic) (action : Nat × Act) : Prop :=
  (world.parties action.1).ReadsEpoch → action.2.NoFault
  deriving Decidable

def Traffic.IsFenced (world : Traffic) : Prop := ∀ who, (world.parties who).IsFenced

theorem Traffic.IsFenced.act {world next : Traffic} {action : Nat × Act} (fenced : world.IsFenced)
    (reads : EpochReads world action) (acts : World.act trafficStep world action = some next) : next.IsFenced := by
  refine (World.act_invariant (fun _ => True) (fun _ (party : Party) => party.IsFenced) acts fenced ?_).2
  intro shared party steps
  exact ⟨trivial, trafficStep_isFenced (fenced action.1) reads steps, fun _ own => own⟩

theorem unfencedCurrent_of_isFenced {world : Traffic} {action : Nat × Act} (fenced : world.IsFenced) :
    UnfencedCurrent world action := by
  intro ⟨fence, snapshot⟩ exec ⟨unfenced, _⟩
  obtain ⟨caller, reads⟩ := Party.exec?_eq_some exec
  have own := fenced action.1
  rw [reads] at own
  cases unfenced
  exact absurd own id

/-- Faults or not, a run never goes back exactly when none of its unfenced publishes does, and there are
    none where every `read_epoch` answers. -/
theorem neverStale_iff_unfencedCurrent (acts : List (Nat × Act)) (world : Traffic) :
    (RunWhere (World.act trafficStep) NeverStale Traffic.start acts world ↔
      RunWhere (World.act trafficStep) UnfencedCurrent Traffic.start acts world) ∧
    (RunWhere (World.act trafficStep) EpochReads Traffic.start acts world →
      RunWhere (World.act trafficStep) NeverStale Traffic.start acts world) := by
  refine ⟨⟨?_, ?_⟩, ?_⟩
  · intro runs
    exact runs.weaken fun _ _ => unfencedCurrent_of_neverStale
  · intro runs
    exact runs.weaken_of_invariant _ (fun _ _ _ _ sound acts => Traffic.Sound.act sound acts)
      (fun _ _ sound => neverStale_of_unfencedCurrent sound) Traffic.start_sound
  · intro runs
    refine runs.weaken_of_invariant (fun world => Traffic.Sound world ∧ Traffic.IsFenced world) ?_ ?_ ?_
    · intro world action next reads ⟨sound, fenced⟩ acts
      exact ⟨sound.act acts, fenced.act reads acts⟩
    · intro world action ⟨sound, fenced⟩ _
      exact neverStale_of_unfencedCurrent sound (unfencedCurrent_of_isFenced fenced)
    · exact ⟨Traffic.start_sound, fun _ => trivial⟩

theorem neverStale_iff_unfencedCurrent_refill :
    ∃ world, RunWhere (World.act trafficStep) EpochReads Traffic.start refill world ∧
      RunWhere (World.act trafficStep) NeverStale Traffic.start refill world := by
  obtain ⟨world, reads, _⟩ := runWhere_reaches (World.act trafficStep) EpochReads Traffic.start refill
    (fun _ => True) (by decide +kernel)
  exact ⟨world, reads, (neverStale_iff_unfencedCurrent refill world).2 reads⟩

/-- A cold evaluation whose `read_epoch` raises reads an empty database; then a flag is created and
    notified in full; then the evaluation publishes what it read. -/
def overtakenRebuild : List (Nat × Act) :=
  [(0, .evaluateFlagCached (str "checkout")), (0, .next), (0, .next), (0, .fault false), (0, .next),
    (1, .request (.create checkoutCreate (str "ops")) firstSupply), (1, .next), (1, .next), (1, .next),
    (1, .next), (1, .next), (1, .next), (0, .next)]

theorem overtakenRebuild_stale :
    (∃ world, run (World.act trafficStep) Traffic.start overtakenRebuild = some world ∧
      world.shared.redis.hexists completeField ∧ world.shared.redis.hget (str "checkout") = none ∧
      (getFlag world.shared.db (str "checkout")).isSome) ∧
    ∀ world, ¬ RunWhere (World.act trafficStep) NeverStale Traffic.start overtakenRebuild world :=
  ⟨run_reaches _ _ _ _ (by decide +kernel), not_runWhere (by decide +kernel)⟩

end Ripcord
