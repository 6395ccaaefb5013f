import Ripcord.KillSwitch

namespace Ripcord

open Foundation

/-! What earlier failures leave behind once the hash has expired. -/

def ChangePoint.isPending : ChangePoint → Bool
  | .reload _ | .incr _ | .field _ => true
  | _ => false

def Party.pending? : Party → Option Change
  | .writer change => if change.point.isPending then some change else none
  | _ => none

/-- The rebuild has nothing to publish so far, and will do so with a fence. -/
def RebuildPoint.Fresh : RebuildPoint → Prop
  | .query none | .watch .. | .compare .. | .exec .. => False
  | _ => True

/-- The hash is gone, and nothing of before is on its way into the next one: no rebuild has read the database
    yet, and each change that has yet to write is the last of its flag. -/
structure Traffic.Fresh (world : Traffic) : Prop where
  absent : world.shared.redis.ruleset = ∅
  rebuilds : ∀ who rebuild, world.parties who = .reader rebuild → rebuild.point.Fresh
  latest : ∀ who, ∀ change ∈ (world.parties who).pending?, ∀ n,
    KeyAt world.shared.db.audit n change.key → n ≤ change.entry

def Traffic.Over (world : Traffic) (n : Nat) : Prop :=
  n < world.shared.db.audit.length ∧ ∀ who, ∀ change ∈ (world.parties who).pending?, change.entry ≠ n

/-- The changes are taken for announced and written. No step looks at what these lists held before. -/
def Shared.mark (base : List Nat) (shared : Shared) : Shared :=
  { shared with announced := shared.announced ++ base, written := shared.written ++ base }

def Traffic.mark (base : List Nat) (world : Traffic) : Traffic := ⟨world.shared.mark base, world.parties⟩

section Marks

variable {base : List Nat} {shared after : Shared} {party next : Party} {act : Act}

theorem Change.next_mark {change : Change} {point : ChangePoint} (steps : change.next shared = some (after, point)) :
    change.next (shared.mark base) = some (after.mark base, point) := by
  obtain ⟨key, action, entry, old⟩ := change
  cases old with
  | reload held =>
    simp only [Change.next] at steps ⊢
    split at steps <;> cases steps
    · rename_i found
      simp only [Shared.mark, found]
    · rename_i lost
      simp only [Shared.mark, lost]
  | field payload =>
    cases action <;> cases payload <;> cases steps <;> rfl
  | finished | abandoned | crashed => cases steps
  | _ =>
    cases steps
    rfl

theorem Party.next_mark (steps : party.next shared = some (after, next)) :
    party.next (shared.mark base) = some (after.mark base, next) := by
  cases party with
  | writer change =>
    rcases Option.map_eq_some_iff.mp steps with ⟨⟨after, point⟩, changes, same⟩
    cases same
    simp only [Party.next, Change.next_mark changes, Option.map_some]
  | reader rebuild =>
    rcases Option.map_eq_some_iff.mp steps with ⟨⟨redis, point⟩, rebuilds, same⟩
    cases same
    simp only [Party.next, Shared.mark, rebuilds, Option.map_some]
  | _ => cases steps

theorem trafficStep_mark (noFault : act.NoFault) (steps : trafficStep shared party act = some (after, next)) :
    trafficStep (shared.mark base) party act = some (after.mark base, next) := by
  cases trafficStep_moves steps with
  | commits commits => simp only [trafficStep, Shared.mark, commits]
  | refuses refused => simp only [trafficStep, Shared.mark, refused]
  | evaluates => rfl
  | fetches => rfl
  | writer | reader =>
    simp only [trafficStep] at steps ⊢
    exact Party.next_mark steps
  | raises => exact absurd noFault id
  | lapses expires =>
    rcases Option.ne_none_iff_exists'.mp expires with ⟨seconds, deadline⟩
    simp only [trafficStep, Shared.mark, deadline]

end Marks

section Pending

variable {shared after : Shared} {party next : Party} {act : Act} {change : Change}

theorem Party.pending?_eq_some : party.pending? = some change ↔ party = .writer change ∧ change.point.isPending := by
  cases party with
  | writer own =>
    by_cases pending : own.point.isPending
    · have waits : (Party.writer own).pending? = some own := if_pos pending
      rw [waits]
      constructor
      · intro same
        cases same
        exact ⟨rfl, pending⟩
      · intro same
        cases same.1
        rfl
    · have past : (Party.writer own).pending? = none := if_neg pending
      rw [past]
      constructor
      · intro same
        cases same
      · intro same
        cases same.1
        exact absurd same.2 pending
  | _ => simp [Party.pending?]

theorem trafficStep_pending (steps : trafficStep shared party act = some (after, next))
    (pending : next.pending? = some change) :
    change.entry = shared.db.audit.length ∨
      ∃ before, party.pending? = some before ∧ change.key = before.key ∧ change.entry = before.entry := by
  rcases Party.pending?_eq_some.mp pending with ⟨here, waits⟩
  cases trafficStep_moves steps with
  | @commits request supply db held =>
    cases here
    exact .inl rfl
  | refuses | evaluates | fetches | reader => cases here
  | @writer own _ _ changes =>
    cases here
    refine .inr ⟨own, Party.pending?_eq_some.mpr ⟨rfl, ?_⟩, rfl, rfl⟩
    obtain ⟨key, action, entry, point⟩ := own
    cases Change.next_moves changes with
    | reloads | increments => rfl
    | _ => cases waits
  | raises raises =>
    rcases Party.raises_cases raises with ⟨own, _, rfl⟩ | ⟨_, _, _, _, rfl⟩
    · cases here
      cases waits
    · cases here
  | lapses => exact .inr ⟨change, pending, rfl, rfl⟩

theorem Party.pending?_of_fieldWrite? (writes : party.fieldWrite? = some change) : party.pending? = some change := by
  rcases Party.fieldWrite?_eq_some writes with ⟨rfl, payload, here⟩
  exact Party.pending?_eq_some.mpr ⟨rfl, by rw [here]; rfl⟩

end Pending

section Faulty

variable {shared after : Shared} {party next : Party} {act : Act}

def Party.Changing (shared : Shared) : Party → Prop
  | .writer change => change.Converging shared
  | _ => True

theorem Party.Changing.evolves (own : party.Changing shared) (evolves : DatabaseEvolves shared.db after.db) :
    party.Changing after := by
  cases party with
  | writer change => exact Change.Converging.evolves own evolves
  | _ => trivial

theorem trafficStep_changing (ascending : act.RulesAscending)
    (keys : ∀ row ∈ shared.db.flags, MatchesKeyPattern row.key) (own : party.Changing shared)
    (steps : trafficStep shared party act = some (after, next)) :
    (∀ row ∈ after.db.flags, MatchesKeyPattern row.key) ∧ next.Changing after := by
  cases trafficStep_moves steps with
  | commits commits => exact ⟨(Request.commit_keys keys commits).2, Request.change_converging keys ascending commits⟩
  | refuses | evaluates | fetches | reader => exact ⟨keys, trivial⟩
  | writer changes => exact ⟨(Change.next_effect changes).1 ▸ keys, Change.next_own own changes⟩
  | @raises _ _ _ moved executed raises nexts =>
    have same : (if executed then moved else shared).db = shared.db := by
      cases executed with
      | true => exact (Party.next_effect nexts).1
      | false => rfl
    refine ⟨same ▸ keys, ?_⟩
    rcases Party.raises_cases raises with ⟨change, rfl, rfl⟩ | ⟨_, _, _, _, rfl⟩
    · exact ⟨own.pattern, same ▸ own.keyed, fun _ => trivial⟩
    · trivial
  | lapses => exact ⟨keys, own.evolves (.same rfl)⟩

end Faulty

theorem KeyAt.of_append {audit more : List AuditLog} {n : Nat} {key : Str} (here : KeyAt (audit ++ more) n key)
    (bound : n < audit.length) : KeyAt audit n key := by
  unfold KeyAt at here ⊢
  rwa [List.getElem?_append_left bound] at here

/-- With the changes of the base taken for written, the cache has been converging all along. -/
structure Traffic.Healing (base : List Nat) (world : Traffic) : Prop where
  bound : ∀ n ∈ base, n < world.shared.db.audit.length
  late : ∀ who, ∀ change ∈ (world.parties who).pending?, ∀ n ∈ base,
    KeyAt world.shared.db.audit n change.key → n ≤ change.entry
  sound : (world.mark base).Sound
  converging : (world.mark base).Converging

section Healing

variable {base : List Nat} {world next gone : Traffic} {action : Nat × Act} {acts : List (Nat × Act)}

theorem Traffic.mark_act (noFault : action.2.NoFault) (acts : World.act trafficStep world action = some next) :
    World.act trafficStep (world.mark base) action = some (next.mark base) := by
  obtain ⟨who, act⟩ := action
  rcases World.act_cases acts with ⟨shared, party, steps, rfl⟩
  have marked : trafficStep (world.mark base).shared ((world.mark base).parties who) act =
      some (shared.mark base, party) := trafficStep_mark noFault steps
  simp only [World.act, marked, Option.map_some]
  rfl

theorem Traffic.Healing.orderly (healing : world.Healing base) (orderly : Orderly world action) :
    Orderly (world.mark base) action := by
  obtain ⟨who, act⟩ := action
  cases act with
  | next =>
    intro change writes n member here
    rcases List.mem_append.mp member with written | marked
    · exact orderly change writes n written here
    · exact healing.late who change (Party.pending?_of_fieldWrite? writes) n marked here
  | _ => exact orderly

theorem Traffic.Healing.act (healing : world.Healing base) (noFault : action.2.NoFault)
    (orderly : Orderly world action) (acts : World.act trafficStep world action = some next) :
    next.Healing base := by
  have marked : World.act trafficStep (world.mark base) action = some (next.mark base) := Traffic.mark_act noFault acts
  have converging := healing.converging.act healing.sound noFault (healing.orderly orderly) marked
  have grows : world.shared.db.audit <+: next.shared.db.audit := by
    obtain ⟨who, act⟩ := action
    rcases World.act_cases marked with ⟨shared, party, steps, same⟩
    have evolves := (trafficStep_keeps healing.sound.1 (healing.sound.2 who) steps).evolves.database
    have here : shared.db = next.shared.db := congrArg (fun world : Traffic => world.shared.db) same.symm
    exact here ▸ evolves.audit_grows
  refine ⟨fun n member => Nat.lt_of_lt_of_le (healing.bound n member) grows.length_le, ?_, healing.sound.act marked,
    converging⟩
  intro who change pending n member here
  obtain ⟨more, grown⟩ := grows
  have before : KeyAt world.shared.db.audit n change.key := (grown ▸ here).of_append (healing.bound n member)
  rcases World.act_party acts who with ⟨_, steps⟩ | ⟨_, same⟩
  · rcases trafficStep_pending steps pending with entry | ⟨old, waits, key, entry⟩
    · have bound := healing.bound n member
      omega
    · rw [entry]
      exact healing.late who old waits n member (key ▸ before)
  · rw [same] at pending
    exact healing.late who change pending n member before

theorem Traffic.changing_of_run
    (runs : RunWhere (World.act trafficStep) (fun _ action => action.2.RulesAscending) Traffic.start acts world) :
    (∀ row ∈ world.shared.db.flags, MatchesKeyPattern row.key) ∧
      ∀ who, (world.parties who).Changing world.shared := by
  have both : world.Sound ∧ (∀ row ∈ world.shared.db.flags, MatchesKeyPattern row.key) ∧
      ∀ who, (world.parties who).Changing world.shared := by
    refine runs.invariant (fun world : Traffic => world.Sound ∧
      (∀ row ∈ world.shared.db.flags, MatchesKeyPattern row.key) ∧
        ∀ who, (world.parties who).Changing world.shared) ?_ ⟨Traffic.start_sound, ?_, fun _ => trivial⟩
    · intro world ⟨who, act⟩ next ascending ⟨sound, keys, each⟩ acts
      refine ⟨sound.act acts, ?_⟩
      apply World.act_invariant (fun shared => ∀ row ∈ shared.db.flags, MatchesKeyPattern row.key)
        (fun shared (party : Party) => party.Changing shared) acts each
      intro shared party steps
      have keeps := trafficStep_keeps sound.1 (sound.2 who) steps
      rcases trafficStep_changing ascending keys (each who) steps with ⟨keysAfter, own⟩
      exact ⟨keysAfter, own, fun _ other => other.evolves keeps.evolves.database⟩
    · exact Traffic.start_converging.1.keys
  exact both.2

theorem Traffic.Fresh.healing
    (runs : RunWhere (World.act trafficStep) (fun _ action => action.2.RulesAscending) Traffic.start acts gone)
    (fresh : gone.Fresh) (ended : ∀ n, n ∈ base ↔ gone.Over n) : gone.Healing base := by
  rcases Traffic.sound_of_run runs.run with ⟨sound, each⟩
  rcases Traffic.changing_of_run runs with ⟨keys, changing⟩
  have bound : ∀ n ∈ base, n < gone.shared.db.audit.length := fun n member => ((ended n).mp member).1
  refine ⟨bound, fun who change pending n _ here => fresh.latest who change pending n here, ⟨⟨?_, ?_, ?_⟩, ?_⟩,
    ⟨keys, ?_⟩, ?_⟩
  · intro n member
    exact (List.mem_append.mp member).elim (sound.announced n) (bound n)
  · intro n member
    exact List.mem_append.mpr ((List.mem_append.mp member).imp_left (sound.written n))
  · intro n member
    exact List.mem_append_left _ (sound.completed n member)
  · intro who
    have own := each who
    show ((gone.parties who).Sound (gone.shared.mark base))
    cases here : gone.parties who with
    | writer change =>
      rw [here] at own
      exact ⟨own.entry, fun payload point => List.mem_append_left _ (own.announced payload point),
        fun past => List.mem_append_left _ (own.written past)⟩
    | reader rebuild =>
      rw [here] at own
      have unread := fresh.rebuilds who rebuild here
      obtain ⟨caller, point⟩ := rebuild
      cases point with
      | query expected => cases expected with
        | none => exact absurd unread id
        | some => exact own
      | watch | compare | exec => exact absurd unread id
      | _ => trivial
    | _ => trivial
  · intro key _ _
    have redis : gone.shared.redis.hget key = none := by simp [Redis.hget, fresh.absent]
    have marker : gone.shared.redis.hexists completeField = false := by simp [Redis.hexists, Redis.hget, fresh.absent]
    exact .inr ⟨redis, marker⟩
  · intro who
    show ((gone.parties who).Converging (gone.shared.mark base))
    cases here : gone.parties who with
    | writer change =>
      have own := changing who
      rw [here] at own
      exact ⟨own.pattern, own.keyed, own.current⟩
    | reader rebuild =>
      have unread := fresh.rebuilds who rebuild here
      obtain ⟨caller, point⟩ := rebuild
      cases point with
      | query expected => cases expected with
        | none => exact absurd unread id
        | some => trivial
      | exec => exact absurd unread id
      | _ => trivial
    | _ => trivial

end Healing

/-- However the earlier notifications and rebuilds went, once the hash has expired the cache is consistent with
    the database as soon as what was then under way, and whatever came after it, has been written. -/
theorem cache_self_heals {acts more : List (Nat × Act)} {gone world : Traffic}
    (runs : RunWhere (World.act trafficStep) (fun _ action => action.2.RulesAscending) Traffic.start acts gone)
    (fresh : gone.Fresh)
    (continues : RunWhere (World.act trafficStep) (fun world action => action.2.NoFault ∧ Orderly world action)
      gone more world)
    (finished : ∀ n < world.shared.db.audit.length, gone.Over n ∨ n ∈ world.shared.written) :
    Consistent world.shared.db world.shared.redis := by
  obtain ⟨base, ended⟩ : ∃ base : List Nat, ∀ n, n ∈ base ↔ gone.Over n := by
    classical
    refine ⟨(List.range gone.shared.db.audit.length).filter fun n => gone.Over n, fun n => ?_⟩
    simp only [List.mem_filter, List.mem_range, decide_eq_true_eq]
    exact ⟨And.right, fun past => ⟨past.1, past⟩⟩
  have healing : world.Healing base := continues.invariant (Traffic.Healing base)
    (fun _ _ _ allows healing acts => healing.act allows.1 allows.2 acts) (fresh.healing runs ended)
  refine consistent_of_settled fun key flagField => ?_
  apply healing.converging.1.settled key flagField
  intro n here
  have marked : n ∈ world.shared.written ++ base := by
    rcases finished n here.lt with past | written
    · exact List.mem_append_right _ ((ended n).mpr past)
    · exact List.mem_append_left _ written
  exact ⟨n, marked, Nat.le_refl n, here⟩

theorem Party.pending?_of_done {shared : Shared} {party : Party} (done : party.next shared = none) :
    party.pending? = none := by
  by_contra waiting
  rcases Option.ne_none_iff_exists'.mp waiting with ⟨change, pending⟩
  rcases Party.pending?_eq_some.mp pending with ⟨rfl, waits⟩
  have stuck := Option.map_eq_none_iff.mp done
  obtain ⟨key, action, entry, point⟩ := change
  cases point with
  | reload held =>
    simp only [Change.next] at stuck
    split at stuck <;> cases stuck
  | incr => cases stuck
  | field payload => cases action <;> cases payload <;> cases stuck
  | _ => cases waits

theorem Traffic.fresh_of_done {world : Traffic} (absent : world.shared.redis.ruleset = ∅)
    (done : ∀ who, (world.parties who).next world.shared = none) : world.Fresh := by
  refine ⟨absent, fun who rebuild here => ?_, fun who change pending => ?_⟩
  · have own := done who
    rw [here] at own
    have stuck := Option.map_eq_none_iff.mp own
    obtain ⟨caller, point⟩ := rebuild
    cases point with
    | query expected => cases expected <;> cases stuck
    | watch | compare => cases stuck
    | exec fence snapshot =>
      simp only [Rebuild.next] at stuck
      split at stuck <;> cases stuck
    | _ => trivial
  · rw [Option.mem_def, Party.pending?_of_done (done who)] at pending
    cases pending

/-- The cache holds a flag that is then switched off; the notification fails at its `INCR`, and the hash expires
    with the flag still on in it. -/
def missedKill : List (Nat × Act) :=
  [(1, .request (.create checkoutCreate (str "ops")) firstSupply), (1, .next), (1, .next), (1, .next), (1, .next),
    (1, .next), (1, .next), (0, .getRuleset), (0, .next), (0, .next), (0, .next), (0, .next), (0, .next), (0, .next),
    (2, .request (.update (str "checkout") switchOff (str "ops")) firstSupply), (2, .next), (2, .fault false),
    (3, .lapse)]

def askAgain : List (Nat × Act) :=
  [(4, .getRuleset), (4, .next), (4, .next), (4, .next), (4, .next), (4, .next), (4, .next)]

theorem cache_self_heals_missedKill :
    ∃ stale gone world : Traffic,
      run (World.act trafficStep) Traffic.start missedKill.dropLast = some stale ∧
      stale.shared.redis.hget (str "checkout") ≠ rowPayload stale.shared.db (str "checkout") ∧
      RunWhere (World.act trafficStep) (fun _ action => action.2.RulesAscending) Traffic.start missedKill gone ∧
      RunWhere (World.act trafficStep) (fun world action => action.2.NoFault ∧ Orderly world action) gone askAgain
        world ∧
      world.shared.redis.hexists completeField ∧ Consistent world.shared.db world.shared.redis := by
  obtain ⟨stale, before, differs⟩ := run_reaches (World.act trafficStep) Traffic.start missedKill.dropLast
    (fun stale => stale.shared.redis.hget (str "checkout") ≠ rowPayload stale.shared.db (str "checkout"))
    (by decide +kernel)
  obtain ⟨gone, runs, empty, done, goesOn⟩ := runWhere_reaches (World.act trafficStep)
    (fun _ action => action.2.RulesAscending) Traffic.start missedKill
    (fun gone => gone.shared.redis.ruleset.entries.isEmpty ∧
      (∀ who < 4, ((gone.parties who).next gone.shared).isNone) ∧
      (guardedRun (World.act trafficStep) (fun world action => action.2.NoFault ∧ Orderly world action) gone
        askAgain).any fun world => decide (world.shared.redis.hexists completeField ∧
          world.shared.db.audit.length = gone.shared.db.audit.length)) (by decide +kernel)
  obtain ⟨world, reruns, reached⟩ := (Option.any_eq_true _ _).mp goesOn
  obtain ⟨complete, unchanged⟩ := of_decide_eq_true reached
  have idle : ∀ who, (gone.parties who).next gone.shared = none := by
    intro who
    by_cases acted : who < 4
    · exact Option.isNone_iff_eq_none.mp (done who acted)
    · have others : ∀ action ∈ missedKill, action.1 < 4 := by decide
      have untouched : gone.parties who = Traffic.start.parties who :=
        World.run_others (fun action member same => acted (same ▸ others action member)) runs.run
      rw [untouched]
      rfl
  have fresh : Traffic.Fresh gone := Traffic.fresh_of_done (AList.ext (List.isEmpty_iff.mp empty)) idle
  have continues := guardedRun_eq_some.mp reruns
  refine ⟨stale, gone, world, before, differs, runs, continues, complete,
    cache_self_heals runs fresh continues fun n bound => .inl ⟨unchanged ▸ bound, fun who change pending => ?_⟩⟩
  rw [Option.mem_def, Party.pending?_of_done (idle who)] at pending
  cases pending

end Ripcord
