import Ripcord.Auth
import Ripcord.Foundation.Transition

namespace Ripcord

open Foundation

abbrev AuthWorld := World Servers AuthParty

def AuthWorld.start (keys : AList fun _ : Str => ApiKey) (clocks : Nat → ℚ) : AuthWorld :=
  ⟨⟨keys, fun p => ⟨∅, clocks p⟩, []⟩, fun _ => .idle⟩

def Process.Live (process : Process) (keyId : Str) : Prop :=
  ∃ entry ∈ process.cache.lookup keyId, process.clock < entry.expiresAt

instance (process : Process) (keyId : Str) : Decidable (process.Live keyId) := by
  unfold Process.Live
  infer_instance

/-- The process and key whose cache entry the party's next step writes. -/
def AuthParty.fill? (settings : AuthSettings) : AuthParty → Option (Nat × Str)
  | .authenticate p _ (.resume keyId secret (some row)) =>
    if 0 < settings.authCacheSeconds ∧ verifies settings secret row then some (p, keyId) else none
  | _ => none

/-- The process and key for which the party's next step returns a tombstone. -/
def AuthParty.tombstone? : AuthParty → Option (Nat × Str)
  | .revoke p keyId (.resume (some row)) => if row.revokedAt = none then none else some (p, keyId)
  | _ => none

def AuthAct.isNext : AuthAct → Bool
  | .next _ => true
  | _ => false

/-- No call caches a key on a process where a revocation of it has returned, and a revocation that finds
    its key revoked finds it out of its process's cache too. -/
def Prompt (settings : AuthSettings) (world : AuthWorld) (action : Nat × AuthAct) : Prop :=
  action.2.isNext →
    (∀ here ∈ (world.parties action.1).fill? settings, here ∉ world.shared.revoked) ∧
      ∀ here ∈ (world.parties action.1).tombstone?, ¬ (world.shared.processes here.1).Live here.2

instance (settings : AuthSettings) (world : AuthWorld) (action : Nat × AuthAct) :
    Decidable (Prompt settings world action) := by
  unfold Prompt
  infer_instance

def Servers.Tombstoned (servers : Servers) (keyId : Str) : Prop :=
  ∃ row ∈ servers.keys.lookup keyId, row.revokedAt ≠ none

structure Servers.Sound (servers : Servers) : Prop where
  tombstoned : ∀ p keyId, (p, keyId) ∈ servers.revoked → servers.Tombstoned keyId
  dead : ∀ p keyId, (p, keyId) ∈ servers.revoked → ¬ (servers.processes p).Live keyId

def AuthPoint.Barred (keyId : Str) : AuthPoint → Prop
  | .resume selected _ row => selected = keyId → ∀ r ∈ row, r.revokedAt ≠ none
  | .touch _ _ principal | .returned (some principal) => principal.keyId ≠ some keyId
  | _ => True

def RevokePoint.Sound (servers : Servers) (keyId : Str) : RevokePoint → Prop
  | .resume (some row) =>
    (servers.keys.lookup keyId).isSome ∧ (row.revokedAt ≠ none → servers.Tombstoned keyId)
  | .commit _ => (servers.keys.lookup keyId).isSome
  | .committed => servers.Tombstoned keyId
  | _ => True

def AuthParty.Sound (servers : Servers) : AuthParty → Prop
  | .authenticate p before point =>
    (∀ here ∈ before, here ∈ servers.revoked) ∧ ∀ keyId, (p, keyId) ∈ before → point.Barred keyId
  | .revoke _ keyId point => point.Sound servers keyId
  | .idle => True

structure Servers.Evolves (before after : Servers) : Prop where
  rows : ∀ keyId, (before.keys.lookup keyId).isSome → (after.keys.lookup keyId).isSome
  tombstoned : ∀ keyId, before.Tombstoned keyId → after.Tombstoned keyId
  revoked : ∀ here ∈ before.revoked, here ∈ after.revoked

theorem Servers.Evolves.refl (servers : Servers) : Servers.Evolves servers servers :=
  ⟨fun _ some => some, fun _ tombstoned => tombstoned, fun _ member => member⟩

theorem AuthParty.Sound.evolves {before after : Servers} {party : AuthParty} (own : party.Sound before)
    (evolves : before.Evolves after) : party.Sound after := by
  cases party with
  | idle => trivial
  | authenticate p earlier point => exact ⟨fun here member => evolves.revoked here (own.1 here member), own.2⟩
  | revoke p keyId point =>
    cases point with
    | resume row =>
      cases row with
      | none => trivial
      | some row => exact ⟨evolves.rows keyId own.1, fun revoked => evolves.tombstoned keyId (own.2 revoked)⟩
    | commit time => exact evolves.rows keyId own
    | committed => exact evolves.tombstoned keyId own
    | _ => trivial

section Table

variable {servers : Servers} {keyId : Str}

theorem lookup_updateKey (change : ApiKey → ApiKey) (other : Str) :
    (servers.updateKey keyId change).keys.lookup other =
      if other = keyId then (servers.keys.lookup keyId).map change else servers.keys.lookup other := by
  unfold Servers.updateKey
  cases found : servers.keys.lookup keyId with
  | none =>
    by_cases same : other = keyId
    · subst same
      simp [found]
    · simp [same]
  | some row =>
    by_cases same : other = keyId
    · subst same
      simp
    · simp [same, AList.lookup_insert_ne same]

@[simp] theorem updateKey_revoked (change : ApiKey → ApiKey) :
    (servers.updateKey keyId change).revoked = servers.revoked := by
  unfold Servers.updateKey
  split <;> rfl

@[simp] theorem updateKey_processes (change : ApiKey → ApiKey) :
    (servers.updateKey keyId change).processes = servers.processes := by
  unfold Servers.updateKey
  split <;> rfl

theorem updateKey_evolves {change : ApiKey → ApiKey}
    (keeps : ∀ row, row.revokedAt ≠ none → (change row).revokedAt ≠ none) :
    servers.Evolves (servers.updateKey keyId change) := by
  constructor
  · intro other some
    rw [lookup_updateKey]
    split
    · rename_i same
      subst same
      simpa using some
    · exact some
  · intro other ⟨row, found, revoked⟩
    rw [Servers.Tombstoned, lookup_updateKey]
    split
    · rename_i same
      subst same
      have changed : (servers.keys.lookup other).map change = some (change row) := by
        rw [Option.mem_def.mp found, Option.map_some]
      exact ⟨change row, changed, keeps row revoked⟩
    · exact ⟨row, found, revoked⟩
  · intro here member
    rwa [updateKey_revoked]

theorem updateKey_sound {change : ApiKey → ApiKey} (sound : servers.Sound)
    (keeps : ∀ row, row.revokedAt ≠ none → (change row).revokedAt ≠ none) :
    (servers.updateKey keyId change).Sound := by
  constructor
  · intro p key member
    rw [updateKey_revoked] at member
    exact (updateKey_evolves keeps).tombstoned key (sound.tombstoned p key member)
  · intro p key member
    rw [updateKey_revoked] at member
    rw [updateKey_processes]
    exact sound.dead p key member

end Table

section Caches

variable {servers : Servers} {p : Nat} {process : Process} {keyId : Str}

theorem setProcess_evolves (servers : Servers) (p : Nat) (process : Process) :
    servers.Evolves (servers.setProcess p process) :=
  ⟨fun _ some => some, fun _ tombstoned => tombstoned, fun _ member => member⟩

theorem setProcess_sound (sound : servers.Sound)
    (dead : ∀ keyId, (p, keyId) ∈ servers.revoked → ¬ process.Live keyId) :
    (servers.setProcess p process).Sound := by
  refine ⟨sound.tombstoned, fun other keyId member => ?_⟩
  by_cases same : other = p
  · subst same
    simpa [Servers.setProcess] using dead keyId member
  · simpa [Servers.setProcess, Function.update_of_ne same] using sound.dead other keyId member

theorem not_live_invalidated (process : Process) (keyId : Str) :
    ¬ (invalidateKeyCache process keyId).Live keyId := by
  intro ⟨entry, found, _⟩
  simp [invalidateKeyCache] at found

theorem live_of_invalidated {other : Str} (live : (invalidateKeyCache process keyId).Live other) :
    process.Live other := by
  obtain ⟨entry, found, fresh⟩ := live
  exact ⟨entry, lookup_invalidated found, fresh⟩

theorem live_of_remember {settings : AuthSettings} {row : ApiKey} {other : Str}
    (live : (remember settings process keyId row).Live other) :
    process.Live other ∨ other = keyId ∧ 0 < settings.authCacheSeconds := by
  unfold remember at live
  split at live
  · rename_i positive
    by_cases same : other = keyId
    · exact .inr ⟨same, positive⟩
    · obtain ⟨entry, found, fresh⟩ := live
      rw [AList.lookup_insert_ne same] at found
      exact .inl ⟨entry, found, fresh⟩
  · exact .inl live

theorem live_of_tick {seconds : ℚ} {other : Str} (forward : 0 ≤ seconds)
    (live : Process.Live { process with clock := process.clock + seconds } other) : process.Live other := by
  obtain ⟨entry, found, fresh⟩ := live
  exact ⟨entry, found, lt_of_le_of_lt (le_add_of_nonneg_right forward) fresh⟩

end Caches

structure Servers.Keeps (before after : Servers) (party : AuthParty) : Prop where
  sound : after.Sound
  evolves : before.Evolves after
  own : party.Sound after

section Steps

variable {settings : AuthSettings} {servers : Servers} {p : Nat} {keyId : Str} {now : ℚ}

theorem Begins.keeps {process : Process} {fullKey : Str} {point : AuthPoint} (sound : servers.Sound)
    (begins : Begins settings (servers.processes p) fullKey process point) :
    servers.Keeps (servers.setProcess p process) (.authenticate p servers.revoked point) := by
  have start : (∀ keyId, process.Live keyId → (servers.processes p).Live keyId) →
      (∀ keyId, (p, keyId) ∈ servers.revoked → AuthPoint.Barred keyId point) →
      servers.Keeps (servers.setProcess p process) (.authenticate p servers.revoked point) :=
    fun live barred =>
      ⟨setProcess_sound sound fun keyId member alive => sound.dead p keyId member (live keyId alive),
        setProcess_evolves _ _ _, fun _ member => member, barred⟩
  cases begins with
  | bootstrap => exact start (fun _ live => live) fun _ _ => by simp [AuthPoint.Barred, bootstrapPrincipal]
  | @hit keyId secret entry split found fresh verified =>
    apply start fun _ live => live
    intro other member
    simp only [AuthPoint.Barred, CachedKey.principal, ne_eq, Option.some.injEq]
    rintro rfl
    exact sound.dead p keyId member ⟨entry, found, fresh⟩
  | expired => exact start (fun _ => live_of_invalidated) fun _ _ => trivial
  | _ => exact start (fun _ live => live) fun _ _ => trivial

theorem resumeAuthenticate_barred {secret : Str} {row : Option ApiKey} {other : Str} (process : Process)
    (barred : AuthPoint.Barred other (.resume keyId secret row)) :
    (resumeAuthenticate settings process keyId secret row now).2.Barred other := by
  rcases resumeAuthenticate_cases settings process keyId secret row now with
    refused | ⟨row, rfl, verified, remembers⟩
  · rw [refused]
    trivial
  · have different : keyId ≠ other := fun same => barred same row rfl verified.1
    rcases remembers with returns | touches
    · rw [returns]
      simpa [AuthPoint.Barred, ApiKey.principal] using different
    · rw [touches]
      simpa [AuthPoint.Barred, ApiKey.principal] using different

theorem live_of_resume {secret : Str} {row : Option ApiKey} (before : List (Nat × Str)) {other : Str}
    (live : (resumeAuthenticate settings (servers.processes p) keyId secret row now).1.Live other) :
    (servers.processes p).Live other ∨
      (AuthParty.authenticate p before (.resume keyId secret row)).fill? settings = some (p, other) := by
  rcases resumeAuthenticate_cases settings (servers.processes p) keyId secret row now with
    refused | ⟨row, rfl, verified, remembers⟩
  · rw [refused] at live
    exact .inl live
  · have remembered : (remember settings (servers.processes p) keyId row).Live other := by
      rcases remembers with returns | touches
      · rwa [returns] at live
      · rwa [touches] at live
    rcases live_of_remember remembered with old | ⟨rfl, positive⟩
    · exact .inl old
    · exact .inr (if_pos ⟨positive, verified⟩)

theorem AuthPoint.next_keeps {before : List (Nat × Str)} {point next : AuthPoint} {after : Servers}
    (sound : servers.Sound) (own : (AuthParty.authenticate p before point).Sound servers)
    (prompt : ∀ here ∈ (AuthParty.authenticate p before point).fill? settings, here ∉ servers.revoked)
    (steps : point.next settings servers p now = some (after, next)) :
    servers.Keeps after (.authenticate p before next) := by
  obtain ⟨earlier, barred⟩ := own
  cases point with
  | select keyId secret =>
    cases steps
    refine ⟨sound, .refl _, earlier, fun other member => ?_⟩
    intro same row found
    subst same
    obtain ⟨current, here, revoked⟩ := sound.tombstoned p keyId (earlier _ member)
    rw [Option.mem_def.mp here] at found
    cases found
    exact revoked
  | resume keyId secret row =>
    cases steps
    refine ⟨setProcess_sound sound fun other member live => ?_, setProcess_evolves _ _ _, earlier,
      fun other member => resumeAuthenticate_barred _ (barred other member)⟩
    rcases live_of_resume before live with old | fills
    · exact sound.dead p other member old
    · exact prompt (p, other) fills member
  | touch keyId used principal =>
    cases steps
    have keeps : ∀ row : ApiKey, row.revokedAt ≠ none →
        ({ row with lastUsedAt := some used } : ApiKey).revokedAt ≠ none := fun _ revoked => revoked
    have evolves : servers.Evolves (servers.updateKey keyId fun row => { row with lastUsedAt := some used }) :=
      updateKey_evolves keeps
    exact ⟨updateKey_sound sound keeps, evolves, fun here member => evolves.revoked here (earlier here member), barred⟩
  | returned principal => cases steps
  | raised => cases steps

theorem Servers.Sound.revoke {process : Process} (sound : servers.Sound) (tombstoned : servers.Tombstoned keyId)
    (fewer : ∀ other, process.Live other → (servers.processes p).Live other) (dead : ¬ process.Live keyId) :
    Servers.Sound { servers.setProcess p process with revoked := (p, keyId) :: servers.revoked } := by
  have kept : (servers.setProcess p process).Sound :=
    setProcess_sound sound fun other member live => sound.dead p other member (fewer other live)
  constructor
  · intro other key member
    rcases List.mem_cons.mp member with same | member
    · cases same
      exact tombstoned
    · exact kept.tombstoned other key member
  · intro other key member
    rcases List.mem_cons.mp member with same | member
    · cases same
      simpa [Servers.setProcess] using dead
    · exact kept.dead other key member

theorem Servers.Keeps.revoke {process : Process} (sound : servers.Sound)
    (tombstoned : servers.Tombstoned keyId)
    (fewer : ∀ other, process.Live other → (servers.processes p).Live other) (dead : ¬ process.Live keyId) :
    servers.Keeps { servers.setProcess p process with revoked := (p, keyId) :: servers.revoked }
      (.revoke p keyId (.returned 200)) where
  sound := sound.revoke tombstoned fewer dead
  evolves := ⟨fun _ some => some, fun _ tombstoned => tombstoned, fun _ member => List.mem_cons_of_mem _ member⟩
  own := trivial

theorem RevokePoint.next_keeps {point next : RevokePoint} {after : Servers} (sound : servers.Sound)
    (own : point.Sound servers keyId)
    (prompt : ∀ here ∈ (AuthParty.revoke p keyId point).tombstone?, ¬ (servers.processes here.1).Live here.2)
    (steps : point.next servers p keyId now = some (after, next)) :
    servers.Keeps after (.revoke p keyId next) := by
  cases point with
  | select =>
    cases steps
    refine ⟨sound, .refl _, ?_⟩
    cases found : servers.keys.lookup keyId with
    | none => trivial
    | some row => exact ⟨by simp [found], fun revoked => ⟨row, found, revoked⟩⟩
  | resume row =>
    cases row with
    | none =>
      cases steps
      exact ⟨sound, .refl _, trivial⟩
    | some row =>
      simp only [RevokePoint.next] at steps
      split at steps <;> cases steps
      · exact ⟨sound, .refl _, own.1⟩
      · rename_i revoked
        have dead := prompt (p, keyId) (if_neg revoked)
        have same : servers.setProcess p (servers.processes p) = servers := by
          simp [Servers.setProcess]
        have kept := Servers.Keeps.revoke sound (own.2 revoked) (fun _ live => live) dead
        rwa [same] at kept
  | commit time =>
    cases steps
    have keeps : ∀ row : ApiKey, row.revokedAt ≠ none →
        ({ row with revokedAt := some time } : ApiKey).revokedAt ≠ none := fun _ _ => by simp
    refine ⟨updateKey_sound sound keeps, updateKey_evolves keeps, ?_⟩
    obtain ⟨row, found⟩ := Option.isSome_iff_exists.mp own
    exact ⟨{ row with revokedAt := some time }, by simp [lookup_updateKey, found], by simp⟩
  | committed =>
    cases steps
    exact .revoke sound own (fun _ => live_of_invalidated) (not_live_invalidated _ _)
  | returned status => cases steps

theorem authStep_keeps {party next : AuthParty} {act : AuthAct} {after : Servers} (sound : servers.Sound)
    (own : party.Sound servers)
    (prompt : act.isNext → (∀ here ∈ party.fill? settings, here ∉ servers.revoked) ∧
      ∀ here ∈ party.tombstone?, ¬ (servers.processes here.1).Live here.2)
    (steps : authStep settings servers party act = some (after, next)) : servers.Keeps after next := by
  cases authStep_moves steps with
  | begins => exact (beginAuthenticate_begins _ _ _).keeps sound
  | revokes => exact ⟨sound, .refl _, trivial⟩
  | authenticate nexts => exact AuthPoint.next_keeps sound own (prompt rfl).1 nexts
  | revoke nexts => exact RevokePoint.next_keeps sound own (prompt rfl).2 nexts
  | raises => exact ⟨sound, .refl _, own.1, fun _ _ => trivial⟩
  | @ticks p seconds _ forward =>
    have evolves := setProcess_evolves servers p
      { servers.processes p with clock := (servers.processes p).clock + seconds }
    have dead : ∀ keyId, (p, keyId) ∈ servers.revoked →
        ¬ Process.Live { servers.processes p with clock := (servers.processes p).clock + seconds } keyId :=
      fun keyId member live => sound.dead p keyId member (live_of_tick forward live)
    exact ⟨setProcess_sound sound dead, evolves, own.evolves evolves⟩
  | @mints keyId row _ fresh =>
    have lookups : ∀ other, (servers.keys.lookup other).isSome →
        (servers.keys.insert keyId row).lookup other = servers.keys.lookup other := by
      intro other found
      apply AList.lookup_insert_ne
      intro same
      subst same
      simp [fresh] at found
    have evolves : servers.Evolves { servers with keys := servers.keys.insert keyId row } := by
      constructor
      · intro other found
        exact (congrArg Option.isSome (lookups other found)).trans found
      · intro other ⟨current, found, revoked⟩
        have kept := lookups other (Option.isSome_of_mem found)
        exact ⟨current, kept.trans found, revoked⟩
      · exact fun _ member => member
    have tombstoned : ∀ q key, (q, key) ∈ servers.revoked →
        Servers.Tombstoned { servers with keys := servers.keys.insert keyId row } key :=
      fun q key member => evolves.tombstoned key (sound.tombstoned q key member)
    exact ⟨⟨tombstoned, sound.dead⟩, evolves, own.evolves evolves⟩

end Steps

theorem AuthWorld.sound_of_run {settings : AuthSettings} {keys : AList fun _ : Str => ApiKey} {clocks : Nat → ℚ}
    {world : AuthWorld} {acts : List (Nat × AuthAct)}
    (runs : RunWhere (World.act (authStep settings)) (Prompt settings) (AuthWorld.start keys clocks) acts world) :
    world.shared.Sound ∧ ∀ who, (world.parties who).Sound world.shared := by
  refine runs.invariant (fun world : AuthWorld =>
    world.shared.Sound ∧ ∀ who, (world.parties who).Sound world.shared) ?_ ?_
  · intro world ⟨who, act⟩ next prompt ⟨sound, each⟩ acts
    apply World.act_invariant _ (fun servers party => party.Sound servers) acts each
    intro servers party steps
    have keeps := authStep_keeps sound (each who) prompt steps
    exact ⟨keeps.sound, keeps.own, fun _ own => own.evolves keeps.evolves⟩
  · exact ⟨⟨by simp [AuthWorld.start], by simp [AuthWorld.start]⟩, fun _ => trivial⟩

def AuthParty.served? : AuthParty → Option (Nat × List (Nat × Str) × Principal)
  | .authenticate p before (.returned (some principal)) => some (p, before, principal)
  | _ => none

/-- No call has returned a principal for a key whose revocation had returned on its process before the
    call started. -/
def RevokedRefused (world : AuthWorld) : Prop :=
  ∀ who p before principal keyId, (world.parties who).served? = some (p, before, principal) →
    (p, keyId) ∈ before → principal.keyId ≠ some keyId

/-- In every prompt run revocation is immediate on the process that handled it. -/
theorem revoked_refused {settings : AuthSettings} {keys : AList fun _ : Str => ApiKey} {clocks : Nat → ℚ}
    {world : AuthWorld} {acts : List (Nat × AuthAct)}
    (runs : RunWhere (World.act (authStep settings)) (Prompt settings) (AuthWorld.start keys clocks) acts world) :
    RevokedRefused world := by
  intro who p before principal keyId served revoked
  have own := (AuthWorld.sound_of_run runs).2 who
  unfold AuthParty.served? at served
  split at served <;> cases served
  rename_i returned
  rw [returned] at own
  exact own.2 keyId revoked

def s3cretDigest : Str := str "1ec1c26b50d5d3c58d9583181af8076655fe00756bf7285940ba3670f99fcba0"

def fiveSeconds : AuthSettings :=
  { bootstrapAdminKey := [], authCacheSeconds := 5, hashSecret := fun _ => s3cretDigest }

def deployKeys : AList fun _ : Str => ApiKey :=
  AList.singleton (str "ab12") { secretHash := s3cretDigest, name := str "ci-deploy", scopes := [str "sdk"] }

def deployCall (p : Nat) : AuthAct := .authenticate p (str "rpc_ab12_s3cret")

def startDeploy : AuthWorld := AuthWorld.start deployKeys fun _ => 0

def promptRevocation : List (Nat × AuthAct) :=
  [(0, deployCall 0), (0, .next 10), (0, .next 10), (0, .next 10), (1, .revoke 0 (str "ab12")), (1, .next 11),
    (1, .next 11), (1, .next 11), (1, .next 11), (2, deployCall 0), (2, .next 12), (2, .next 12)]

theorem revoked_refused_prompt :
    ∃ world, RunWhere (World.act (authStep fiveSeconds)) (Prompt fiveSeconds) startDeploy promptRevocation world ∧
      (0, str "ab12") ∈ world.shared.revoked ∧ RevokedRefused world := by
  obtain ⟨world, runs, revoked⟩ := runWhere_reaches (World.act (authStep fiveSeconds))
    (Prompt fiveSeconds) startDeploy promptRevocation
    (fun world => (0, str "ab12") ∈ world.shared.revoked) (by decide +kernel)
  exact ⟨world, runs, revoked, revoked_refused runs⟩

def lateFill : List (Nat × AuthAct) :=
  [(0, deployCall 0), (0, .next 10), (1, .revoke 0 (str "ab12")), (1, .next 11), (1, .next 11), (1, .next 11),
    (1, .next 11), (0, .next 12), (0, .next 12), (2, deployCall 0)]

/-- The key is cached on one process, revoked on another, and revoked again on the first. -/
def repeatedRevocation : List (Nat × AuthAct) :=
  [(0, deployCall 0), (0, .next 10), (0, .next 10), (0, .next 10), (1, .revoke 1 (str "ab12")), (1, .next 11),
    (1, .next 11), (1, .next 11), (1, .next 11), (3, .revoke 0 (str "ab12")), (3, .next 12), (3, .next 12),
    (2, deployCall 0)]

def servedRevoked (world : AuthWorld) : Prop :=
  ∃ call ∈ (world.parties 2).served?, (call.1, str "ab12") ∈ call.2.1 ∧ call.2.2.keyId = some (str "ab12")

instance (world : AuthWorld) : Decidable (servedRevoked world) := by
  unfold servedRevoked
  infer_instance

theorem not_revokedRefused {world : AuthWorld} (served : servedRevoked world) : ¬ RevokedRefused world := by
  intro refused
  obtain ⟨⟨p, before, principal⟩, call, revoked, same⟩ := served
  exact refused 2 p before principal _ call revoked same

theorem revoked_key_served :
    (∃ world, run (World.act (authStep fiveSeconds)) startDeploy lateFill = some world ∧ ¬ RevokedRefused world) ∧
      ∃ world, run (World.act (authStep fiveSeconds)) startDeploy repeatedRevocation = some world ∧
        ¬ RevokedRefused world := by
  constructor
  · obtain ⟨world, runs, served⟩ := run_reaches (World.act (authStep fiveSeconds)) startDeploy lateFill
      servedRevoked (by decide +kernel)
    exact ⟨world, runs, not_revokedRefused served⟩
  · obtain ⟨world, runs, served⟩ := run_reaches (World.act (authStep fiveSeconds)) startDeploy
      repeatedRevocation servedRevoked (by decide +kernel)
    exact ⟨world, runs, not_revokedRefused served⟩

end Ripcord
