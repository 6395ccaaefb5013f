import Ripcord.AcceptedKeys
import Ripcord.Foundation.History

namespace Ripcord

open Foundation

/-! A key that nobody has revoked. -/

def ApiKey.Of (row made : ApiKey) : Prop :=
  row.secretHash = made.secretHash ∧ row.name = made.name ∧ row.scopes = made.scopes

def CachedKey.Of (entry : CachedKey) (made : ApiKey) : Prop :=
  entry.secretHash = made.secretHash ∧ entry.name = made.name ∧ entry.scopes = made.scopes.toFinset

/-- A later state of the row: still the same key, and a tombstone if it was one. -/
def ApiKey.Later (before after : ApiKey) : Prop := after.Of before ∧ (before.revokedAt ≠ none → after.revokedAt ≠ none)

def Servers.Kept (before after : Servers) : Prop :=
  ∀ keyId row, before.keys.lookup keyId = some row →
    ∃ later, after.keys.lookup keyId = some later ∧ row.Later later

def Servers.Faithful (servers : Servers) : Prop :=
  ∀ p keyId entry, (servers.processes p).cache.lookup keyId = some entry →
    ∃ row, servers.keys.lookup keyId = some row ∧ entry.Of row

def AuthPoint.Faithful (servers : Servers) : AuthPoint → Prop
  | .resume keyId _ (some row) => ∃ later, servers.keys.lookup keyId = some later ∧ row.Later later
  | _ => True

def AuthParty.Faithful (servers : Servers) : AuthParty → Prop
  | .authenticate _ _ point => point.Faithful servers
  | _ => True

section Rows

variable {servers after : Servers} {party next : AuthParty} {keyId : Str}

theorem ApiKey.Later.refl (row : ApiKey) : row.Later row := ⟨⟨rfl, rfl, rfl⟩, id⟩

theorem ApiKey.Later.trans {first second third : ApiKey} (one : first.Later second) (two : second.Later third) :
    first.Later third := by
  rcases one with ⟨⟨digest, name, scopes⟩, revoked⟩
  rcases two with ⟨⟨digestToo, nameToo, scopesToo⟩, revokedToo⟩
  exact ⟨⟨digestToo.trans digest, nameToo.trans name, scopesToo.trans scopes⟩,
    fun before => revokedToo (revoked before)⟩

theorem CachedKey.Of.later {entry : CachedKey} {row later : ApiKey} (of : entry.Of row) (same : row.Later later) :
    entry.Of later := by
  rcases of with ⟨digest, name, scopes⟩
  rcases same with ⟨⟨digestToo, nameToo, scopesToo⟩, _⟩
  exact ⟨digest.trans digestToo.symm, name.trans nameToo.symm, by rw [scopes, scopesToo]⟩

theorem Servers.Kept.of_keys (same : after.keys = servers.keys) : servers.Kept after := by
  intro keyId row found
  rw [same]
  exact ⟨row, found, .refl row⟩

theorem Servers.Kept.updateKey {change : ApiKey → ApiKey} (keeps : ∀ row : ApiKey, row.Later (change row)) :
    servers.Kept (servers.updateKey keyId change) := by
  intro other row found
  rw [lookup_updateKey]
  split
  · rename_i same
    subst same
    exact ⟨change row, by rw [found, Option.map_some], keeps row⟩
  · exact ⟨row, found, .refl row⟩

theorem Servers.Kept.insert {row : ApiKey} (fresh : servers.keys.lookup keyId = none) :
    servers.Kept { servers with keys := servers.keys.insert keyId row } := by
  intro other stored found
  have different : other ≠ keyId := by
    intro same
    rw [same, fresh] at found
    cases found
  exact ⟨stored, by rw [AList.lookup_insert_ne different, found], .refl stored⟩

theorem Servers.Kept.tombstoned (kept : servers.Kept after) (tombstoned : servers.Tombstoned keyId) :
    after.Tombstoned keyId := by
  rcases tombstoned with ⟨row, found, revoked⟩
  rcases kept keyId row found with ⟨later, still, same⟩
  exact ⟨later, still, same.2 revoked⟩

theorem Servers.Faithful.kept (faithful : servers.Faithful) (kept : servers.Kept after)
    (shrinks : servers.Shrinks after) : after.Faithful := by
  intro p keyId entry found
  rcases faithful p keyId entry ((shrinks p).2 keyId entry found) with ⟨row, stored, of⟩
  rcases kept keyId row stored with ⟨later, still, same⟩
  exact ⟨later, still, of.later same⟩

theorem AuthParty.Faithful.kept (faithful : party.Faithful servers) (kept : servers.Kept after) :
    party.Faithful after := by
  cases party with
  | authenticate p before point =>
    cases point with
    | resume keyId secret row =>
      cases row with
      | none => trivial
      | some row =>
        rcases faithful with ⟨later, found, same⟩
        rcases kept keyId later found with ⟨last, still, sameToo⟩
        exact ⟨last, still, same.trans sameToo⟩
    | _ => trivial
  | _ => trivial

end Rows

section Steps

variable {settings : AuthSettings} {servers after : Servers} {party next : AuthParty} {act : AuthAct} {p : Nat}
  {keyId secret : Str} {now : ℚ}

theorem Servers.Faithful.remember {row : ApiKey} (faithful : servers.Faithful)
    (stored : ∃ later, servers.keys.lookup keyId = some later ∧ row.Later later) :
    (servers.setProcess p (remember settings (servers.processes p) keyId row)).Faithful := by
  intro other otherKey entry found
  rcases lookup_remember found with ⟨rfl, rfl, rfl⟩ | before
  · rcases stored with ⟨later, here, own⟩
    exact ⟨later, here, CachedKey.Of.later ⟨rfl, rfl, rfl⟩ own⟩
  · exact faithful other otherKey entry before

/-- What a step owes the others: every key stays what it is, and no cache comes to differ from the table. -/
structure Servers.Serves (before after : Servers) (party : AuthParty) : Prop where
  faithful : after.Faithful
  kept : before.Kept after
  own : party.Faithful after

theorem AuthPoint.next_serves {point next : AuthPoint} {before : List (Nat × Str)} (faithful : servers.Faithful)
    (own : point.Faithful servers) (steps : point.next settings servers p now = some (after, next)) :
    servers.Serves after (.authenticate p before next) := by
  cases point with
  | select keyId secret =>
    cases steps
    refine ⟨faithful, .of_keys rfl, ?_⟩
    show AuthPoint.Faithful servers (.resume keyId secret (servers.keys.lookup keyId))
    cases found : servers.keys.lookup keyId with
    | none => trivial
    | some row => exact ⟨row, found, .refl row⟩
  | resume keyId secret row =>
    rcases resumeAuthenticate_cases settings (servers.processes p) keyId secret row now with
      refused | ⟨found, rfl, verified, returns | touches⟩
    · simp only [AuthPoint.next, refused] at steps
      cases steps
      exact ⟨faithful.kept (.of_keys rfl) (setProcess_shrinks (le_refl _) fun _ _ here => here), .of_keys rfl, trivial⟩
    · simp only [AuthPoint.next, returns] at steps
      cases steps
      exact ⟨faithful.remember own, .of_keys rfl, trivial⟩
    · simp only [AuthPoint.next, touches] at steps
      cases steps
      exact ⟨faithful.remember own, .of_keys rfl, trivial⟩
  | touch keyId used principal =>
    cases steps
    have kept : servers.Kept (servers.updateKey keyId fun row => { row with lastUsedAt := some used }) :=
      .updateKey fun row => ⟨⟨rfl, rfl, rfl⟩, id⟩
    exact ⟨faithful.kept kept (.of_processes (updateKey_processes _)), kept, trivial⟩
  | returned => cases steps
  | raised => cases steps

theorem RevokePoint.next_kept {point next : RevokePoint} (steps : point.next servers p keyId now = some (after, next)) :
    servers.Kept after := by
  cases point with
  | resume row =>
    cases row with
    | none =>
      cases steps
      exact .of_keys rfl
    | some row =>
      simp only [RevokePoint.next] at steps
      split at steps <;> cases steps <;> exact .of_keys rfl
  | commit time =>
    cases steps
    exact .updateKey fun row => ⟨⟨rfl, rfl, rfl⟩, fun _ => by simp⟩
  | returned => cases steps
  | _ =>
    cases steps
    exact .of_keys rfl

theorem Begins.faithful {process after : Process} {fullKey : Str} {point : AuthPoint} (servers : Servers)
    (begins : Begins settings process fullKey after point) : point.Faithful servers := by
  cases begins <;> trivial

theorem authStep_serves (faithful : servers.Faithful) (own : party.Faithful servers)
    (steps : authStep settings servers party act = some (after, next)) : servers.Serves after next := by
  cases authStep_moves steps with
  | @begins p fullKey =>
    have begins := beginAuthenticate_begins settings (servers.processes p) fullKey
    have kept : servers.Kept (servers.setProcess p (beginAuthenticate settings (servers.processes p) fullKey).1) :=
      .of_keys rfl
    exact ⟨faithful.kept kept begins.shrinks, kept, begins.faithful _⟩
  | revokes => exact ⟨faithful, .of_keys rfl, trivial⟩
  | authenticate nexts => exact AuthPoint.next_serves faithful own nexts
  | revoke nexts =>
    have kept := RevokePoint.next_kept nexts
    exact ⟨faithful.kept kept (RevokePoint.next_shrinks nexts), kept, trivial⟩
  | raises => exact ⟨faithful, .of_keys rfl, trivial⟩
  | @ticks p seconds _ forward =>
    have later : (servers.processes p).clock ≤ (servers.processes p).clock + seconds := le_add_of_nonneg_right forward
    have kept : servers.Kept
        (servers.setProcess p { servers.processes p with clock := (servers.processes p).clock + seconds }) :=
      .of_keys rfl
    exact ⟨faithful.kept kept (setProcess_shrinks later fun _ _ found => found), kept, own.kept kept⟩
  | @mints keyId row _ fresh =>
    have kept : servers.Kept { servers with keys := servers.keys.insert keyId row } := .insert fresh
    exact ⟨faithful.kept kept (.of_processes rfl), kept, own.kept kept⟩

end Steps

/-- A call that was begun with the key of the row: what it has found so far is that row, and it is turned away only
    if the key has been revoked. -/
def AuthParty.Serving (servers : Servers) (keyId secret : Str) (made : ApiKey) : AuthParty → Prop
  | .authenticate _ _ (.select selected given) => selected = keyId ∧ given = secret
  | .authenticate _ _ (.resume selected given row) => selected = keyId ∧ given = secret ∧ row.isSome
  | .authenticate _ _ (.touch _ _ principal) => principal = made.principal keyId
  | .authenticate _ _ (.returned principal) => principal = some (made.principal keyId) ∨ servers.Tombstoned keyId
  | .authenticate _ _ .raised => True
  | _ => False

def Servers.Holds (servers : Servers) (keyId : Str) (made : ApiKey) : Prop :=
  ∃ row, servers.keys.lookup keyId = some row ∧ row.Of made

section Serving

variable {settings : AuthSettings} {servers after : Servers} {party next : AuthParty} {act : AuthAct}
  {keyId secret : Str} {made : ApiKey}

theorem Servers.Holds.kept (holds : servers.Holds keyId made) (kept : servers.Kept after) : after.Holds keyId made := by
  rcases holds with ⟨row, found, digest, name, scopes⟩
  rcases kept keyId row found with ⟨later, still, ⟨digestToo, nameToo, scopesToo⟩, _⟩
  exact ⟨later, still, digestToo.trans digest, nameToo.trans name, scopesToo.trans scopes⟩

theorem AuthParty.Serving.kept (serving : party.Serving servers keyId secret made) (kept : servers.Kept after) :
    party.Serving after keyId secret made := by
  cases party with
  | authenticate p before point =>
    cases point with
    | returned principal => exact serving.imp_right kept.tombstoned
    | _ => exact serving
  | _ => exact serving

theorem ApiKey.Of.back {row later : ApiKey} (same : later.Of row) (of : later.Of made) : row.Of made := by
  rcases same with ⟨digest, name, scopes⟩
  rcases of with ⟨digestToo, nameToo, scopesToo⟩
  exact ⟨digest.symm.trans digestToo, name.symm.trans nameToo, scopes.symm.trans scopesToo⟩

theorem ApiKey.Of.principal {row : ApiKey} (of : row.Of made) (keyId : Str) :
    row.principal keyId = made.principal keyId := by
  rcases of with ⟨_, name, scopes⟩
  simp only [ApiKey.principal, name, scopes]

theorem begin_serving {p : Nat} {fullKey : Str} (faithful : servers.Faithful) (holds : servers.Holds keyId made)
    (digest : made.secretHash = settings.hashSecret secret) (split : splitKey fullKey = some (keyId, secret))
    (ordinary : fullKey ≠ settings.bootstrapAdminKey)
    (steps : authStep settings servers party (.authenticate p fullKey) = some (after, next)) :
    next.Serving after keyId secret made := by
  cases authStep_moves steps with
  | begins =>
    have stored : ¬ (settings.bootstrapAdminKey ≠ [] ∧ fullKey = settings.bootstrapAdminKey) :=
      fun same => ordinary same.2
    simp only [beginAuthenticate, split, if_neg stored, cached]
    cases found : (servers.processes p).cache.lookup keyId with
    | none => exact ⟨rfl, rfl⟩
    | some entry =>
      by_cases expired : entry.expiresAt ≤ (servers.processes p).clock
      · simp only [if_pos expired]
        exact ⟨rfl, rfl⟩
      · rcases faithful p keyId entry found with ⟨row, here, own, name, scopes⟩
        rcases holds with ⟨same, there, of⟩
        rw [here] at there
        cases there
        have verified : entry.secretHash = settings.hashSecret secret := own.trans (of.1.trans digest)
        simp only [if_neg expired, verified, ne_eq, not_true_eq_false, if_false]
        left
        rw [name, scopes]
        exact congrArg some (of.principal keyId)

theorem authStep_serving (holds : servers.Holds keyId made) (digest : made.secretHash = settings.hashSecret secret)
    (own : party.Faithful servers) (serving : party.Serving servers keyId secret made) (kept : servers.Kept after)
    (steps : authStep settings servers party act = some (after, next)) :
    next.Serving after keyId secret made := by
  cases authStep_moves steps with
  | begins => exact absurd serving id
  | revokes => exact absurd serving id
  | revoke => exact absurd serving id
  | raises => trivial
  | ticks => exact serving.kept kept
  | mints => exact serving.kept kept
  | @authenticate p before point next now _ nexts =>
    cases point with
    | select selected given =>
      cases nexts
      rcases serving with ⟨rfl, rfl⟩
      rcases holds with ⟨row, found, _⟩
      exact ⟨rfl, rfl, by simp [found]⟩
    | resume selected given row =>
      rcases serving with ⟨rfl, rfl, read⟩
      rcases Option.isSome_iff_exists.mp read with ⟨row, rfl⟩
      rcases own with ⟨later, found, same⟩
      rcases holds with ⟨current, here, of⟩
      rw [found] at here
      cases here
      have made' : row.Of made := same.1.back of
      by_cases verified : verifies settings given row
      · simp only [AuthPoint.next, resumeAuthenticate, if_pos verified] at nexts
        split at nexts <;> cases nexts
        · left
          exact congrArg some (made'.principal selected)
        · exact made'.principal selected
      · simp only [AuthPoint.next, resumeAuthenticate, if_neg verified] at nexts
        cases nexts
        have revoked : row.revokedAt ≠ none := fun live => verified ⟨live, made'.1.trans digest⟩
        right
        exact kept.tombstoned ⟨later, found, same.2 revoked⟩
    | touch keyId used principal =>
      cases nexts
      left
      exact congrArg some serving
    | returned => cases nexts
    | raised => cases nexts

end Serving

section Runs

variable {settings : AuthSettings} {keyId secret : Str} {made : ApiKey}

structure AuthWorld.Serving (world : AuthWorld) (who : Nat) (keyId secret : Str) (made : ApiKey) : Prop where
  faithful : world.shared.Faithful
  each : ∀ other, (world.parties other).Faithful world.shared
  holds : world.shared.Holds keyId made
  serving : (world.parties who).Serving world.shared keyId secret made

theorem AuthWorld.act_serves {world next : AuthWorld} {action : Nat × AuthAct} (faithful : world.shared.Faithful)
    (each : ∀ who, (world.parties who).Faithful world.shared)
    (acts : World.act (authStep settings) world action = some next) :
    (next.shared.Faithful ∧ world.shared.Kept next.shared) ∧ ∀ who, (next.parties who).Faithful next.shared := by
  obtain ⟨who, act⟩ := action
  apply World.act_invariant (fun servers => servers.Faithful ∧ world.shared.Kept servers)
    (fun servers party => AuthParty.Faithful servers party) acts each
  intro servers party steps
  have serves := authStep_serves faithful (each who) steps
  exact ⟨⟨serves.faithful, serves.kept⟩, serves.own, fun _ own => own.kept serves.kept⟩

theorem AuthWorld.faithful_of_run {keys : AList fun _ : Str => ApiKey} {clocks : Nat → ℚ} {world : AuthWorld}
    {acts : List (Nat × AuthAct)}
    (runs : run (World.act (authStep settings)) (AuthWorld.start keys clocks) acts = some world) :
    world.shared.Faithful ∧ ∀ who, (world.parties who).Faithful world.shared := by
  refine run_invariant (fun world : AuthWorld =>
    world.shared.Faithful ∧ ∀ who, (world.parties who).Faithful world.shared) ?_ runs ?_
  · intro world action next ⟨faithful, each⟩ acts
    rcases AuthWorld.act_serves faithful each acts with ⟨⟨faithfulNext, _⟩, eachNext⟩
    exact ⟨faithfulNext, eachNext⟩
  · exact ⟨fun p keyId entry found => (by cases found), fun _ => trivial⟩

theorem AuthWorld.Serving.act {world next : AuthWorld} {who : Nat} {action : Nat × AuthAct}
    (serving : AuthWorld.Serving world who keyId secret made) (digest : made.secretHash = settings.hashSecret secret)
    (acts : World.act (authStep settings) world action = some next) :
    AuthWorld.Serving next who keyId secret made := by
  rcases AuthWorld.act_serves serving.faithful serving.each acts with ⟨⟨faithful, kept⟩, each⟩
  refine ⟨faithful, each, serving.holds.kept kept, ?_⟩
  rcases World.act_party acts who with ⟨_, steps⟩ | ⟨_, same⟩
  · exact authStep_serving serving.holds digest (serving.each who) serving.serving kept steps
  · rw [same]
    exact serving.serving.kept kept

end Runs

/-- Whatever else goes on, an `authenticate` begun with a key that is in the table is answered with the principal the
    key was made for, unless the key has been revoked by the time of the answer. -/
theorem unrevoked_key_accepted {settings : AuthSettings} {keys : AList fun _ : Str => ApiKey} {clocks : Nat → ℚ}
    {asked answered : AuthWorld} {acts more : List (Nat × AuthAct)} {who p q : Nat} {fullKey keyId secret : Str}
    {made : ApiKey} {before : List (Nat × Str)} {principal : Option Principal}
    (runs : run (World.act (authStep settings)) (AuthWorld.start keys clocks) acts = some asked)
    (stored : asked.shared.keys.lookup keyId = some made) (digest : made.secretHash = settings.hashSecret secret)
    (split : splitKey fullKey = some (keyId, secret)) (ordinary : fullKey ≠ settings.bootstrapAdminKey)
    (continues : run (World.act (authStep settings)) asked ((who, .authenticate p fullKey) :: more) = some answered)
    (answers : answered.parties who = .authenticate q before (.returned principal)) :
    principal = some (made.principal keyId) ∨ answered.shared.Tombstoned keyId := by
  rcases AuthWorld.faithful_of_run runs with ⟨faithful, each⟩
  have holds : asked.shared.Holds keyId made := ⟨made, stored, rfl, rfl, rfl⟩
  rcases run_cons continues with ⟨begun, begins, goesOn⟩
  have opens : AuthWorld.Serving begun who keyId secret made := by
    rcases AuthWorld.act_serves faithful each begins with ⟨⟨faithfulNext, kept⟩, eachNext⟩
    refine ⟨faithfulNext, eachNext, holds.kept kept, ?_⟩
    rcases World.act_party begins who with ⟨_, steps⟩ | ⟨elsewhere, _⟩
    · exact begin_serving faithful holds digest split ordinary steps
    · exact absurd rfl elsewhere
  have last := run_invariant (fun world : AuthWorld => AuthWorld.Serving world who keyId secret made)
    (fun _ _ _ serving acts => serving.act digest acts) goesOn opens
  have answered := last.serving
  rwa [answers] at answered

/-- A guess at the key's secret fails, and another is under way while the key itself is presented. -/
def guessed : List (Nat × AuthAct) :=
  [(0, .authenticate 0 (str "rpc_ab12_guess")), (0, .next 10), (0, .next 10),
    (2, .authenticate 0 (str "rpc_ab12_guess")), (2, .next 10)]

def presented : List (Nat × AuthAct) := [(1, deployCall 0), (1, .next 11), (2, .next 11), (1, .next 11), (1, .next 11)]

theorem AuthParty.served?_eq_some {party : AuthParty} {p : Nat} {before : List (Nat × Str)} {principal : Principal}
    (served : party.served? = some (p, before, principal)) :
    party = .authenticate p before (.returned (some principal)) := by
  unfold AuthParty.served? at served
  split at served <;> cases served
  rfl

def ciDeployKey : ApiKey := { secretHash := s3cretDigest, name := str "ci-deploy", scopes := [str "sdk"] }

theorem unrevoked_key_accepted_guessed :
    ∃ asked answered : AuthWorld,
      run (World.act (authStep twoSecrets)) startDeploy guessed = some asked ∧
      run (World.act (authStep twoSecrets)) asked presented = some answered ∧
      ¬ answered.shared.Tombstoned (str "ab12") ∧
      ∃ p before, answered.parties 1 = .authenticate p before
        (.returned (some (ciDeployKey.principal (str "ab12")))) := by
  obtain ⟨asked, runs, stored, goesOn⟩ := run_reaches (World.act (authStep twoSecrets)) startDeploy guessed
    (fun asked => asked.shared.keys.lookup (str "ab12") = some ciDeployKey ∧
      (run (World.act (authStep twoSecrets)) asked presented).any fun answered =>
        decide ((answered.parties 1).served?.isSome ∧
          ∀ row ∈ answered.shared.keys.lookup (str "ab12"), row.revokedAt = none)) (by decide +kernel)
  obtain ⟨answered, continues, reached⟩ := (Option.any_eq_true _ _).mp goesOn
  obtain ⟨ends, live⟩ := of_decide_eq_true reached
  obtain ⟨⟨p, before, principal⟩, served⟩ := Option.isSome_iff_exists.mp ends
  have answers := AuthParty.served?_eq_some served
  have valid : ¬ answered.shared.Tombstoned (str "ab12") := fun ⟨row, found, revoked⟩ => revoked (live row found)
  have digest : ciDeployKey.secretHash = twoSecrets.hashSecret (str "s3cret") := by decide +kernel
  have split : splitKey (str "rpc_ab12_s3cret") = some (str "ab12", str "s3cret") := by decide +kernel
  have accepted := (unrevoked_key_accepted runs stored digest split (by decide +kernel) continues answers).resolve_right
    valid
  refine ⟨asked, answered, runs, continues, valid, p, before, ?_⟩
  rw [answers, accepted]

end Ripcord
