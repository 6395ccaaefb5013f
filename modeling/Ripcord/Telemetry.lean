import Ripcord.AcceptedKeys
import Ripcord.Exceptions

namespace Ripcord

open Foundation

/-- An instance that a session has loaded. What is expired is loaded again when it is read, which only an
    awaited call can do. -/
structure Mapped (α : Type) where
  loaded : α
  expired : Bool := false

/-- `async_sessionmaker(engine, expire_on_commit=False)`. -/
def expireOnCommit : Bool := false

namespace Mapped

variable {α β : Type}

def read (object : Mapped α) (field : α → β) : Except PyError β :=
  if object.expired then .error .missingGreenlet else .ok (field object.loaded)

def assign (object : Mapped α) (change : α → α) : Mapped α := { object with loaded := change object.loaded }

def committed (object : Mapped α) : Mapped α := { object with expired := object.expired || expireOnCommit }

def rolledBack (object : Mapped α) : Mapped α := { object with expired := true }

end Mapped

structure StoredKey extends ApiKey where
  keyId : Str

inductive Commit
  | succeeds
  | raises
  deriving DecidableEq

/-- `_touch_last_used`, with the state it leaves `api_key` in. The log line of its handler reads the key id. -/
def touchLastUsed (servers : Servers) (apiKey : Mapped StoredKey) (now : ℚ) (commit : Commit) :
    Servers × Except PyError (Mapped StoredKey) :=
  match apiKey.read fun key => key.lastUsedAt with
  | .error failure => (servers, .error failure)
  | .ok lastUsedAt =>
    if ∃ used ∈ lastUsedAt, now - used < lastUsedRefresh then (servers, .ok apiKey)
    else
      let written := apiKey.assign fun key => { key with lastUsedAt := some now }
      match commit with
      | .succeeds =>
        (servers.updateKey apiKey.loaded.keyId fun row => { row with lastUsedAt := some now }, .ok written.committed)
      | .raises => (servers, (written.rolledBack.read StoredKey.keyId).map fun _ => written.rolledBack)

/-- `bootstrap and hmac.compare_digest(full_key.encode(), bootstrap.encode())`. -/
def isBootstrap (settings : AuthSettings) (fullKey : Str) : Except PyError Bool :=
  if settings.bootstrapAdminKey = [] then .ok false
  else if IsUnicode fullKey ∧ IsUnicode settings.bootstrapAdminKey then .ok (fullKey = settings.bootstrapAdminKey)
  else .error .unicodeEncodeError

def hashSecret (settings : AuthSettings) (secret : Str) : Except PyError Str :=
  if IsUnicode secret then .ok (settings.hashSecret secret) else .error .unicodeEncodeError

def principalOf (apiKey : Mapped StoredKey) : Except PyError Principal :=
  (apiKey.read fun key => key.name).bind fun name =>
    (apiKey.read fun key => key.scopes).bind fun scopes =>
      (apiKey.read StoredKey.keyId).map fun keyId => { name, scopes := scopes.toFinset, keyId := some keyId }

def authenticateRow (settings : AuthSettings) (servers : Servers) (p : Nat) (keyId secret : Str) (row : Option ApiKey)
    (now : ℚ) (commit : Commit) : Servers × Except PyError (Option Principal) :=
  match row with
  | none => (servers, (hashSecret settings secret).map fun _ => none)
  | some row =>
    if row.revokedAt ≠ none then (servers, .ok none)
    else
      match hashSecret settings secret with
      | .error failure => (servers, .error failure)
      | .ok digest =>
        if row.secretHash ≠ digest then (servers, .ok none)
        else
          let servers := servers.setProcess p (remember settings (servers.processes p) keyId row)
          let (servers, touched) := touchLastUsed servers ⟨⟨row, keyId⟩, false⟩ now commit
          (servers, touched.bind fun apiKey => (principalOf apiKey).map some)

/-- `authenticate` of one request by itself; `commit` is the fate of its write to `last_used_at`. -/
def authenticate (settings : AuthSettings) (servers : Servers) (p : Nat) (fullKey : Str) (now : ℚ) (commit : Commit) :
    Servers × Except PyError (Option Principal) :=
  match splitKey fullKey with
  | none => (servers, .ok none)
  | some (keyId, secret) =>
    match isBootstrap settings fullKey with
    | .error failure => (servers, .error failure)
    | .ok true => (servers, .ok (some bootstrapPrincipal))
    | .ok false =>
      let (entry, process) := cached (servers.processes p) keyId
      let servers := servers.setProcess p process
      match entry with
      | some entry =>
        (servers, (hashSecret settings secret).map fun digest =>
          if entry.secretHash ≠ digest then none else some (entry.principal keyId))
      | none => authenticateRow settings servers p keyId secret (servers.keys.lookup keyId) now commit

/-- Who presents a valid key: the bootstrap key, one that the process remembers, or an unrevoked stored one. -/
inductive ValidKey (settings : AuthSettings) (servers : Servers) (p : Nat) (fullKey : Str) : Principal → Prop
  | bootstrap {keyId secret : Str} (split : splitKey fullKey = some (keyId, secret))
    (matched : isBootstrap settings fullKey = .ok true) : ValidKey settings servers p fullKey bootstrapPrincipal
  | remembered {keyId secret : Str} {entry : CachedKey} (split : splitKey fullKey = some (keyId, secret))
    (other : isBootstrap settings fullKey = .ok false) (hit : (cached (servers.processes p) keyId).1 = some entry)
    (verified : hashSecret settings secret = .ok entry.secretHash) :
    ValidKey settings servers p fullKey (entry.principal keyId)
  | stored {keyId secret : Str} {row : ApiKey} (split : splitKey fullKey = some (keyId, secret))
    (other : isBootstrap settings fullKey = .ok false) (miss : (cached (servers.processes p) keyId).1 = none)
    (found : servers.keys.lookup keyId = some row) (live : row.revokedAt = none)
    (verified : hashSecret settings secret = .ok row.secretHash) :
    ValidKey settings servers p fullKey (row.principal keyId)

/-- A valid key's last use is written: the row was read, and the use it records is not recent. -/
def WritesLastUsed (settings : AuthSettings) (servers : Servers) (p : Nat) (fullKey : Str) (now : ℚ) : Prop :=
  isBootstrap settings fullKey = .ok false ∧
    ∃ keyId secret row, splitKey fullKey = some (keyId, secret) ∧ (cached (servers.processes p) keyId).1 = none ∧
      servers.keys.lookup keyId = some row ∧ ∀ used ∈ row.lastUsedAt, lastUsedRefresh ≤ now - used

section Telemetry

variable {settings : AuthSettings} {servers : Servers} {p : Nat} {fullKey keyId secret : Str} {now : ℚ}
  {commit : Commit} {row : ApiKey} {principal : Principal}

@[simp] theorem setProcess_keys (servers : Servers) (p : Nat) (process : Process) :
    (servers.setProcess p process).keys = servers.keys :=
  rfl

theorem touchLastUsed_recent (recent : ∃ used ∈ row.lastUsedAt, now - used < lastUsedRefresh) :
    touchLastUsed servers ⟨⟨row, keyId⟩, false⟩ now commit = (servers, .ok ⟨⟨row, keyId⟩, false⟩) :=
  if_pos recent

theorem touchLastUsed_writes (stale : ¬ ∃ used ∈ row.lastUsedAt, now - used < lastUsedRefresh) :
    touchLastUsed servers ⟨⟨row, keyId⟩, false⟩ now .succeeds =
      (servers.updateKey keyId fun row => { row with lastUsedAt := some now },
        .ok ⟨⟨{ row with lastUsedAt := some now }, keyId⟩, false⟩) :=
  if_neg stale

theorem touchLastUsed_raises (stale : ¬ ∃ used ∈ row.lastUsedAt, now - used < lastUsedRefresh) :
    touchLastUsed servers ⟨⟨row, keyId⟩, false⟩ now .raises = (servers, .error .missingGreenlet) :=
  if_neg stale

theorem authenticate_hit {entry : CachedKey} {process : Process} (split : splitKey fullKey = some (keyId, secret))
    (other : isBootstrap settings fullKey = .ok false)
    (looked : cached (servers.processes p) keyId = (some entry, process)) :
    authenticate settings servers p fullKey now commit =
      (servers.setProcess p process, (hashSecret settings secret).map fun digest =>
        if entry.secretHash ≠ digest then none else some (entry.principal keyId)) := by
  unfold authenticate
  simp only [split, other, looked]

theorem authenticate_miss {process : Process} (split : splitKey fullKey = some (keyId, secret))
    (other : isBootstrap settings fullKey = .ok false) (looked : cached (servers.processes p) keyId = (none, process)) :
    authenticate settings servers p fullKey now commit =
      authenticateRow settings (servers.setProcess p process) p keyId secret (servers.keys.lookup keyId) now
        commit := by
  unfold authenticate
  simp only [split, other, looked, setProcess_keys]

theorem authenticateRow_verified (live : row.revokedAt = none)
    (verified : hashSecret settings secret = .ok row.secretHash) :
    authenticateRow settings servers p keyId secret (some row) now commit =
      ((touchLastUsed (servers.setProcess p (remember settings (servers.processes p) keyId row))
          ⟨⟨row, keyId⟩, false⟩ now commit).1,
        (touchLastUsed (servers.setProcess p (remember settings (servers.processes p) keyId row))
          ⟨⟨row, keyId⟩, false⟩ now commit).2.bind fun apiKey => (principalOf apiKey).map some) := by
  simp [authenticateRow, live, verified]

theorem authenticate_stored (split : splitKey fullKey = some (keyId, secret))
    (other : isBootstrap settings fullKey = .ok false) (miss : (cached (servers.processes p) keyId).1 = none)
    (found : servers.keys.lookup keyId = some row) (live : row.revokedAt = none)
    (verified : hashSecret settings secret = .ok row.secretHash) :
    ∃ remembered, (authenticate settings servers p fullKey now commit).2 =
      (touchLastUsed remembered ⟨⟨row, keyId⟩, false⟩ now commit).2.bind fun apiKey =>
        (principalOf apiKey).map some := by
  have looked : cached (servers.processes p) keyId = (none, (cached (servers.processes p) keyId).2) :=
    Prod.ext miss rfl
  rw [authenticate_miss split other looked]
  simp only [found, authenticateRow_verified live verified]
  exact ⟨_, rfl⟩

theorem writesLastUsed_stored (split : splitKey fullKey = some (keyId, secret))
    (found : servers.keys.lookup keyId = some row) (writes : WritesLastUsed settings servers p fullKey now) :
    ¬ ∃ used ∈ row.lastUsedAt, now - used < lastUsedRefresh := by
  obtain ⟨_, _, _, _, again, _, also, stale⟩ := writes
  rw [split] at again
  cases again
  rw [found] at also
  cases also
  rintro ⟨used, last, recent⟩
  exact absurd recent (not_lt.mpr (stale used last))

theorem ValidKey.authenticates (valid : ValidKey settings servers p fullKey principal)
    (kept : ¬ (commit = .raises ∧ WritesLastUsed settings servers p fullKey now)) :
    (authenticate settings servers p fullKey now commit).2 = .ok (some principal) := by
  cases valid with
  | bootstrap split matched => simp [authenticate, split, matched]
  | @remembered keyId _ entry split other hit verified =>
    have looked : cached (servers.processes p) keyId = (some entry, (cached (servers.processes p) keyId).2) :=
      Prod.ext hit rfl
    rw [authenticate_hit split other looked]
    simp [verified, Except.map]
  | @stored keyId secret row split other miss found live verified =>
    obtain ⟨remembered, answers⟩ := @authenticate_stored settings servers p fullKey keyId secret now commit row
      split other miss found live verified
    rw [answers]
    by_cases recent : ∃ used ∈ row.lastUsedAt, now - used < lastUsedRefresh
    · rw [touchLastUsed_recent recent]
      rfl
    · cases commit with
      | succeeds =>
        rw [touchLastUsed_writes recent]
        rfl
      | raises =>
        have stale : ∀ used ∈ row.lastUsedAt, lastUsedRefresh ≤ now - used := by
          simpa using recent
        exact absurd ⟨rfl, other, keyId, secret, row, split, miss, found, stale⟩ kept

theorem ValidKey.raises (valid : ValidKey settings servers p fullKey principal)
    (writes : WritesLastUsed settings servers p fullKey now) :
    (authenticate settings servers p fullKey now .raises).2 = .error .missingGreenlet := by
  have untouched := writes
  obtain ⟨plain, keyId, secret, row, apart, cold, _⟩ := untouched
  cases valid with
  | bootstrap _ matched =>
    rw [matched] at plain
    cases plain
  | remembered split _ hit _ =>
    rw [split] at apart
    cases apart
    rw [hit] at cold
    cases cold
  | stored split other miss found live verified =>
    obtain ⟨remembered, answers⟩ := authenticate_stored split other miss found live verified
    rw [answers, touchLastUsed_raises (writesLastUsed_stored split found writes)]
    rfl

/-- A valid key authenticates as its principal exactly when no write of its last use is tried and fails. -/
theorem telemetry_harmless_iff (valid : ValidKey settings servers p fullKey principal) (now : ℚ) (commit : Commit) :
    (authenticate settings servers p fullKey now commit).2 = .ok (some principal) ↔
      ¬ (commit = .raises ∧ WritesLastUsed settings servers p fullKey now) := by
  constructor
  · rintro answers ⟨rfl, writes⟩
    rw [valid.raises writes] at answers
    cases answers
  · exact valid.authenticates

def deployServers : Servers := ⟨deployKeys, fun _ => ⟨∅, 0⟩, []⟩

def deployRow : ApiKey := { secretHash := s3cretDigest, name := str "ci-deploy", scopes := [str "sdk"] }

theorem deploy_valid :
    ValidKey fiveSeconds deployServers 0 (str "rpc_ab12_s3cret") (deployRow.principal (str "ab12")) := by
  have split : splitKey (str "rpc_ab12_s3cret") = some (str "ab12", str "s3cret") := by decide
  have found : deployServers.keys.lookup (str "ab12") = some deployRow := by decide
  exact .stored split (by decide) (by decide) found rfl (by decide)

theorem telemetry_harmless_iff_deploy :
    ((authenticate fiveSeconds deployServers 0 (str "rpc_ab12_s3cret") 10 .succeeds).2 =
      .ok (some (deployRow.principal (str "ab12")))) ↔
      ¬ (Commit.succeeds = .raises ∧ WritesLastUsed fiveSeconds deployServers 0 (str "rpc_ab12_s3cret") 10) :=
  telemetry_harmless_iff deploy_valid 10 .succeeds

theorem failedTouch_raises :
    ∃ principal, ValidKey fiveSeconds deployServers 0 (str "rpc_ab12_s3cret") principal ∧
      (authenticate fiveSeconds deployServers 0 (str "rpc_ab12_s3cret") 10 .succeeds).2 = .ok (some principal) ∧
      (authenticate fiveSeconds deployServers 0 (str "rpc_ab12_s3cret") 10 .raises).2 = .error .missingGreenlet :=
  ⟨_, deploy_valid, by decide, by decide⟩

end Telemetry

/-! The call by itself is a run of the steps that calls interleave by. -/

section Steps

variable {settings : AuthSettings} {servers : Servers} {p : Nat} {fullKey keyId secret : Str} {now : ℚ}
  {commit : Commit}

def soloStep (settings : AuthSettings) (state : Servers × AuthParty) (act : AuthAct) : Option (Servers × AuthParty) :=
  authStep settings state.1 state.2 act

def endPoint : Except PyError (Option Principal) → AuthPoint
  | .ok principal => .returned principal
  | .error _ => .raised

@[simp] theorem setProcess_self (servers : Servers) (p : Nat) :
    servers.setProcess p (servers.processes p) = servers := by
  simp [Servers.setProcess]

theorem splitKey_unicode (unicode : IsUnicode fullKey) (split : splitKey fullKey = some (keyId, secret)) :
    IsUnicode secret := by
  intro c member
  apply unicode c
  rw [splitKey_eq_some split]
  simp [member]

theorem isBootstrap_unicode (key : IsUnicode fullKey) (bootstrap : IsUnicode settings.bootstrapAdminKey) :
    isBootstrap settings fullKey =
      .ok (decide (settings.bootstrapAdminKey ≠ [] ∧ fullKey = settings.bootstrapAdminKey)) := by
  unfold isBootstrap
  by_cases unset : settings.bootstrapAdminKey = []
  · simp [unset]
  · simp [unset, key, bootstrap]

theorem begin_bootstrap {process : Process} (split : splitKey fullKey = some (keyId, secret))
    (matched : settings.bootstrapAdminKey ≠ [] ∧ fullKey = settings.bootstrapAdminKey) :
    beginAuthenticate settings process fullKey = (process, .returned (some bootstrapPrincipal)) := by
  unfold beginAuthenticate
  simp only [split]
  exact if_pos matched

theorem begin_hit {process after : Process} {entry : CachedKey} (split : splitKey fullKey = some (keyId, secret))
    (plain : ¬ (settings.bootstrapAdminKey ≠ [] ∧ fullKey = settings.bootstrapAdminKey))
    (looked : cached process keyId = (some entry, after)) :
    beginAuthenticate settings process fullKey =
      (after, .returned
        (if entry.secretHash ≠ settings.hashSecret secret then none else some (entry.principal keyId))) := by
  unfold beginAuthenticate
  simp only [split, if_neg plain, looked]
  by_cases verified : entry.secretHash = settings.hashSecret secret
  · simp [verified, CachedKey.principal]
  · simp [verified]

theorem begin_miss {process after : Process} (split : splitKey fullKey = some (keyId, secret))
    (plain : ¬ (settings.bootstrapAdminKey ≠ [] ∧ fullKey = settings.bootstrapAdminKey))
    (looked : cached process keyId = (none, after)) :
    beginAuthenticate settings process fullKey = (after, .select keyId secret) := by
  unfold beginAuthenticate
  simp only [split, if_neg plain, looked]

theorem run_begin {process : Process} {point : AuthPoint} (acts : List AuthAct)
    (begins : beginAuthenticate settings (servers.processes p) fullKey = (process, point)) :
    run (soloStep settings) (servers, .idle) (.authenticate p fullKey :: acts) =
      run (soloStep settings) (servers.setProcess p process, .authenticate p servers.revoked point) acts := by
  simp [run, soloStep, authStep, begins]

theorem run_next {before : List (Nat × Str)} {point next : AuthPoint} {after : Servers} (acts : List AuthAct)
    (steps : point.next settings servers p now = some (after, next)) :
    run (soloStep settings) (servers, .authenticate p before point) (.next now :: acts) =
      run (soloStep settings) (after, .authenticate p before next) acts := by
  simp [run, soloStep, authStep, steps]

theorem run_refused {row : Option ApiKey} {before : List (Nat × Str)}
    (refused : resumeAuthenticate settings (servers.processes p) keyId secret row now =
      (servers.processes p, .returned none)) :
    run (soloStep settings) (servers, .authenticate p before (.resume keyId secret row)) [.next now] =
      some (servers, .authenticate p before (.returned none)) := by
  have resumes :
      (AuthPoint.resume keyId secret row).next settings servers p now = some (servers, .returned none) := by
    simp only [AuthPoint.next, refused, setProcess_self]
  rw [run_next [] resumes]
  rfl

theorem authenticateRow_refused {row : ApiKey}
    (hashes : hashSecret settings secret = .ok (settings.hashSecret secret))
    (unverified : ¬ verifies settings secret row) :
    authenticateRow settings servers p keyId secret (some row) now commit = (servers, .ok none) := by
  unfold authenticateRow
  by_cases live : row.revokedAt = none
  · have wrong : row.secretHash ≠ settings.hashSecret secret := fun same => unverified ⟨live, same⟩
    simp [live, hashes, wrong]
  · simp [live]

theorem run_row (row : Option ApiKey) (before : List (Nat × Str))
    (hashes : hashSecret settings secret = .ok (settings.hashSecret secret)) :
    ∃ acts, run (soloStep settings) (servers, .authenticate p before (.resume keyId secret row)) acts =
      some ((authenticateRow settings servers p keyId secret row now commit).1,
        .authenticate p before (endPoint (authenticateRow settings servers p keyId secret row now commit).2)) := by
  cases row with
  | none =>
    refine ⟨[.next now], ?_⟩
    rw [run_refused rfl, authenticateRow, hashes]
    rfl
  | some row =>
    by_cases verified : verifies settings secret row
    · have digest : hashSecret settings secret = .ok row.secretHash := by rw [hashes, verified.2]
      rw [authenticateRow_verified verified.1 digest]
      by_cases recent : ∃ used ∈ row.lastUsedAt, now - used < lastUsedRefresh
      · have resumes : (AuthPoint.resume keyId secret (some row)).next settings servers p now =
            some (servers.setProcess p (remember settings (servers.processes p) keyId row),
              .returned (some (row.principal keyId))) := by
          simp only [AuthPoint.next, resumeAuthenticate, if_pos verified, if_pos recent]
          rfl
        rw [touchLastUsed_recent recent]
        exact ⟨[.next now], run_next [] resumes⟩
      · have resumes : (AuthPoint.resume keyId secret (some row)).next settings servers p now =
            some (servers.setProcess p (remember settings (servers.processes p) keyId row),
              .touch keyId now (row.principal keyId)) := by
          simp only [AuthPoint.next, resumeAuthenticate, if_pos verified, if_neg recent]
          rfl
        cases commit with
        | succeeds =>
          rw [touchLastUsed_writes recent]
          exact ⟨[.next now, .next now], (run_next [.next now] resumes).trans rfl⟩
        | raises =>
          rw [touchLastUsed_raises recent]
          exact ⟨[.next now, .touchRaises], (run_next [.touchRaises] resumes).trans rfl⟩
    · have refused : resumeAuthenticate settings (servers.processes p) keyId secret (some row) now =
          (servers.processes p, .returned none) := if_neg verified
      refine ⟨[.next now], ?_⟩
      rw [run_refused refused, authenticateRow_refused hashes verified]
      rfl

theorem authenticate_run (key : IsUnicode fullKey) (bootstrap : IsUnicode settings.bootstrapAdminKey) :
    ∃ acts, run (soloStep settings) (servers, .idle) acts =
      some ((authenticate settings servers p fullKey now commit).1,
        .authenticate p servers.revoked (endPoint (authenticate settings servers p fullKey now commit).2)) := by
  cases split : splitKey fullKey with
  | none =>
    have begins : beginAuthenticate settings (servers.processes p) fullKey =
        (servers.processes p, .returned none) := by
      simp only [beginAuthenticate, split]
    refine ⟨[.authenticate p fullKey], ?_⟩
    rw [run_begin [] begins, setProcess_self]
    simp [authenticate, split, run, endPoint]
  | some parts =>
    obtain ⟨keyId, secret⟩ := parts
    have hashes : hashSecret settings secret = .ok (settings.hashSecret secret) := if_pos (splitKey_unicode key split)
    have compares := isBootstrap_unicode key bootstrap
    by_cases matched : settings.bootstrapAdminKey ≠ [] ∧ fullKey = settings.bootstrapAdminKey
    · rw [decide_eq_true matched] at compares
      refine ⟨[.authenticate p fullKey], ?_⟩
      rw [run_begin [] (begin_bootstrap split matched), setProcess_self]
      simp [authenticate, split, compares, run, endPoint]
    · rw [decide_eq_false matched] at compares
      cases looked : cached (servers.processes p) keyId with
      | mk entry process =>
        cases entry with
        | some entry =>
          refine ⟨[.authenticate p fullKey], ?_⟩
          rw [authenticate_hit split compares looked, run_begin [] (begin_hit split matched looked), hashes]
          rfl
        | none =>
          rw [authenticate_miss split compares looked]
          obtain ⟨acts, continues⟩ := run_row (servers.keys.lookup keyId) servers.revoked hashes
          refine ⟨.authenticate p fullKey :: .next now :: acts, ?_⟩
          rw [run_begin _ (begin_miss split matched looked), run_next acts rfl]
          exact continues

end Steps

end Ripcord
