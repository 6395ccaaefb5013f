import Ripcord.Foundation.Str
import Mathlib.Algebra.Order.Ring.Unbundled.Rat
import Mathlib.Data.Finset.Dedup
import Mathlib.Data.List.AList

namespace Ripcord

open Foundation

structure Principal where
  name : Str
  scopes : Finset Str
  keyId : Option Str := none
  deriving DecidableEq

def keyPrefix : Str := str "rpc"

def cut (sep : CodePoint) (s : Str) : Option (Str × Str) :=
  match s.dropWhile fun c => c ≠ sep with
  | [] => none
  | _ :: rest => some (s.takeWhile fun c => c ≠ sep, rest)

def splitKey (fullKey : Str) : Option (Str × Str) :=
  match cut (ch '_') fullKey with
  | none => none
  | some (first, others) =>
    match cut (ch '_') others with
    | none => none
    | some (keyId, secret) =>
      if first ≠ keyPrefix then none
      else if keyId = [] ∨ secret = [] then none
      else if keyId.any fun c => c ∉ str "0123456789abcdef" then none
      else some (keyId, secret)

/-- A row of `api_keys`, which the table holds under its `key_id`. Times are in seconds. -/
structure ApiKey where
  secretHash : Str
  name : Str
  scopes : List Str
  lastUsedAt : Option ℚ := none
  revokedAt : Option ℚ := none
  deriving DecidableEq

structure CachedKey where
  secretHash : Str
  name : Str
  scopes : Finset Str
  expiresAt : ℚ
  deriving DecidableEq

/-- The settings that `authenticate` reads, and SHA-256 of a key's secret half. -/
structure AuthSettings where
  bootstrapAdminKey : Str
  authCacheSeconds : ℚ
  hashSecret : Str → Str

/-- A server process: its `_key_cache` and its `time.monotonic()`. -/
structure Process where
  cache : AList fun _ : Str => CachedKey
  clock : ℚ

def lastUsedRefresh : ℚ := 300

def invalidateKeyCache (process : Process) (keyId : Str) : Process :=
  { process with cache := process.cache.erase keyId }

def cached (process : Process) (keyId : Str) : Option CachedKey × Process :=
  match process.cache.lookup keyId with
  | none => (none, process)
  | some entry =>
    if entry.expiresAt ≤ process.clock then (none, invalidateKeyCache process keyId) else (some entry, process)

/-- Where an `authenticate` call stands: before its query, between the query and its resumption, before
    the commit of `_touch_last_used`, or at its end. -/
inductive AuthPoint
  | select (keyId secret : Str)
  | resume (keyId secret : Str) (row : Option ApiKey)
  | touch (keyId : Str) (now : ℚ) (principal : Principal)
  | returned (principal : Option Principal)
  | raised

/-- `authenticate` up to its first await. -/
def beginAuthenticate (settings : AuthSettings) (process : Process) (fullKey : Str) : Process × AuthPoint :=
  match splitKey fullKey with
  | none => (process, .returned none)
  | some (keyId, secret) =>
    if settings.bootstrapAdminKey ≠ [] ∧ fullKey = settings.bootstrapAdminKey then
      (process, .returned (some { name := str "bootstrap", scopes := [str "admin"].toFinset }))
    else
      match cached process keyId with
      | (some entry, process) =>
        if entry.secretHash ≠ settings.hashSecret secret then (process, .returned none)
        else (process, .returned (some { name := entry.name, scopes := entry.scopes, keyId := some keyId }))
      | (none, process) => (process, .select keyId secret)

def verifies (settings : AuthSettings) (secret : Str) (row : ApiKey) : Prop :=
  row.revokedAt = none ∧ row.secretHash = settings.hashSecret secret
  deriving Decidable

def remember (settings : AuthSettings) (process : Process) (keyId : Str) (row : ApiKey) : Process :=
  let entry : CachedKey :=
    { secretHash := row.secretHash, name := row.name, scopes := row.scopes.toFinset,
      expiresAt := process.clock + settings.authCacheSeconds }
  if 0 < settings.authCacheSeconds then { process with cache := process.cache.insert keyId entry } else process

/-- `authenticate` from its query's result to its next await; `now` is the wall clock. -/
def resumeAuthenticate (settings : AuthSettings) (process : Process) (keyId secret : Str)
    (row : Option ApiKey) (now : ℚ) : Process × AuthPoint :=
  match row with
  | none => (process, .returned none)
  | some row =>
    if verifies settings secret row then
      let principal : Principal := { name := row.name, scopes := row.scopes.toFinset, keyId := some keyId }
      if ∃ used ∈ row.lastUsedAt, now - used < lastUsedRefresh then
        (remember settings process keyId row, .returned (some principal))
      else (remember settings process keyId row, .touch keyId now principal)
    else (process, .returned none)

/-- Where a `revoke_key` request stands. The row it holds once its query has run is the one that it
    writes to. -/
inductive RevokePoint
  | select
  | resume (row : Option ApiKey)
  | commit (now : ℚ)
  | committed
  | returned (status : Nat)

inductive AuthParty
  | idle
  /-- `before` lists the revocations that had returned when the call started. -/
  | authenticate (process : Nat) (before : List (Nat × Str)) (point : AuthPoint)
  | revoke (process : Nat) (keyId : Str) (point : RevokePoint)

structure Servers where
  keys : AList fun _ : Str => ApiKey
  processes : Nat → Process
  revoked : List (Nat × Str)

inductive AuthAct
  | authenticate (process : Nat) (fullKey : Str)
  | revoke (process : Nat) (keyId : Str)
  | next (now : ℚ)
  /-- The commit of `_touch_last_used` raises, and what its handler has expired cannot be read. -/
  | touchRaises
  | tick (process : Nat) (seconds : ℚ)
  | mint (keyId : Str) (row : ApiKey)

def Servers.setProcess (servers : Servers) (p : Nat) (process : Process) : Servers :=
  { servers with processes := Function.update servers.processes p process }

def Servers.updateKey (servers : Servers) (keyId : Str) (change : ApiKey → ApiKey) : Servers :=
  match servers.keys.lookup keyId with
  | none => servers
  | some row => { servers with keys := servers.keys.insert keyId (change row) }

def AuthPoint.next (settings : AuthSettings) (servers : Servers) (p : Nat) (now : ℚ) :
    AuthPoint → Option (Servers × AuthPoint)
  | .select keyId secret => some (servers, .resume keyId secret (servers.keys.lookup keyId))
  | .resume keyId secret row =>
    let (process, point) := resumeAuthenticate settings (servers.processes p) keyId secret row now
    some (servers.setProcess p process, point)
  | .touch keyId used principal =>
    some (servers.updateKey keyId fun row => { row with lastUsedAt := some used }, .returned (some principal))
  | .returned _ | .raised => none

/-- `revoke_key`. A row that is already a tombstone is returned as it is. -/
def RevokePoint.next (servers : Servers) (p : Nat) (keyId : Str) (now : ℚ) :
    RevokePoint → Option (Servers × RevokePoint)
  | .select => some (servers, .resume (servers.keys.lookup keyId))
  | .resume none => some (servers, .returned 404)
  | .resume (some row) =>
    if row.revokedAt = none then some (servers, .commit now)
    else some ({ servers with revoked := (p, keyId) :: servers.revoked }, .returned 200)
  | .commit time => some (servers.updateKey keyId fun row => { row with revokedAt := some time }, .committed)
  | .committed =>
    let invalidated := servers.setProcess p (invalidateKeyCache (servers.processes p) keyId)
    some ({ invalidated with revoked := (p, keyId) :: servers.revoked }, .returned 200)
  | .returned _ => none

def authStep (settings : AuthSettings) (servers : Servers) (party : AuthParty) :
    AuthAct → Option (Servers × AuthParty)
  | .authenticate p fullKey =>
    match party with
    | .idle =>
      let (process, point) := beginAuthenticate settings (servers.processes p) fullKey
      some (servers.setProcess p process, .authenticate p servers.revoked point)
    | _ => none
  | .revoke p keyId =>
    match party with
    | .idle => some (servers, .revoke p keyId .select)
    | _ => none
  | .next now =>
    match party with
    | .authenticate p before point =>
      (point.next settings servers p now).map fun (after, point) => (after, .authenticate p before point)
    | .revoke p keyId point =>
      (point.next servers p keyId now).map fun (after, point) => (after, .revoke p keyId point)
    | .idle => none
  | .touchRaises =>
    match party with
    | .authenticate p before (.touch ..) => some (servers, .authenticate p before .raised)
    | _ => none
  | .tick p seconds =>
    if 0 ≤ seconds then
      let process := servers.processes p
      some (servers.setProcess p { process with clock := process.clock + seconds }, party)
    else none
  | .mint keyId row =>
    if servers.keys.lookup keyId = none ∧ row.revokedAt = none then
      some ({ servers with keys := servers.keys.insert keyId row }, party)
    else none

inductive AuthMoves (settings : AuthSettings) (servers : Servers) : AuthParty → AuthAct → Servers → AuthParty → Prop
  | begins {p : Nat} {fullKey : Str} :
    AuthMoves settings servers .idle (.authenticate p fullKey)
      (servers.setProcess p (beginAuthenticate settings (servers.processes p) fullKey).1)
      (.authenticate p servers.revoked (beginAuthenticate settings (servers.processes p) fullKey).2)
  | revokes {p : Nat} {keyId : Str} :
    AuthMoves settings servers .idle (.revoke p keyId) servers (.revoke p keyId .select)
  | authenticate {p : Nat} {before : List (Nat × Str)} {point next : AuthPoint} {now : ℚ} {after : Servers}
    (nexts : point.next settings servers p now = some (after, next)) :
    AuthMoves settings servers (.authenticate p before point) (.next now) after (.authenticate p before next)
  | revoke {p : Nat} {keyId : Str} {point next : RevokePoint} {now : ℚ} {after : Servers}
    (nexts : point.next servers p keyId now = some (after, next)) :
    AuthMoves settings servers (.revoke p keyId point) (.next now) after (.revoke p keyId next)
  | raises {p : Nat} {before : List (Nat × Str)} {keyId : Str} {used : ℚ} {principal : Principal} :
    AuthMoves settings servers (.authenticate p before (.touch keyId used principal)) .touchRaises servers
      (.authenticate p before .raised)
  | ticks {p : Nat} {seconds : ℚ} {party : AuthParty} (forward : 0 ≤ seconds) :
    AuthMoves settings servers party (.tick p seconds)
      (servers.setProcess p { servers.processes p with clock := (servers.processes p).clock + seconds }) party
  | mints {keyId : Str} {row : ApiKey} {party : AuthParty} (fresh : servers.keys.lookup keyId = none)
    (live : row.revokedAt = none) :
    AuthMoves settings servers party (.mint keyId row) { servers with keys := servers.keys.insert keyId row } party

theorem authStep_moves {settings : AuthSettings} {servers after : Servers} {party next : AuthParty} {act : AuthAct}
    (steps : authStep settings servers party act = some (after, next)) :
    AuthMoves settings servers party act after next := by
  cases act with
  | authenticate p fullKey =>
    cases party with
    | idle =>
      cases steps
      exact .begins
    | _ => cases steps
  | revoke p keyId =>
    cases party with
    | idle =>
      cases steps
      exact .revokes
    | _ => cases steps
  | next now =>
    cases party with
    | idle => cases steps
    | authenticate p before point =>
      obtain ⟨⟨after, point⟩, nexts, same⟩ := Option.map_eq_some_iff.mp steps
      cases same
      exact .authenticate nexts
    | revoke p keyId point =>
      obtain ⟨⟨after, point⟩, nexts, same⟩ := Option.map_eq_some_iff.mp steps
      cases same
      exact .revoke nexts
  | touchRaises =>
    simp only [authStep] at steps
    split at steps <;> cases steps
    exact .raises
  | tick p seconds =>
    simp only [authStep] at steps
    split at steps <;> cases steps
    rename_i forward
    exact .ticks forward
  | mint keyId row =>
    simp only [authStep] at steps
    split at steps <;> cases steps
    rename_i fresh
    exact .mints fresh.1 fresh.2

def bootstrapPrincipal : Principal := { name := str "bootstrap", scopes := [str "admin"].toFinset }

def ApiKey.principal (row : ApiKey) (keyId : Str) : Principal :=
  { name := row.name, scopes := row.scopes.toFinset, keyId := some keyId }

def CachedKey.principal (entry : CachedKey) (keyId : Str) : Principal :=
  { name := entry.name, scopes := entry.scopes, keyId := some keyId }

inductive Begins (settings : AuthSettings) (process : Process) (fullKey : Str) : Process → AuthPoint → Prop
  | refused : Begins settings process fullKey process (.returned none)
  | bootstrap : Begins settings process fullKey process (.returned (some bootstrapPrincipal))
  | hit {keyId secret : Str} {entry : CachedKey} (split : splitKey fullKey = some (keyId, secret))
    (found : process.cache.lookup keyId = some entry) (fresh : process.clock < entry.expiresAt)
    (verified : entry.secretHash = settings.hashSecret secret) :
    Begins settings process fullKey process (.returned (some (entry.principal keyId)))
  | miss {keyId secret : Str} (split : splitKey fullKey = some (keyId, secret))
    (cold : process.cache.lookup keyId = none) : Begins settings process fullKey process (.select keyId secret)
  | expired {keyId secret : Str} (split : splitKey fullKey = some (keyId, secret)) :
    Begins settings process fullKey (invalidateKeyCache process keyId) (.select keyId secret)

theorem beginAuthenticate_begins (settings : AuthSettings) (process : Process) (fullKey : Str) :
    Begins settings process fullKey (beginAuthenticate settings process fullKey).1
      (beginAuthenticate settings process fullKey).2 := by
  unfold beginAuthenticate
  split
  · exact .refused
  · rename_i keyId secret split
    split
    · exact .bootstrap
    · unfold cached
      cases found : process.cache.lookup keyId with
      | none => exact .miss split found
      | some entry =>
        by_cases expired : entry.expiresAt ≤ process.clock
        · simp only [if_pos expired]
          exact .expired split
        · simp only [if_neg expired]
          by_cases verified : entry.secretHash = settings.hashSecret secret
          · simp only [ne_eq, verified, not_true_eq_false, if_false]
            exact .hit split found (not_le.mp expired) verified
          · simp only [ne_eq, verified, not_false_eq_true, if_true]
            exact .refused

theorem resumeAuthenticate_cases (settings : AuthSettings) (process : Process) (keyId secret : Str)
    (row : Option ApiKey) (now : ℚ) :
    resumeAuthenticate settings process keyId secret row now = (process, .returned none) ∨
      ∃ found, row = some found ∧ verifies settings secret found ∧
        (resumeAuthenticate settings process keyId secret row now =
            (remember settings process keyId found, .returned (some (found.principal keyId))) ∨
          resumeAuthenticate settings process keyId secret row now =
            (remember settings process keyId found, .touch keyId now (found.principal keyId))) := by
  cases row with
  | none => exact .inl rfl
  | some row =>
    by_cases verified : verifies settings secret row
    · refine .inr ⟨row, rfl, verified, ?_⟩
      simp only [resumeAuthenticate, if_pos verified]
      split
      · exact .inl rfl
      · exact .inr rfl
    · exact .inl (by simp only [resumeAuthenticate, if_neg verified])

theorem lookup_invalidated {process : Process} {keyId other : Str} {entry : CachedKey}
    (found : (invalidateKeyCache process keyId).cache.lookup other = some entry) :
    process.cache.lookup other = some entry := by
  by_cases same : other = keyId
  · subst same
    simp [invalidateKeyCache] at found
  · rwa [invalidateKeyCache, AList.lookup_erase_ne same] at found

end Ripcord
