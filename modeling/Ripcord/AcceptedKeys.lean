import Ripcord.Foundation.Fields
import Ripcord.Revocation

namespace Ripcord

open Foundation

/-- A query of one key's row that a call has resumed from, with the table it ran on. -/
structure KeyRead where
  process : Nat
  keyId : Str
  table : AList fun _ : Str => ApiKey
  completed : ℚ

def KeyRead.Saw (read : KeyRead) (secretHash name : Str) (scopes : Finset Str) : Prop :=
  ∃ row ∈ read.table.lookup read.keyId,
    row.revokedAt = none ∧ row.secretHash = secretHash ∧ row.name = name ∧ row.scopes.toFinset = scopes

/-- A call that has returned a principal; `own` is the read the call itself has completed. -/
structure AuthReturn where
  process : Nat
  fullKey : Str
  principal : Principal
  time : ℚ
  own : Option KeyRead

structure AuthLog where
  servers : Servers
  reads : List KeyRead
  returns : List AuthReturn

structure LoggedCall where
  party : AuthParty
  fullKey : Str
  table : AList fun _ : Str => ApiKey
  own : Option KeyRead

inductive LoggedAct
  | auth (act : AuthAct)
  | invalidate (process : Nat) (keyId : Option Str)

/-- `invalidate_key_cache`, of one key or of all. -/
def invalidateKeyCaches (process : Process) : Option Str → Process
  | none => { process with cache := ∅ }
  | some keyId => invalidateKeyCache process keyId

def LoggedCall.completes (servers : Servers) (call : LoggedCall) : AuthAct → Option KeyRead
  | .next _ =>
    match call.party with
    | .authenticate p _ (.resume keyId _ _) => some ⟨p, keyId, call.table, (servers.processes p).clock⟩
    | _ => none
  | _ => none

def LoggedCall.note (servers : Servers) (call : LoggedCall) : AuthAct → LoggedCall
  | .authenticate _ fullKey => { call with fullKey }
  | .next now =>
    match call.party with
    | .authenticate _ _ (.select ..) => { call with table := servers.keys }
    | _ => { call with own := (call.completes servers (.next now)).or call.own }
  | _ => call

def AuthParty.principal? : AuthParty → Option (Nat × Principal)
  | .authenticate p _ (.returned (some principal)) => some (p, principal)
  | _ => none

def LoggedCall.returns (servers : Servers) (call : LoggedCall) (party : AuthParty) : List AuthReturn :=
  match call.party.principal?, party.principal? with
  | none, some (p, principal) => [⟨p, call.fullKey, principal, (servers.processes p).clock, call.own⟩]
  | _, _ => []

def loggedStep (settings : AuthSettings) (log : AuthLog) (call : LoggedCall) :
    LoggedAct → Option (AuthLog × LoggedCall)
  | .auth act =>
    (authStep settings log.servers call.party act).map fun (servers, party) =>
      let noted := call.note log.servers act
      ({ servers, reads := log.reads ++ (call.completes log.servers act).toList,
         returns := log.returns ++ noted.returns servers party }, { noted with party })
  | .invalidate p keyId =>
    let process := invalidateKeyCaches (log.servers.processes p) keyId
    some ({ log with servers := log.servers.setProcess p process }, call)

abbrev LoggedWorld := World AuthLog LoggedCall

def LoggedWorld.start (keys : AList fun _ : Str => ApiKey) (clocks : Nat → ℚ) : LoggedWorld :=
  ⟨⟨⟨keys, fun p => ⟨∅, clocks p⟩, []⟩, [], []⟩, fun _ => ⟨.idle, [], ∅, none⟩⟩

/-! What each piece of `authenticate` does. -/

theorem cut_eq_some {sep : CodePoint} {s before after : Str} (cuts : cut sep s = some (before, after)) :
    s = before ++ sep :: after := by
  unfold cut at cuts
  split at cuts
  · cases cuts
  · rename_i c rest found
    cases cuts
    exact separated_of_dropWhile found

theorem splitKey_parts {fullKey keyId secret : Str} (split : splitKey fullKey = some (keyId, secret)) :
    fullKey = keyPrefix ++ ch '_' :: keyId ++ ch '_' :: secret ∧
      (keyId ≠ [] ∧ keyId ⊆ str "0123456789abcdef") ∧ secret ≠ [] := by
  unfold splitKey at split
  split at split
  · cases split
  · rename_i first others outer
    split at split
    · cases split
    · rename_i keyId secret inner
      split at split
      · cases split
      · rename_i named
        split at split
        · cases split
        · rename_i parts
          rw [not_or] at parts
          split at split
          · cases split
          · rename_i hex
            cases split
            have digits : ∀ c ∈ keyId, c ∈ str "0123456789abcdef" := by simpa using hex
            refine ⟨?_, ⟨parts.1, digits⟩, parts.2⟩
            rw [cut_eq_some outer, cut_eq_some inner, not_not.mp named, List.append_assoc, List.cons_append]

theorem splitKey_eq_some {fullKey keyId secret : Str} (split : splitKey fullKey = some (keyId, secret)) :
    fullKey = keyPrefix ++ ch '_' :: keyId ++ ch '_' :: secret :=
  (splitKey_parts split).1

def Servers.Shrinks (before after : Servers) : Prop :=
  ∀ p, (before.processes p).clock ≤ (after.processes p).clock ∧
    ∀ keyId entry, (after.processes p).cache.lookup keyId = some entry →
      (before.processes p).cache.lookup keyId = some entry

section Pieces

variable {settings : AuthSettings} {servers : Servers} {process : Process} {p : Nat} {keyId secret : Str} {now : ℚ}

theorem Servers.Shrinks.refl (servers : Servers) : servers.Shrinks servers :=
  fun _ => ⟨le_refl _, fun _ _ found => found⟩

theorem Servers.Shrinks.of_processes {after : Servers} (same : after.processes = servers.processes) :
    servers.Shrinks after := by
  intro p
  rw [same]
  exact ⟨le_refl _, fun _ _ found => found⟩

theorem setProcess_shrinks (clock : (servers.processes p).clock ≤ process.clock)
    (fewer : ∀ keyId entry, process.cache.lookup keyId = some entry →
      (servers.processes p).cache.lookup keyId = some entry) : servers.Shrinks (servers.setProcess p process) := by
  intro other
  by_cases same : other = p
  · subst same
    simpa [Servers.setProcess] using ⟨clock, fewer⟩
  · simp [Servers.setProcess, Function.update_of_ne same]

theorem invalidateKeyCaches_shrinks (keyId : Option Str) :
    servers.Shrinks (servers.setProcess p (invalidateKeyCaches (servers.processes p) keyId)) := by
  cases keyId with
  | none => exact setProcess_shrinks (le_refl _) fun _ _ found => by simp [invalidateKeyCaches] at found
  | some keyId => exact setProcess_shrinks (le_refl _) fun _ _ => lookup_invalidated

theorem Begins.shrinks {fullKey : Str} {point : AuthPoint}
    (begins : Begins settings (servers.processes p) fullKey process point) :
    servers.Shrinks (servers.setProcess p process) := by
  cases begins with
  | expired split => exact setProcess_shrinks (le_refl _) fun _ _ => lookup_invalidated
  | _ => exact setProcess_shrinks (le_refl _) fun _ _ found => found

theorem RevokePoint.next_shrinks {point next : RevokePoint} {after : Servers}
    (steps : point.next servers p keyId now = some (after, next)) : servers.Shrinks after := by
  cases point with
  | select =>
    cases steps
    exact .refl _
  | resume row =>
    cases row with
    | none =>
      cases steps
      exact .refl _
    | some row =>
      simp only [RevokePoint.next] at steps
      split at steps <;> cases steps
      · exact .refl _
      · exact .of_processes rfl
  | commit time =>
    cases steps
    exact .of_processes (updateKey_processes _)
  | committed =>
    cases steps
    exact setProcess_shrinks (le_refl _) fun _ _ => lookup_invalidated
  | returned status => cases steps

end Pieces

/-! Every cache entry and every answer goes back to a read. -/

/-- Some completed read of the process saw what the entry says, and the entry expires a cache lifetime after it. -/
def CachedKey.Backed (settings : AuthSettings) (reads : List KeyRead) (p : Nat) (keyId : Str) (entry : CachedKey) :
    Prop :=
  ∃ read ∈ reads, read.process = p ∧ read.keyId = keyId ∧ read.Saw entry.secretHash entry.name entry.scopes ∧
    entry.expiresAt = read.completed + settings.authCacheSeconds

/-- A principal other than the bootstrap one goes back to a read of the presented key's row by this process
    that verified it, of the call itself or less than a cache lifetime ago. -/
def AuthReturn.Verified (settings : AuthSettings) (reads : List KeyRead) (answer : AuthReturn) : Prop :=
  answer.principal ≠ bootstrapPrincipal →
    ∃ keyId secret, splitKey answer.fullKey = some (keyId, secret) ∧
      answer.fullKey = keyPrefix ++ ch '_' :: keyId ++ ch '_' :: secret ∧ answer.principal.keyId = some keyId ∧
      ∃ read ∈ reads, read.process = answer.process ∧ read.keyId = keyId ∧
        read.Saw (settings.hashSecret secret) answer.principal.name answer.principal.scopes ∧
        read.completed ≤ answer.time ∧
        (answer.time - read.completed < settings.authCacheSeconds ∨ answer.own = some read)

structure AuthLog.Sound (settings : AuthSettings) (log : AuthLog) : Prop where
  past : ∀ read ∈ log.reads, read.completed ≤ (log.servers.processes read.process).clock
  backed : ∀ p keyId entry, (log.servers.processes p).cache.lookup keyId = some entry →
    entry.Backed settings log.reads p keyId
  verified : ∀ answer ∈ log.returns, answer.Verified settings log.reads

def LoggedCall.Sound (settings : AuthSettings) (reads : List KeyRead) (call : LoggedCall) : Prop :=
  match call.party with
  | .authenticate _ _ (.select keyId secret) => splitKey call.fullKey = some (keyId, secret)
  | .authenticate _ _ (.resume keyId secret row) =>
    splitKey call.fullKey = some (keyId, secret) ∧ row = call.table.lookup keyId
  | .authenticate p _ (.touch keyId _ principal) =>
    principal.keyId = some keyId ∧ ∃ secret, splitKey call.fullKey = some (keyId, secret) ∧
      ∃ read ∈ reads, call.own = some read ∧ read.process = p ∧ read.keyId = keyId ∧
        read.Saw (settings.hashSecret secret) principal.name principal.scopes
  | _ => True

section Sound

variable {settings : AuthSettings} {log : AuthLog} {call : LoggedCall}

theorem CachedKey.Backed.mono {reads more : List KeyRead} {p : Nat} {keyId : Str} {entry : CachedKey}
    (backed : entry.Backed settings reads p keyId) (within : reads ⊆ more) : entry.Backed settings more p keyId := by
  obtain ⟨read, member, saw⟩ := backed
  exact ⟨read, within member, saw⟩

theorem AuthReturn.Verified.mono {reads more : List KeyRead} {answer : AuthReturn}
    (verified : answer.Verified settings reads) (within : reads ⊆ more) : answer.Verified settings more := by
  intro other
  obtain ⟨keyId, secret, split, format, named, read, member, saw⟩ := verified other
  exact ⟨keyId, secret, split, format, named, read, within member, saw⟩

theorem LoggedCall.Sound.mono {reads more : List KeyRead} (own : call.Sound settings reads) (within : reads ⊆ more) :
    call.Sound settings more := by
  unfold LoggedCall.Sound at own ⊢
  split
  · simpa only [*] using own
  · simpa only [*] using own
  · simp only [*] at own
    obtain ⟨named, secret, split, read, member, saw⟩ := own
    exact ⟨named, secret, split, read, within member, saw⟩
  · trivial

theorem AuthLog.Sound.shrinks {after : Servers} {answers : List AuthReturn} (sound : log.Sound settings)
    (shrinks : log.servers.Shrinks after) (verified : ∀ answer ∈ answers, answer.Verified settings log.reads) :
    AuthLog.Sound settings { servers := after, reads := log.reads, returns := log.returns ++ answers } where
  past read member := (sound.past read member).trans (shrinks read.process).1
  backed p keyId entry found := sound.backed p keyId entry ((shrinks p).2 keyId entry found)
  verified answer member := by
    rcases List.mem_append.mp member with earlier | now
    · exact sound.verified answer earlier
    · exact verified answer now

theorem AuthLog.Sound.hit (sound : log.Sound settings) {p : Nat} {keyId secret : Str} {entry : CachedKey}
    {fullKey : Str} (split : splitKey fullKey = some (keyId, secret))
    (found : (log.servers.processes p).cache.lookup keyId = some entry)
    (fresh : (log.servers.processes p).clock < entry.expiresAt)
    (verified : entry.secretHash = settings.hashSecret secret) (own : Option KeyRead) :
    AuthReturn.Verified settings log.reads
      ⟨p, fullKey, entry.principal keyId, (log.servers.processes p).clock, own⟩ := by
  intro _
  obtain ⟨read, member, process, key, saw, expires⟩ := sound.backed p keyId entry found
  rw [verified] at saw
  subst process
  have recent : (log.servers.processes read.process).clock - read.completed < settings.authCacheSeconds := by
    rw [sub_lt_iff_lt_add', ← expires]
    exact fresh
  exact ⟨keyId, secret, split, splitKey_eq_some split, rfl, read, member, rfl, key, saw, sound.past read member,
    .inl recent⟩

theorem LoggedCall.mem_returns {servers : Servers} {party : AuthParty} {answer : AuthReturn}
    (member : answer ∈ call.returns servers party) :
    ∃ p principal, party.principal? = some (p, principal) ∧
      answer = ⟨p, call.fullKey, principal, (servers.processes p).clock, call.own⟩ := by
  unfold LoggedCall.returns at member
  split at member
  · rename_i p principal _ answers
    exact ⟨p, principal, answers, List.mem_singleton.mp member⟩
  · cases member

theorem begin_sound (sound : log.Sound settings) {p : Nat} {process : Process} {point : AuthPoint}
    (begins : Begins settings (log.servers.processes p) call.fullKey process point) (before : List (Nat × Str)) :
    AuthLog.Sound settings
        { servers := log.servers.setProcess p process, reads := log.reads,
          returns := log.returns ++ call.returns (log.servers.setProcess p process) (.authenticate p before point) } ∧
      LoggedCall.Sound settings log.reads { call with party := .authenticate p before point } := by
  have shrinks := begins.shrinks
  cases begins with
  | refused => exact ⟨sound.shrinks shrinks (by simp [LoggedCall.returns, AuthParty.principal?]), trivial⟩
  | bootstrap =>
    refine ⟨sound.shrinks shrinks fun answer member => ?_, trivial⟩
    obtain ⟨_, _, same, rfl⟩ := LoggedCall.mem_returns member
    cases same
    exact fun other => absurd rfl other
  | hit split found fresh verified =>
    refine ⟨sound.shrinks shrinks fun answer member => ?_, trivial⟩
    obtain ⟨_, _, same, rfl⟩ := LoggedCall.mem_returns member
    cases same
    simpa [Servers.setProcess] using sound.hit split found fresh verified call.own
  | miss split => exact ⟨sound.shrinks shrinks (by simp [LoggedCall.returns, AuthParty.principal?]), split⟩
  | expired split => exact ⟨sound.shrinks shrinks (by simp [LoggedCall.returns, AuthParty.principal?]), split⟩

theorem AuthLog.Sound.read (sound : log.Sound settings) (read : KeyRead)
    (completed : read.completed = (log.servers.processes read.process).clock) :
    AuthLog.Sound settings { log with reads := log.reads ++ [read] } where
  past other member := by
    rcases List.mem_append.mp member with earlier | now
    · exact sound.past other earlier
    · rw [List.mem_singleton.mp now, completed]
  backed p keyId entry found := (sound.backed p keyId entry found).mono (List.subset_append_left _ _)
  verified answer member := (sound.verified answer member).mono (List.subset_append_left _ _)

theorem remember_clock (process : Process) (keyId : Str) (row : ApiKey) :
    (remember settings process keyId row).clock = process.clock := by
  unfold remember
  split <;> rfl

/-- A process that remembers a key has its new entry, and those that were there before. -/
theorem lookup_remember {servers : Servers} {p other : Nat} {keyId otherKey : Str} {row : ApiKey} {entry : CachedKey}
    (found : ((servers.setProcess p (remember settings (servers.processes p) keyId row)).processes other).cache.lookup
      otherKey = some entry) :
    (other = p ∧ otherKey = keyId ∧ entry =
      { secretHash := row.secretHash, name := row.name, scopes := row.scopes.toFinset,
        expiresAt := (servers.processes p).clock + settings.authCacheSeconds }) ∨
      (servers.processes other).cache.lookup otherKey = some entry := by
  by_cases same : other = p
  · subst same
    simp only [Servers.setProcess, Function.update_self, remember] at found
    split at found
    · by_cases sameKey : otherKey = keyId
      · subst sameKey
        rw [AList.lookup_insert] at found
        cases found
        exact .inl ⟨rfl, rfl, rfl⟩
      · rw [AList.lookup_insert_ne sameKey] at found
        exact .inr found
    · exact .inr found
  · simp only [Servers.setProcess, Function.update_of_ne same] at found
    exact .inr found

theorem AuthLog.Sound.remember (sound : log.Sound settings) (p : Nat) (keyId : Str) (row : ApiKey) {read : KeyRead}
    (member : read ∈ log.reads) (process : read.process = p) (key : read.keyId = keyId)
    (saw : read.Saw row.secretHash row.name row.scopes.toFinset)
    (completed : read.completed = (log.servers.processes p).clock) :
    AuthLog.Sound settings
      { log with
        servers := log.servers.setProcess p (Ripcord.remember settings (log.servers.processes p) keyId row) } where
  past other there := by
    by_cases same : other.process = p
    · simpa [Servers.setProcess, same, remember_clock] using same ▸ sound.past other there
    · simpa [Servers.setProcess, Function.update_of_ne same] using sound.past other there
  backed other otherKey entry found := by
    rcases lookup_remember found with ⟨rfl, rfl, rfl⟩ | before
    · exact ⟨read, member, process, key, saw, by rw [completed]⟩
    · exact sound.backed other otherKey entry before
  verified := sound.verified

theorem resume_sound (sound : log.Sound settings) {p : Nat} {before : List (Nat × Str)} {keyId secret : Str}
    {row : Option ApiKey} (now : ℚ) (own : call.Sound settings log.reads)
    (here : call.party = .authenticate p before (.resume keyId secret row)) {process : Process} {point : AuthPoint}
    (resumes : resumeAuthenticate settings (log.servers.processes p) keyId secret row now = (process, point))
    {read : KeyRead} (reads : read = ⟨p, keyId, call.table, (log.servers.processes p).clock⟩) :
    AuthLog.Sound settings
        { servers := log.servers.setProcess p process, reads := log.reads ++ [read],
          returns := log.returns ++ LoggedCall.returns (log.servers.setProcess p process)
            { call with own := some read } (.authenticate p before point) } ∧
      LoggedCall.Sound settings (log.reads ++ [read])
        { call with own := some read, party := .authenticate p before point } := by
  simp only [LoggedCall.Sound, here] at own
  obtain ⟨split, queried⟩ := own
  have logged := sound.read read (by rw [reads])
  have member : read ∈ log.reads ++ [read] := by simp
  rcases resumeAuthenticate_cases settings (log.servers.processes p) keyId secret row now with
    refused | ⟨found, rfl, verified, resumed⟩
  · rw [refused] at resumes
    cases resumes
    refine ⟨logged.shrinks (setProcess_shrinks (le_refl _) fun _ _ found => found) ?_, trivial⟩
    simp [LoggedCall.returns, AuthParty.principal?]
  · have saw : read.Saw (settings.hashSecret secret) found.name found.scopes.toFinset := by
      subst reads
      exact ⟨found, queried.symm, verified.1, verified.2, rfl, rfl⟩
    have remembered := logged.remember p keyId found member (by rw [reads]) (by rw [reads])
      (verified.2 ▸ saw) (by rw [reads])
    rcases resumed with returned | touches
    · rw [returned] at resumes
      cases resumes
      refine ⟨remembered.shrinks (.refl _) fun answer answers => ?_, trivial⟩
      obtain ⟨_, _, same, rfl⟩ := LoggedCall.mem_returns answers
      cases same
      refine fun _ => ⟨keyId, secret, split, splitKey_eq_some split, rfl, read, member, by rw [reads], by rw [reads],
        saw, ?_, .inr rfl⟩
      simp [reads, Servers.setProcess, remember_clock]
    · rw [touches] at resumes
      cases resumes
      refine ⟨remembered.shrinks (.refl _) (by simp [LoggedCall.returns, AuthParty.principal?]), rfl, secret, split,
        read, member, rfl, by rw [reads], by rw [reads], saw⟩

theorem touch_sound (sound : log.Sound settings) {p : Nat} {before : List (Nat × Str)} {keyId : Str} {used : ℚ}
    {principal : Principal} (own : call.Sound settings log.reads)
    (here : call.party = .authenticate p before (.touch keyId used principal)) {after : Servers}
    (same : after.processes = log.servers.processes) :
    AuthLog.Sound settings
      { servers := after, reads := log.reads,
        returns := log.returns ++ call.returns after (.authenticate p before (.returned (some principal))) } := by
  simp only [LoggedCall.Sound, here] at own
  obtain ⟨named, secret, split, read, member, owned, process, key, saw⟩ := own
  refine sound.shrinks (.of_processes same) fun answer answers => ?_
  obtain ⟨_, _, principals, rfl⟩ := LoggedCall.mem_returns answers
  cases principals
  refine fun _ => ⟨keyId, secret, split, splitKey_eq_some split, named, read, member, process, key, saw, ?_, .inr owned⟩
  rw [same, ← process]
  exact sound.past read member

theorem other_sound (sound : log.Sound settings) {after : Servers} {party : AuthParty}
    (shrinks : log.servers.Shrinks after) (silent : party.principal? = none ∨ party = call.party) :
    AuthLog.Sound settings
      { servers := after, reads := log.reads, returns := log.returns ++ call.returns after party } := by
  have none : call.returns after party = [] := by
    rcases silent with silent | rfl
    · simp [LoggedCall.returns, silent]
    · unfold LoggedCall.returns
      cases call.party.principal? <;> rfl
  rw [none]
  exact sound.shrinks shrinks (by simp)

theorem next_sound (sound : log.Sound settings) (own : call.Sound settings log.reads) {p : Nat}
    {before : List (Nat × Str)} {point next : AuthPoint} {now : ℚ} {after : Servers}
    (here : call.party = .authenticate p before point)
    (steps : point.next settings log.servers p now = some (after, next)) :
    AuthLog.Sound settings
        { servers := after, reads := log.reads ++ (call.completes log.servers (.next now)).toList,
          returns := log.returns ++ (call.note log.servers (.next now)).returns after (.authenticate p before next) } ∧
      LoggedCall.Sound settings (log.reads ++ (call.completes log.servers (.next now)).toList)
        { call.note log.servers (.next now) with party := .authenticate p before next } := by
  obtain ⟨party, fullKey, table, read⟩ := call
  subst here
  cases point with
  | select keyId secret =>
    cases steps
    simp only [LoggedCall.completes, LoggedCall.note, Option.toList_none, List.append_nil]
    exact ⟨other_sound sound (.refl _) (.inl rfl), own, rfl⟩
  | resume keyId secret row =>
    cases steps
    exact resume_sound sound now own rfl rfl rfl
  | touch keyId used principal =>
    cases steps
    simp only [LoggedCall.completes, LoggedCall.note, Option.toList_none, List.append_nil, Option.none_or]
    exact ⟨touch_sound sound own rfl (updateKey_processes _), trivial⟩
  | returned principal => cases steps
  | raised => cases steps

theorem authStep_logged (sound : log.Sound settings) (own : call.Sound settings log.reads) {act : AuthAct}
    {after : Servers} {party : AuthParty} (steps : authStep settings log.servers call.party act = some (after, party)) :
    AuthLog.Sound settings
        { servers := after, reads := log.reads ++ (call.completes log.servers act).toList,
          returns := log.returns ++ (call.note log.servers act).returns after party } ∧
      LoggedCall.Sound settings (log.reads ++ (call.completes log.servers act).toList)
        { call.note log.servers act with party } := by
  obtain ⟨current, shown, table, read⟩ := call
  -- only the steps of the call itself complete a read or return a principal
  cases authStep_moves steps with
  | @authenticate p before point next now _ nexts => exact next_sound sound own rfl nexts
  | @begins p fullKey =>
    simp only [LoggedCall.completes, LoggedCall.note, Option.toList_none, List.append_nil]
    have begins := beginAuthenticate_begins settings (log.servers.processes p)
      (LoggedCall.fullKey ⟨.idle, fullKey, table, read⟩)
    exact begin_sound sound begins _
  | revokes =>
    simp only [LoggedCall.completes, LoggedCall.note, Option.toList_none, List.append_nil]
    exact ⟨other_sound sound (.refl _) (.inl rfl), trivial⟩
  | revoke nexts =>
    simp only [LoggedCall.completes, LoggedCall.note, Option.toList_none, List.append_nil, Option.none_or]
    exact ⟨other_sound sound (RevokePoint.next_shrinks nexts) (.inl rfl), trivial⟩
  | raises =>
    simp only [LoggedCall.completes, LoggedCall.note, Option.toList_none, List.append_nil]
    exact ⟨other_sound sound (.refl _) (.inl rfl), trivial⟩
  | @ticks p seconds _ forward =>
    simp only [LoggedCall.completes, LoggedCall.note, Option.toList_none, List.append_nil]
    have shrinks : log.servers.Shrinks (log.servers.setProcess p
        { log.servers.processes p with clock := (log.servers.processes p).clock + seconds }) :=
      setProcess_shrinks (le_add_of_nonneg_right forward) fun _ _ found => found
    exact ⟨other_sound sound shrinks (.inr rfl), own⟩
  | mints =>
    simp only [LoggedCall.completes, LoggedCall.note, Option.toList_none, List.append_nil]
    exact ⟨other_sound sound (.of_processes rfl) (.inr rfl), own⟩

theorem loggedStep_sound {act : LoggedAct} {after : AuthLog} {next : LoggedCall} (sound : log.Sound settings)
    (own : call.Sound settings log.reads) (steps : loggedStep settings log call act = some (after, next)) :
    after.Sound settings ∧ next.Sound settings after.reads ∧ log.reads ⊆ after.reads := by
  cases act with
  | auth act =>
    obtain ⟨⟨servers, party⟩, auth, same⟩ := Option.map_eq_some_iff.mp steps
    cases same
    obtain ⟨soundAfter, ownAfter⟩ := authStep_logged sound own auth
    exact ⟨soundAfter, ownAfter, List.subset_append_left _ _⟩
  | invalidate p keyId =>
    cases steps
    have answers : ∀ answer ∈ ([] : List AuthReturn), answer.Verified settings log.reads := by simp
    have kept := sound.shrinks (invalidateKeyCaches_shrinks (p := p) keyId) answers
    rw [List.append_nil] at kept
    exact ⟨kept, own, fun _ member => member⟩

end Sound

/-- Whatever is in the caches, a key is accepted only on the strength of a recent read of its row. -/
theorem accepted_keys_verified {settings : AuthSettings} {keys : AList fun _ : Str => ApiKey} {clocks : Nat → ℚ}
    {world : LoggedWorld} {acts : List (Nat × LoggedAct)}
    (runs : run (World.act (loggedStep settings)) (LoggedWorld.start keys clocks) acts = some world) :
    ∀ answer ∈ world.shared.returns, answer.Verified settings world.shared.reads := by
  have reached : world.shared.Sound settings ∧ ∀ who, (world.parties who).Sound settings world.shared.reads := by
    refine run_invariant (fun world : LoggedWorld =>
      world.shared.Sound settings ∧ ∀ who, (world.parties who).Sound settings world.shared.reads) ?_ runs ?_
    · intro world ⟨who, act⟩ next ⟨sound, each⟩ acts
      apply World.act_invariant _ (fun log call => LoggedCall.Sound settings log.reads call) acts each
      intro log call steps
      obtain ⟨soundAfter, own, within⟩ := loggedStep_sound sound (each who) steps
      exact ⟨soundAfter, own, fun _ other => other.mono within⟩
    · refine ⟨⟨fun read none => ?_, fun p keyId entry found => ?_, fun answer none => ?_⟩, fun _ => trivial⟩
      · cases none
      · cases found
      · cases none
  exact reached.1.verified

def guessDigest : Str := str "f1abe1b083d12d181ae136cfc75b8d18a8ecb43ac4e9d1a36d6a9c75b6016b61"

def twoSecrets : AuthSettings :=
  { fiveSeconds with hashSecret := fun secret => if secret = str "s3cret" then s3cretDigest else guessDigest }

/-- A key is read and cached; four seconds later a wrong secret and the right one are tried against the entry. -/
def warmEntry : List (Nat × LoggedAct) :=
  [(0, .auth (deployCall 0)), (0, .auth (.next 10)), (0, .auth (.next 10)), (0, .auth (.next 10)),
    (3, .auth (.tick 0 4)), (1, .auth (.authenticate 0 (str "rpc_ab12_guess"))), (2, .auth (deployCall 0))]

theorem accepted_keys_verified_warm :
    ∃ world, run (World.act (loggedStep twoSecrets)) (LoggedWorld.start deployKeys fun _ => 0) warmEntry = some world ∧
      world.shared.returns.map (fun answer => (answer.time, answer.own.isSome)) = [(0, true), (4, false)] ∧
      ∀ answer ∈ world.shared.returns, answer.Verified twoSecrets world.shared.reads := by
  obtain ⟨world, runs, answers⟩ := run_reaches (World.act (loggedStep twoSecrets))
    (LoggedWorld.start deployKeys fun _ => 0) warmEntry
    (fun world => world.shared.returns.map (fun answer => (answer.time, answer.own.isSome)) = [(0, true), (4, false)])
    (by decide +kernel)
  exact ⟨world, runs, answers, accepted_keys_verified runs⟩

end Ripcord
