import Ripcord.Credentials
import Ripcord.SerialStore

namespace Ripcord

open Foundation

/-! Who may change a flag or a key, over every interleaving of requests that share the keys and the flags. -/

structure ApiKeyCreate where
  name : Str
  scopes : List Str
  named : 1 ≤ name.length ∧ name.length ≤ 128
  granted : scopes ≠ []
  known : scopes.toFinset ⊆ allScopes

/-- A route with what its request has sent, once that has passed its checks. -/
inductive Route
  | createFlag (data : FlagCreate)
  | updateFlag (key : Str) (data : FlagUpdate)
  | deleteFlag (key : Str)
  | listFlags
  | getFlag (key : Str)
  | getAudit
  | getStats
  | evaluateFlag
  | getRuleset
  | stream
  | createKey (data : ApiKeyCreate)
  | listKeys
  | revokeKey (keyId : Str)

def Route.scope : Route → Scope
  | .createFlag _ | .updateFlag .. | .deleteFlag _ => .flagsWrite
  | .listFlags | .getFlag _ | .getAudit | .getStats => .flagsRead
  | .evaluateFlag | .getRuleset | .stream => .sdk
  | .createKey _ | .listKeys | .revokeKey _ => .admin

/-- `StreamDep` alone takes a key from the query. -/
def Route.allowsQuery : Route → Bool
  | .stream => true
  | _ => false

def Route.request (actor : Str) : Route → Option Request
  | .createFlag data => some (.create data actor)
  | .updateFlag key data => some (.update key data actor)
  | .deleteFlag key => some (.delete key actor)
  | _ => none

/-- A key as it was made, and the principal it was made for; the CLI makes keys for nobody. -/
structure Mint where
  keyId : Str
  secretHash : Str
  name : Str
  scopes : List Str
  minter : Option Principal

def Mint.row (mint : Mint) : ApiKey := { secretHash := mint.secretHash, name := mint.name, scopes := mint.scopes }

def Mint.principal (mint : Mint) : Principal := mint.row.principal mint.keyId

structure Service where
  auth : AuthLog
  store : Store
  minted : List Mint

structure ServiceSettings extends AuthSettings where
  authEnabled : Bool

def LoggedCall.fresh : LoggedCall := ⟨.idle, [], ∅, none⟩

/-- Where a request stands: in its dependency, past it, or in a call that its handler has made. -/
inductive Handler
  | idle
  | authenticating (p : Nat) (route : Route) (call : LoggedCall)
  | admitted (p : Nat) (route : Route) (principal : Principal)
  | changing (principal : Principal) (call : Call)
  | revoking (principal : Principal) (call : LoggedCall)
  | refused (refusal : Refusal)
  | created (fullKey : Str)
  | failed

inductive ServiceAct
  | receive (p : Nat) (route : Route) (request : HttpRequest)
  | next (now : ℚ)
  | touchRaises
  | authorize
  | read
  | commit (supply : Supply)
  | createKey (keyId secret : Str)
  | revoke
  /-- `ripcord.cli create-key`, beside the running servers. -/
  | cliCreateKey (name : Str) (scopes : List Str) (keyId secret : Str)
  | tick (p : Nat) (seconds : ℚ)

def AuthParty.answer? : AuthParty → Option (Except PyError (Option Principal))
  | .authenticate _ _ (.returned principal) => some (.ok principal)
  | .authenticate _ _ .raised => some (.error .missingGreenlet)
  | _ => none

section Steps

variable (settings : ServiceSettings) (service : Service)

def Service.mint (mint : Mint) : Option Service :=
  (loggedStep settings.toAuthSettings service.auth .fresh (.auth (.mint mint.keyId mint.row))).map fun (auth, _) =>
    { service with auth, minted := service.minted ++ [mint] }

def Service.logged (call : LoggedCall) (act : AuthAct) : Option (Service × LoggedCall) :=
  (loggedStep settings.toAuthSettings service.auth call (.auth act)).map fun (auth, call) =>
    ({ service with auth }, call)

def serviceStep (handler : Handler) : ServiceAct → Option (Service × Handler)
  | .receive p route request =>
    match handler with
    | .idle =>
      if !settings.authEnabled then some (service, .admitted p route anonymous)
      else
        match extractCredential request route.allowsQuery with
        | none | some [] =>
          some (service, .refused (.unauthorized (str "Missing API key. Send 'Authorization: Bearer <key>'.")))
        | some credential =>
          (service.logged settings .fresh (.authenticate p credential)).map fun (service, call) =>
            (service, .authenticating p route call)
    | _ => none
  | .next now =>
    match handler with
    | .authenticating p route call =>
      (service.logged settings call (.next now)).map fun (service, call) => (service, .authenticating p route call)
    | .revoking principal call =>
      (service.logged settings call (.next now)).map fun (service, call) => (service, .revoking principal call)
    | _ => none
  | .touchRaises =>
    match handler with
    | .authenticating p route call =>
      (service.logged settings call .touchRaises).map fun (service, call) => (service, .authenticating p route call)
    | _ => none
  | .authorize =>
    match handler with
    | .authenticating p route call =>
      call.party.answer?.map fun answer =>
        match authorize [route.scope] answer with
        | .ok principal => (service, .admitted p route principal)
        | .error refusal => (service, .refused refusal)
    | _ => none
  | .read =>
    match handler with
    | .admitted _ route principal =>
      (route.request principal.name).bind fun request =>
        (storeStep service.store .idle (.read request)).map fun (store, call) =>
          ({ service with store }, .changing principal call)
    | _ => none
  | .commit supply =>
    match handler with
    | .changing principal call =>
      (storeStep service.store call (.commit supply)).map fun (store, call) =>
        ({ service with store }, .changing principal call)
    | _ => none
  | .createKey keyId secret =>
    match handler with
    | .admitted _ (.createKey data) principal =>
      match service.mint settings ⟨keyId, settings.hashSecret secret, data.name, data.scopes, some principal⟩ with
      | some service => some (service, .created (fullKey keyId secret))
      -- the key id is taken, and its unique index refuses it
      | none => some (service, .failed)
    | _ => none
  | .revoke =>
    match handler with
    | .admitted p (.revokeKey keyId) principal =>
      (service.logged settings .fresh (.revoke p keyId)).map fun (service, call) => (service, .revoking principal call)
    | _ => none
  | .cliCreateKey name scopes keyId secret =>
    if scopes.toFinset ⊆ allScopes then
      some ((service.mint settings ⟨keyId, settings.hashSecret secret, name, scopes, none⟩).getD service, handler)
    else some (service, handler)
  | .tick p seconds =>
    (service.logged settings .fresh (.tick p seconds)).map fun (service, _) => (service, handler)

end Steps

inductive ServiceMoves (settings : ServiceSettings) (service : Service) :
    Handler → ServiceAct → Service → Handler → Prop
  | anonymous {p : Nat} {route : Route} {request : HttpRequest} (off : settings.authEnabled = false) :
    ServiceMoves settings service .idle (.receive p route request) service (.admitted p route anonymous)
  | begins {p : Nat} {route : Route} {request : HttpRequest} {credential : Str} {after : Service} {call : LoggedCall}
    (enabled : settings.authEnabled = true)
    (logs : service.logged settings .fresh (.authenticate p credential) = some (after, call)) :
    ServiceMoves settings service .idle (.receive p route request) after (.authenticating p route call)
  | authenticates {p : Nat} {route : Route} {call next : LoggedCall} {act : ServiceAct} {step : AuthAct}
    {after : Service} (logs : service.logged settings call step = some (after, next))
    (own : ∀ keyId row, step ≠ .mint keyId row) :
    ServiceMoves settings service (.authenticating p route call) act after (.authenticating p route next)
  | admits {p process : Nat} {route : Route} {call : LoggedCall} {principal : Principal}
    (answers : call.party.principal? = some (process, principal)) (may : principal.has route.scope) :
    ServiceMoves settings service (.authenticating p route call) .authorize service (.admitted p route principal)
  | reads {p : Nat} {route : Route} {principal : Principal} {request : Request}
    (asks : route.request principal.name = some request) :
    ServiceMoves settings service (.admitted p route principal) .read service
      (.changing principal (.loaded request (request.read service.store.db)))
  | commits {principal : Principal} {call next : Call} {supply : Supply} {store : Store}
    (steps : storeStep service.store call (.commit supply) = some (store, next)) :
    ServiceMoves settings service (.changing principal call) (.commit supply) { service with store }
      (.changing principal next)
  | creates {p : Nat} {data : ApiKeyCreate} {principal : Principal} {keyId secret : Str} {after : Service}
    (mints : service.mint settings ⟨keyId, settings.hashSecret secret, data.name, data.scopes, some principal⟩ =
      some after) :
    ServiceMoves settings service (.admitted p (.createKey data) principal) (.createKey keyId secret) after
      (.created (fullKey keyId secret))
  | revokes {p : Nat} {keyId : Str} {principal : Principal} {after : Service} {call : LoggedCall}
    (logs : service.logged settings .fresh (.revoke p keyId) = some (after, call)) :
    ServiceMoves settings service (.admitted p (.revokeKey keyId) principal) .revoke after (.revoking principal call)
  | revoking {principal : Principal} {call next : LoggedCall} {now : ℚ} {after : Service}
    (logs : service.logged settings call (.next now) = some (after, next)) :
    ServiceMoves settings service (.revoking principal call) (.next now) after (.revoking principal next)
  | operates {handler : Handler} {name keyId secret : Str} {scopes : List Str} {after : Service}
    (mints : service.mint settings ⟨keyId, settings.hashSecret secret, name, scopes, none⟩ = some after) :
    ServiceMoves settings service handler (.cliCreateKey name scopes keyId secret) after handler
  | ticks {handler : Handler} {p : Nat} {seconds : ℚ} {after : Service} {call : LoggedCall}
    (logs : service.logged settings .fresh (.tick p seconds) = some (after, call)) :
    ServiceMoves settings service handler (.tick p seconds) after handler
  | ends {handler next : Handler} {act : ServiceAct}
    (done : next = handler ∨ next = .failed ∨ ∃ refusal, next = .refused refusal) :
    ServiceMoves settings service handler act service next

theorem AuthParty.answer?_principal {party : AuthParty} {principal : Principal}
    (answers : party.answer? = some (.ok (some principal))) :
    ∃ process, party.principal? = some (process, principal) := by
  unfold AuthParty.answer? at answers
  split at answers <;> cases answers
  exact ⟨_, rfl⟩

theorem authorize_ok {required : List Scope} {answer : Except PyError (Option Principal)} {principal : Principal}
    (admits : authorize required answer = .ok principal) :
    answer = .ok (some principal) ∧ ∀ scope ∈ required, principal.has scope := by
  unfold authorize at admits
  split at admits
  · cases admits
  · cases admits
  · simp only at admits
    split at admits <;> cases admits
    rename_i none
    refine ⟨rfl, fun scope member => ?_⟩
    simpa using List.filter_eq_nil_iff.mp none scope member

theorem serviceStep_moves {settings : ServiceSettings} {service after : Service} {handler next : Handler}
    {act : ServiceAct} (steps : serviceStep settings service handler act = some (after, next)) :
    ServiceMoves settings service handler act after next := by
  cases act with
  | receive p route request =>
    simp only [serviceStep] at steps
    split at steps
    · split at steps
      · rename_i off
        cases steps
        exact .anonymous (by simpa using off)
      · rename_i enabled
        split at steps
        · cases steps
          exact .ends (.inr (.inr ⟨_, rfl⟩))
        · cases steps
          exact .ends (.inr (.inr ⟨_, rfl⟩))
        · obtain ⟨⟨after, call⟩, logs, same⟩ := Option.map_eq_some_iff.mp steps
          cases same
          exact .begins (by simpa using enabled) logs
    · cases steps
  | next now =>
    simp only [serviceStep] at steps
    split at steps
    · obtain ⟨⟨after, call⟩, logs, same⟩ := Option.map_eq_some_iff.mp steps
      cases same
      exact .authenticates logs (by simp)
    · obtain ⟨⟨after, call⟩, logs, same⟩ := Option.map_eq_some_iff.mp steps
      cases same
      exact .revoking logs
    · cases steps
  | touchRaises =>
    simp only [serviceStep] at steps
    split at steps
    · obtain ⟨⟨after, call⟩, logs, same⟩ := Option.map_eq_some_iff.mp steps
      cases same
      exact .authenticates logs (by simp)
    · cases steps
  | authorize =>
    simp only [serviceStep] at steps
    split at steps
    · obtain ⟨answer, answers, resolves⟩ := Option.map_eq_some_iff.mp steps
      split at resolves
      · rename_i admits
        cases resolves
        obtain ⟨rfl, may⟩ := authorize_ok admits
        obtain ⟨process, gives⟩ := AuthParty.answer?_principal answers
        exact .admits gives (may _ (List.mem_singleton_self _))
      · cases resolves
        exact .ends (.inr (.inr ⟨_, rfl⟩))
    · cases steps
  | read =>
    simp only [serviceStep] at steps
    split at steps
    · obtain ⟨request, asks, reads⟩ := Option.bind_eq_some_iff.mp steps
      cases reads
      exact .reads asks
    · cases steps
  | commit supply =>
    simp only [serviceStep] at steps
    split at steps
    · obtain ⟨⟨store, call⟩, commits, same⟩ := Option.map_eq_some_iff.mp steps
      cases same
      exact .commits commits
    · cases steps
  | createKey keyId secret =>
    simp only [serviceStep] at steps
    split at steps
    · split at steps <;> cases steps
      · rename_i mints
        exact .creates mints
      · exact .ends (.inr (.inl rfl))
    · cases steps
  | revoke =>
    simp only [serviceStep] at steps
    split at steps
    · obtain ⟨⟨after, call⟩, logs, same⟩ := Option.map_eq_some_iff.mp steps
      cases same
      exact .revokes logs
    · cases steps
  | cliCreateKey name scopes keyId secret =>
    simp only [serviceStep] at steps
    split at steps <;> cases steps
    · cases mints : service.mint settings ⟨keyId, settings.hashSecret secret, name, scopes, none⟩ with
      | none => exact .ends (.inl rfl)
      | some after => exact .operates mints
    · exact .ends (.inl rfl)
  | tick p seconds =>
    obtain ⟨⟨after, call⟩, logs, same⟩ := Option.map_eq_some_iff.mp steps
    cases same
    exact .ticks logs

abbrev ServiceWorld := World Service Handler

def ServiceWorld.start (clocks : Nat → ℚ) : ServiceWorld :=
  ⟨⟨⟨⟨∅, fun p => ⟨∅, clocks p⟩, []⟩, [], []⟩, ⟨.empty, []⟩, []⟩, fun _ => .idle⟩

/-! Keys keep what they were made with. -/

def Mint.Made (mint : Mint) (row : ApiKey) : Prop :=
  row.secretHash = mint.secretHash ∧ row.name = mint.name ∧ row.scopes = mint.scopes

theorem Mint.Made.principal {mint : Mint} {row : ApiKey} {principal : Principal} (made : mint.Made row)
    (named : principal.keyId = some mint.keyId) (name : row.name = principal.name)
    (scopes : row.scopes.toFinset = principal.scopes) : principal = mint.principal := by
  obtain ⟨_, sameName, sameScopes⟩ := made
  rw [sameName] at name
  rw [sameScopes] at scopes
  cases principal
  cases named
  cases name
  cases scopes
  rfl

def AllMinted (minted : List Mint) (table : AList fun _ : Str => ApiKey) : Prop :=
  ∀ keyId row, table.lookup keyId = some row → ∃ mint ∈ minted, mint.keyId = keyId ∧ mint.Made row

section Minted

variable {settings : AuthSettings} {servers after : Servers} {minted more : List Mint}
  {table : AList fun _ : Str => ApiKey} {p : Nat} {keyId : Str} {now : ℚ}

theorem AllMinted.mono (all : AllMinted minted table) (within : minted ⊆ more) : AllMinted more table := by
  intro keyId row found
  obtain ⟨mint, member, made⟩ := all keyId row found
  exact ⟨mint, within member, made⟩

theorem AllMinted.updateKey {change : ApiKey → ApiKey} (all : AllMinted minted servers.keys)
    (keeps : ∀ row mint, Mint.Made mint row → mint.Made (change row)) :
    AllMinted minted (servers.updateKey keyId change).keys := by
  intro other row found
  rw [lookup_updateKey] at found
  split at found
  · rename_i same
    subst same
    obtain ⟨before, here, rfl⟩ := Option.map_eq_some_iff.mp found
    obtain ⟨mint, member, named, made⟩ := all _ before here
    exact ⟨mint, member, named, keeps _ _ made⟩
  · exact all other row found

theorem AuthPoint.next_minted {point next : AuthPoint} (all : AllMinted minted servers.keys)
    (steps : point.next settings servers p now = some (after, next)) : AllMinted minted after.keys := by
  cases point with
  | select =>
    cases steps
    exact all
  | resume =>
    cases steps
    exact all
  | touch =>
    cases steps
    exact all.updateKey fun _ _ made => made
  | returned => cases steps
  | raised => cases steps

theorem RevokePoint.next_minted {point next : RevokePoint} (all : AllMinted minted servers.keys)
    (steps : point.next servers p keyId now = some (after, next)) : AllMinted minted after.keys := by
  cases point with
  | select =>
    cases steps
    exact all
  | resume row =>
    cases row with
    | none =>
      cases steps
      exact all
    | some row =>
      simp only [RevokePoint.next] at steps
      split at steps <;> cases steps <;> exact all
  | commit =>
    cases steps
    exact all.updateKey fun _ _ made => made
  | committed =>
    cases steps
    exact all
  | returned => cases steps

end Minted

/-! What a principal goes back to. -/

/-- The principal holds the bootstrap key, or a key that the operator or an admin so entitled has made; or it
    takes none. -/
inductive Entitled (settings : ServiceSettings) (minted : List Mint) : Principal → Prop
  | anonymous (off : settings.authEnabled = false) : Entitled settings minted anonymous
  | bootstrap (configured : settings.bootstrapAdminKey ≠ []) : Entitled settings minted bootstrapPrincipal
  | operator {mint : Mint} (member : mint ∈ minted) (made : mint.minter = none) :
    Entitled settings minted mint.principal
  | minted {mint : Mint} {admin : Principal} (member : mint ∈ minted) (made : mint.minter = some admin)
    (may : admin.has .admin) (entitled : Entitled settings minted admin) : Entitled settings minted mint.principal

theorem Entitled.mono {settings : ServiceSettings} {minted more : List Mint} {principal : Principal}
    (entitled : Entitled settings minted principal) (within : minted ⊆ more) : Entitled settings more principal := by
  induction entitled with
  | anonymous off => exact .anonymous off
  | bootstrap configured => exact .bootstrap configured
  | operator member made => exact .operator (within member) made
  | minted member made may _ ih => exact .minted (within member) made may ih

/-- The key that was presented is the principal's own: it is the bootstrap key, or its secret has the digest that
    the principal's key was made with. -/
inductive AuthReturn.Proves (settings : ServiceSettings) (minted : List Mint) (answer : AuthReturn) : Prop
  | bootstrap (given : settings.bootstrapAdminKey ≠ []) (presented : answer.fullKey = settings.bootstrapAdminKey)
    (acts : answer.principal = bootstrapPrincipal)
  | stored {mint : Mint} {secret : Str} (member : mint ∈ minted)
    (presented : answer.fullKey = Ripcord.fullKey mint.keyId secret)
    (digest : settings.hashSecret secret = mint.secretHash)
    (acts : answer.principal = mint.principal)

def Service.Admits (settings : ServiceSettings) (service : Service) (principal : Principal) : Prop :=
  settings.authEnabled = false ∧ principal = anonymous ∨
    settings.authEnabled = true ∧ ∃ answer ∈ service.auth.returns, answer.principal = principal

structure Service.Sound (settings : ServiceSettings) (service : Service) : Prop where
  auth : service.auth.Sound settings.toAuthSettings
  store : service.store.Sound
  keys : AllMinted service.minted service.auth.servers.keys
  reads : ∀ read ∈ service.auth.reads, AllMinted service.minted read.table
  bootstrap : ∀ answer ∈ service.auth.returns, answer.principal = bootstrapPrincipal →
    settings.bootstrapAdminKey ≠ [] ∧ answer.fullKey = settings.bootstrapAdminKey
  minters : ∀ mint ∈ service.minted, ∀ admin ∈ mint.minter, admin.has .admin ∧
    Entitled settings service.minted admin
  authors : ∀ success ∈ service.store.history, ∃ principal, success.request.actor = principal.name ∧
    principal.has .flagsWrite ∧ service.Admits settings principal

def LoggedCall.Known (settings : ServiceSettings) (service : Service) (call : LoggedCall) : Prop :=
  call.Sound settings.toAuthSettings service.auth.reads ∧ AllMinted service.minted call.table

def LoggedCall.Answered (service : Service) (call : LoggedCall) : Prop :=
  ∀ answer ∈ call.party.principal?, ∃ logged ∈ service.auth.returns, logged.principal = answer.2

def Call.By (actor : Str) : Call → Prop
  | .loaded request _ => request.actor = actor
  | _ => True

def Handler.Sound (settings : ServiceSettings) (service : Service) : Handler → Prop
  | .authenticating _ _ call => settings.authEnabled = true ∧ call.Known settings service ∧ call.Answered service
  | .admitted _ route principal => principal.has route.scope ∧ service.Admits settings principal
  | .changing principal call =>
    call.Sound service.store ∧ call.By principal.name ∧ principal.has .flagsWrite ∧ service.Admits settings principal
  | .revoking principal call =>
    principal.has .admin ∧ service.Admits settings principal ∧ call.Known settings service
  | _ => True

structure Service.Grows (service after : Service) : Prop where
  minted : service.minted ⊆ after.minted
  reads : service.auth.reads ⊆ after.auth.reads
  returns : service.auth.returns ⊆ after.auth.returns
  store : Ripcord.Grows service.store.db after.store.db

section Growing

variable {settings : ServiceSettings} {service after : Service}

theorem Service.Admits.grows {principal : Principal} (admits : service.Admits settings principal)
    (within : service.auth.returns ⊆ after.auth.returns) : after.Admits settings principal := by
  rcases admits with off | ⟨enabled, answer, member, same⟩
  · exact .inl off
  · exact .inr ⟨enabled, answer, within member, same⟩

theorem LoggedCall.Known.grows {call : LoggedCall} (known : call.Known settings service)
    (minted : service.minted ⊆ after.minted) (reads : service.auth.reads ⊆ after.auth.reads) :
    call.Known settings after :=
  ⟨known.1.mono reads, known.2.mono minted⟩

theorem Handler.Sound.grows {handler : Handler} (own : handler.Sound settings service)
    (grows : service.Grows after) : handler.Sound settings after := by
  cases handler with
  | authenticating p route call =>
    obtain ⟨enabled, known, answered⟩ := own
    refine ⟨enabled, known.grows grows.minted grows.reads, fun answer gives => ?_⟩
    obtain ⟨logged, member, same⟩ := answered answer gives
    exact ⟨logged, grows.returns member, same⟩
  | admitted p route principal => exact ⟨own.1, own.2.grows grows.returns⟩
  | changing principal call =>
    obtain ⟨kept, actor, may, admits⟩ := own
    exact ⟨kept.grows grows.store, actor, may, admits.grows grows.returns⟩
  | revoking principal call =>
    obtain ⟨may, admits, known⟩ := own
    exact ⟨may, admits.grows grows.returns, known.grows grows.minted grows.reads⟩
  | idle => trivial
  | refused => trivial
  | created => trivial
  | failed => trivial

/-- Where the log's returns come from, each goes back to the making of its key. -/
theorem Service.Sound.proves (sound : service.Sound settings) {answer : AuthReturn}
    (member : answer ∈ service.auth.returns) : answer.Proves settings service.minted := by
  by_cases bootstrap : answer.principal = bootstrapPrincipal
  · obtain ⟨given, presented⟩ := sound.bootstrap answer member bootstrap
    exact .bootstrap given presented bootstrap
  · obtain ⟨keyId, secret, _, presented, named, read, reads, _, key, ⟨row, found, _, digest, name, scopes⟩, _⟩ :=
      sound.auth.verified answer member bootstrap
    obtain ⟨mint, member, keyed, made⟩ := sound.reads read reads read.keyId row found
    have owner : mint.keyId = keyId := keyed.trans key
    subst owner
    exact .stored member presented (digest.symm.trans made.1) (made.principal named name scopes)

theorem Service.Sound.entitled (sound : service.Sound settings) {principal : Principal}
    (admits : service.Admits settings principal) : Entitled settings service.minted principal := by
  rcases admits with ⟨off, rfl⟩ | ⟨_, answer, member, rfl⟩
  · exact .anonymous off
  · cases sound.proves member with
    | bootstrap given _ acts =>
      rw [acts]
      exact .bootstrap given
    | @stored mint secret made _ _ acts =>
      rw [acts]
      cases minter : mint.minter with
      | none => exact .operator made minter
      | some admin =>
        obtain ⟨may, entitled⟩ := sound.minters mint made admin minter
        exact .minted made minter may entitled

end Growing

section Steps

variable {settings : ServiceSettings} {service after : Service} {call next : LoggedCall} {act : AuthAct}

theorem AuthParty.principal?_eq_some {party : AuthParty} {p : Nat} {principal : Principal}
    (gives : party.principal? = some (p, principal)) :
    ∃ before, party = .authenticate p before (.returned (some principal)) := by
  unfold AuthParty.principal? at gives
  split at gives <;> cases gives
  exact ⟨_, rfl⟩

theorem begin_bootstrapKey {settings : AuthSettings} {process : Process} {key : Str}
    (gives : (beginAuthenticate settings process key).2 = .returned (some bootstrapPrincipal)) :
    settings.bootstrapAdminKey ≠ [] ∧ key = settings.bootstrapAdminKey := by
  unfold beginAuthenticate at gives
  split at gives
  · cases gives
  · split at gives
    · assumption
    · split at gives
      · split at gives
        · cases gives
        · injection gives with gives
          injection gives with gives
          cases congrArg Principal.keyId gives
      · cases gives

theorem answered_stays {settings : AuthSettings} {servers after : Servers} {party next : AuthParty}
    {answer : Nat × Principal} (gives : party.principal? = some answer)
    (steps : authStep settings servers party act = some (after, next)) : next = party := by
  cases authStep_moves steps with
  | authenticate nexts =>
    obtain ⟨before, same⟩ := AuthParty.principal?_eq_some gives
    cases same
    cases nexts
  | ticks => rfl
  | mints => rfl
  | _ => cases gives

theorem returned_bootstrap {settings : AuthSettings} {log : AuthLog} {servers : Servers} {party : AuthParty}
    {answer : AuthReturn} (own : call.Sound settings log.reads)
    (steps : authStep settings log.servers call.party act = some (servers, party))
    (member : answer ∈ (call.note log.servers act).returns servers party)
    (bootstrap : answer.principal = bootstrapPrincipal) :
    settings.bootstrapAdminKey ≠ [] ∧ answer.fullKey = settings.bootstrapAdminKey := by
  obtain ⟨current, shown, table, read⟩ := call
  obtain ⟨p, principal, gives, rfl⟩ := LoggedCall.mem_returns member
  obtain ⟨before, rfl⟩ := AuthParty.principal?_eq_some gives
  have same : principal = bootstrapPrincipal := bootstrap
  subst same
  generalize ended : AuthParty.authenticate p before (.returned (some bootstrapPrincipal)) = party at steps
  cases authStep_moves steps with
  | @begins p key =>
    injection ended with _ _ point
    exact begin_bootstrapKey point.symm
  | @authenticate p before point next now _ nexts =>
    cases ended
    cases point with
    | select => cases nexts
    | resume keyId secret row =>
      rcases resumeAuthenticate_cases settings (log.servers.processes p) keyId secret row now with
        refused | ⟨found, _, _, returned | touches⟩
      · simp [AuthPoint.next, refused] at nexts
      · simp [AuthPoint.next, returned, ApiKey.principal, bootstrapPrincipal] at nexts
      · simp [AuthPoint.next, touches] at nexts
    | touch keyId used principal =>
      cases nexts
      cases own.1
    | returned => cases nexts
    | raised => cases nexts
  | revokes => cases ended
  | revoke => cases ended
  | raises => cases ended
  | ticks =>
    subst ended
    cases member
  | mints =>
    subst ended
    cases member

theorem authStep_minted {settings : AuthSettings} {servers after : Servers} {party next : AuthParty}
    {minted : List Mint} (all : AllMinted minted servers.keys) (own : ∀ keyId row, act ≠ .mint keyId row)
    (steps : authStep settings servers party act = some (after, next)) : AllMinted minted after.keys := by
  cases authStep_moves steps with
  | begins => exact all
  | authenticate nexts => exact AuthPoint.next_minted all nexts
  | revoke nexts => exact RevokePoint.next_minted all nexts
  | revokes => exact all
  | raises => exact all
  | ticks => exact all
  | mints => exact absurd rfl (own _ _)

theorem note_table {minted : List Mint} {servers : Servers} (all : AllMinted minted servers.keys)
    (known : AllMinted minted call.table) : AllMinted minted (call.note servers act).table := by
  unfold LoggedCall.note
  split
  · exact known
  · split
    · exact all
    · exact known
  · exact known

@[simp] theorem note_party {servers : Servers} (act : AuthAct) : (call.note servers act).party = call.party := by
  unfold LoggedCall.note
  split
  · rfl
  · split <;> rfl
  · rfl

theorem LoggedCall.returns_mem {servers : Servers} {party : AuthParty} {answer : Nat × Principal}
    (silent : call.party.principal? = none) (gives : party.principal? = some answer) :
    (⟨answer.1, call.fullKey, answer.2, (servers.processes answer.1).clock, call.own⟩ : AuthReturn) ∈
      call.returns servers party := by
  simp [LoggedCall.returns, silent, gives]

theorem completes_table {servers : Servers} {read : KeyRead} (completed : read ∈ call.completes servers act) :
    read.table = call.table := by
  unfold LoggedCall.completes at completed
  split at completed
  · split at completed <;> cases completed
    rfl
  · cases completed

structure Service.Keeps (settings : ServiceSettings) (service after : Service) : Prop where
  sound : after.Sound settings
  grows : service.Grows after

theorem Service.Sound.logged (sound : service.Sound settings) (known : call.Known settings service)
    (own : ∀ keyId row, act ≠ .mint keyId row) (logs : service.logged settings call act = some (after, next)) :
    service.Keeps settings after ∧ next.Known settings after ∧ (call.Answered service → next.Answered after) := by
  obtain ⟨⟨auth, next⟩, steps, same⟩ := Option.map_eq_some_iff.mp logs
  cases same
  obtain ⟨authSound, nextSound, _⟩ := loggedStep_sound sound.auth known.1 steps
  obtain ⟨⟨servers, party⟩, moves, same⟩ := Option.map_eq_some_iff.mp steps
  cases same
  have returns : service.auth.returns ⊆
      service.auth.returns ++ (call.note service.auth.servers act).returns servers party :=
    List.subset_append_left _ _
  refine ⟨⟨⟨authSound, sound.store, authStep_minted sound.keys own moves, fun read member => ?_,
    fun answer member bootstrap => ?_, sound.minters, fun success member => ?_⟩,
    ⟨fun _ member => member, List.subset_append_left _ _, returns, .refl _⟩⟩,
    ⟨nextSound, note_table sound.keys known.2⟩, fun answered answer gives => ?_⟩
  · rcases List.mem_append.mp member with earlier | now
    · exact sound.reads read earlier
    · rw [completes_table (Option.mem_toList.mp now)]
      exact known.2
  · rcases List.mem_append.mp member with earlier | now
    · exact sound.bootstrap answer earlier bootstrap
    · exact returned_bootstrap known.1 moves now bootstrap
  · obtain ⟨principal, actor, may, admits⟩ := sound.authors success member
    exact ⟨principal, actor, may, admits.grows returns⟩
  · cases before : call.party.principal? with
    | none =>
      have silent : (call.note service.auth.servers act).party.principal? = none := by rw [note_party, before]
      exact ⟨_, List.mem_append_right _ (LoggedCall.returns_mem silent gives), rfl⟩
    | some earlier =>
      cases answered_stays before moves
      obtain ⟨logged, member, same⟩ := answered answer gives
      exact ⟨logged, returns member, same⟩

theorem Service.mint_eq {mint : Mint} (mints : service.mint settings mint = some after) :
    service.auth.servers.keys.lookup mint.keyId = none ∧
      after = { service with
        auth := { service.auth with
          servers := { service.auth.servers with keys := service.auth.servers.keys.insert mint.keyId mint.row } },
        minted := service.minted ++ [mint] } := by
  obtain ⟨⟨auth, _⟩, steps, same⟩ := Option.map_eq_some_iff.mp mints
  cases same
  obtain ⟨⟨servers, party⟩, moves, same⟩ := Option.map_eq_some_iff.mp steps
  cases same
  cases authStep_moves moves with
  | mints unused => exact ⟨unused, by simp [LoggedCall.completes, LoggedCall.returns, LoggedCall.note,
      LoggedCall.fresh, AuthParty.principal?]⟩

theorem Service.Sound.mint {mint : Mint} (sound : service.Sound settings)
    (entitled : ∀ admin ∈ mint.minter, admin.has .admin ∧ Entitled settings service.minted admin)
    (mints : service.mint settings mint = some after) : service.Keeps settings after := by
  obtain ⟨unused, rfl⟩ := Service.mint_eq mints
  have within : service.minted ⊆ service.minted ++ [mint] := List.subset_append_left _ _
  have shrinks : service.auth.servers.Shrinks
      { service.auth.servers with keys := service.auth.servers.keys.insert mint.keyId mint.row } := .of_processes rfl
  have none : ∀ answer ∈ ([] : List AuthReturn), answer.Verified settings.toAuthSettings service.auth.reads := by simp
  have auth := sound.auth.shrinks shrinks none
  rw [List.append_nil] at auth
  refine ⟨⟨auth, sound.store, fun keyId row found => ?_, fun read member => (sound.reads read member).mono within,
    sound.bootstrap, fun made member admin minter => ?_, sound.authors⟩,
    ⟨within, fun _ member => member, fun _ member => member, .refl _⟩⟩
  · by_cases same : keyId = mint.keyId
    · subst same
      rw [AList.lookup_insert] at found
      cases found
      exact ⟨mint, by simp, rfl, rfl, rfl, rfl⟩
    · rw [AList.lookup_insert_ne same] at found
      exact sound.keys.mono within keyId row found
  · rcases List.mem_append.mp member with earlier | now
    · obtain ⟨may, goes⟩ := sound.minters made earlier admin minter
      exact ⟨may, goes.mono within⟩
    · cases List.mem_singleton.mp now
      obtain ⟨may, goes⟩ := entitled admin minter
      exact ⟨may, goes.mono within⟩

theorem fresh_known (settings : ServiceSettings) (service : Service) : LoggedCall.fresh.Known settings service :=
  ⟨trivial, fun keyId row found => by cases found⟩

theorem Route.request_scope {route : Route} {actor : Str} {request : Request}
    (asks : route.request actor = some request) : request.actor = actor ∧ route.scope = .flagsWrite := by
  cases route <;> cases asks <;> exact ⟨rfl, rfl⟩

theorem Service.Sound.commit {principal : Principal} {call next : Call} {supply : Supply} {store : Store}
    (sound : service.Sound settings) (own : (Handler.changing principal call).Sound settings service)
    (steps : storeStep service.store call (.commit supply) = some (store, next)) :
    service.Keeps settings { service with store } ∧
      (Handler.changing principal next).Sound settings { service with store } := by
  obtain ⟨kept, actor, may, admits⟩ := own
  obtain ⟨storeSound, ownAfter, grows⟩ := storeStep_sound sound.store kept steps
  cases storeStep_moves steps with
  | @commits request read held _ after commits =>
    refine ⟨⟨⟨sound.auth, storeSound, sound.keys, sound.reads, sound.bootstrap, sound.minters,
      fun success member => ?_⟩,
      ⟨fun _ member => member, fun _ member => member, fun _ member => member, grows⟩⟩, ownAfter, trivial, may, admits⟩
    rcases List.mem_append.mp member with earlier | now
    · exact sound.authors success earlier
    · cases List.mem_singleton.mp now
      exact ⟨principal, actor, may, admits⟩
  | fails => exact ⟨⟨sound, ⟨fun _ member => member, fun _ member => member, fun _ member => member, .refl _⟩⟩,
      trivial, trivial, may, admits⟩

theorem serviceStep_sound {handler next : Handler} {act : ServiceAct} (sound : service.Sound settings)
    (own : handler.Sound settings service) (steps : serviceStep settings service handler act = some (after, next)) :
    service.Keeps settings after ∧ next.Sound settings after := by
  have still : service.Keeps settings service :=
    ⟨sound, fun _ member => member, fun _ member => member, fun _ member => member, .refl _⟩
  cases serviceStep_moves steps with
  | anonymous off =>
    have superset : ∀ scope, anonymous.has scope := by
      intro scope
      cases scope <;> decide
    exact ⟨still, superset _, .inl ⟨off, rfl⟩⟩
  | begins enabled logs =>
    obtain ⟨keeps, known, answered⟩ := sound.logged (fresh_known settings service) (by simp) logs
    exact ⟨keeps, enabled, known, answered (by simp [LoggedCall.Answered, LoggedCall.fresh, AuthParty.principal?])⟩
  | authenticates logs plain =>
    obtain ⟨enabled, known, answered⟩ := own
    obtain ⟨keeps, known, answers⟩ := sound.logged known plain logs
    exact ⟨keeps, enabled, known, answers answered⟩
  | admits answers may =>
    obtain ⟨enabled, _, answered⟩ := own
    exact ⟨still, may, .inr ⟨enabled, answered _ answers⟩⟩
  | @reads p route principal request asks =>
    obtain ⟨may, admits⟩ := own
    obtain ⟨actor, scope⟩ := Route.request_scope asks
    exact ⟨still, Request.read_remembers service.store.db request, actor, scope ▸ may, admits⟩
  | commits commits => exact sound.commit own commits
  | creates mints =>
    obtain ⟨may, admits⟩ := own
    refine ⟨sound.mint (fun admin minter => ?_) mints, trivial⟩
    cases minter
    exact ⟨may, sound.entitled admits⟩
  | revokes logs =>
    obtain ⟨may, admits⟩ := own
    obtain ⟨keeps, known, _⟩ := sound.logged (fresh_known settings service) (by simp) logs
    exact ⟨keeps, may, admits.grows keeps.grows.returns, known⟩
  | revoking logs =>
    obtain ⟨may, admits, known⟩ := own
    obtain ⟨keeps, known, _⟩ := sound.logged known (by simp) logs
    exact ⟨keeps, may, admits.grows keeps.grows.returns, known⟩
  | operates mints =>
    have keeps := sound.mint (fun admin minter => by cases minter) mints
    exact ⟨keeps, own.grows keeps.grows⟩
  | ticks logs =>
    obtain ⟨keeps, _⟩ := sound.logged (fresh_known settings service) (by simp) logs
    exact ⟨keeps, own.grows keeps.grows⟩
  | ends done =>
    rcases done with rfl | rfl | ⟨refusal, rfl⟩
    · exact ⟨still, own⟩
    · exact ⟨still, trivial⟩
    · exact ⟨still, trivial⟩

theorem ServiceWorld.sound_of_run {clocks : Nat → ℚ} {world : ServiceWorld} {acts : List (Nat × ServiceAct)}
    (runs : run (World.act (serviceStep settings)) (ServiceWorld.start clocks) acts = some world) :
    world.shared.Sound settings ∧ ∀ who, (world.parties who).Sound settings world.shared := by
  refine run_invariant (fun world : ServiceWorld =>
    world.shared.Sound settings ∧ ∀ who, (world.parties who).Sound settings world.shared) ?_ runs ?_
  · intro world ⟨who, act⟩ next ⟨sound, each⟩ acts
    apply World.act_invariant _ (fun service handler => Handler.Sound settings service handler) acts each
    intro service handler steps
    obtain ⟨keeps, own⟩ := serviceStep_sound sound (each who) steps
    exact ⟨keeps.sound, own, fun _ other => other.grows keeps.grows⟩
  · refine ⟨⟨⟨?_, ?_, ?_⟩, ⟨rfl, rfl, fun key row stored => ?_⟩, ?_, ?_, ?_, ?_, ?_⟩, fun _ => trivial⟩
    · exact fun read none => by cases none
    · exact fun p keyId entry found => by cases found
    · exact fun answer none => by cases none
    · cases stored
    · exact fun keyId row found => by cases found
    · exact fun read none => by cases none
    · exact fun answer none => by cases none
    · exact fun mint none => by cases none
    · exact fun success none => by cases none

end Steps

theorem Store.Sound.author {store : Store} (sound : store.Sound) {entry : AuditLog} (member : entry ∈ store.db.audit) :
    ∃ success ∈ store.history, success.request.actor = entry.actor := by
  have listed : entry.call ∈ store.history.map Success.call := sound.audit ▸ List.mem_map_of_mem member
  obtain ⟨success, there, same⟩ := List.mem_map.mp listed
  exact ⟨success, there, congrArg (fun call => call.2.2) same⟩

/-- Whoever the audit log names has shown a key that may write flags, and that key goes back to the operator. -/
theorem changes_attributed {settings : ServiceSettings} {clocks : Nat → ℚ} {world : ServiceWorld}
    {acts : List (Nat × ServiceAct)}
    (runs : run (World.act (serviceStep settings)) (ServiceWorld.start clocks) acts = some world) :
    ∀ entry ∈ world.shared.store.db.audit, ∃ principal, entry.actor = principal.name ∧ principal.has .flagsWrite ∧
      Entitled settings world.shared.minted principal ∧
      (settings.authEnabled = true → ∃ answer ∈ world.shared.auth.returns,
        answer.principal = principal ∧ answer.Proves settings world.shared.minted) := by
  obtain ⟨sound, _⟩ := ServiceWorld.sound_of_run runs
  intro entry member
  obtain ⟨success, there, same⟩ := sound.store.author member
  obtain ⟨principal, actor, may, admits⟩ := sound.authors success there
  refine ⟨principal, same.symm.trans actor, may, sound.entitled admits, fun enabled => ?_⟩
  rcases admits with ⟨off, _⟩ | ⟨_, answer, returned, acts⟩
  · rw [enabled] at off
    cases off
  · exact ⟨answer, returned, acts, sound.proves returned⟩

def HttpRequest.withKey (key : List Byte) (plain : ∀ b ∈ key, b.val ≠ 0 ∧ b.val ≠ 10 ∧ b.val ≠ 13) :
    HttpRequest :=
  ⟨[⟨(str "x-api-key").map fun c => Fin.ofNat 256 c.val, key, plain⟩], []⟩

def operatorRequest : HttpRequest :=
  .withKey ((str "rpc_b007_guess").map fun c => Fin.ofNat 256 c.val) (by decide +kernel)

def deployRequest : HttpRequest :=
  .withKey ((str "rpc_ab12_s3cret").map fun c => Fin.ofNat 256 c.val) (by decide +kernel)

def deployData : ApiKeyCreate :=
  { name := str "ci-deploy", scopes := [str "flags:write"], named := by decide, granted := by decide,
    known := by decide }

def bootstrapped : ServiceSettings := { twoSecrets with bootstrapAdminKey := str "rpc_b007_guess", authEnabled := true }

/-- The bootstrap key makes a key, and that key creates a flag. -/
def firstDeploy : List (Nat × ServiceAct) :=
  [(0, .receive 0 (.createKey deployData) operatorRequest), (0, .authorize),
    (0, .createKey (str "ab12") (str "s3cret")), (1, .receive 0 (.createFlag searchCreate) deployRequest),
    (1, .next 10), (1, .next 10), (1, .next 10), (1, .authorize), (1, .read), (1, .commit (supplyOf 1))]

theorem changes_attributed_firstDeploy :
    ∃ world : ServiceWorld,
      run (World.act (serviceStep bootstrapped)) (ServiceWorld.start fun _ => 0) firstDeploy = some world ∧
      world.shared.store.db.audit.map AuditLog.actor = [str "ci-deploy"] ∧
      ∀ entry ∈ world.shared.store.db.audit, ∃ principal, entry.actor = principal.name ∧ principal.has .flagsWrite ∧
        Entitled bootstrapped world.shared.minted principal := by
  obtain ⟨world, runs, actors⟩ := run_reaches (World.act (serviceStep bootstrapped)) (ServiceWorld.start fun _ => 0)
    firstDeploy (fun world => world.shared.store.db.audit.map AuditLog.actor = [str "ci-deploy"]) (by decide +kernel)
  refine ⟨world, runs, actors, fun entry member => ?_⟩
  obtain ⟨principal, actor, may, entitled, _⟩ := changes_attributed runs entry member
  exact ⟨principal, actor, may, entitled⟩

/-! What cannot be gained. -/

def ServiceAct.GrantsNoAdmin : ServiceAct → Prop
  | .cliCreateKey _ scopes _ _ => Scope.admin.name ∉ scopes
  | _ => True

instance : DecidablePred ServiceAct.GrantsNoAdmin
  | .cliCreateKey _ scopes _ _ => inferInstanceAs (Decidable (Scope.admin.name ∉ scopes))
  | .receive .. | .next _ | .touchRaises | .authorize | .read | .commit _ | .createKey .. | .revoke | .tick .. =>
    inferInstanceAs (Decidable True)

section Escalation

variable {settings : ServiceSettings} {minted : List Mint}

theorem Principal.has_iff {principal : Principal} {scope : Scope} :
    principal.has scope ↔ scope.name ∈ principal.scopes ∨ Scope.admin.name ∈ principal.scopes := by
  have known : scope.name ∈ allScopes := by cases scope <;> decide
  unfold Principal.has Principal.effectiveScopes
  by_cases admin : Scope.admin.name ∈ principal.scopes
  · simp [admin, known]
  · simp [admin]

theorem Mint.has_iff {mint : Mint} {scope : Scope} :
    mint.principal.has scope ↔ scope.name ∈ mint.scopes ∨ Scope.admin.name ∈ mint.scopes := by
  rw [Principal.has_iff]
  simp [Mint.principal, ApiKey.principal, Mint.row]

theorem Entitled.by_operator {principal : Principal} (enabled : settings.authEnabled = true)
    (unset : settings.bootstrapAdminKey = [])
    (plain : ∀ mint ∈ minted, mint.minter = none → Scope.admin.name ∉ mint.scopes)
    (entitled : Entitled settings minted principal) :
    ∃ mint ∈ minted, mint.minter = none ∧ principal = mint.principal := by
  induction entitled with
  | anonymous off =>
    rw [enabled] at off
    cases off
  | bootstrap configured => exact absurd unset configured
  | @operator mint member made => exact ⟨mint, member, made, rfl⟩
  | minted _ _ may _ ih =>
    -- the admin that made it would hold a key of the operator's, and none of those is an admin's
    obtain ⟨mint, member, made, rfl⟩ := ih
    have granted : Scope.admin.name ∈ mint.scopes := by simpa using Mint.has_iff.mp may
    exact absurd granted (plain mint member made)

theorem serviceStep_plain {service after : Service} {handler next : Handler} {act : ServiceAct}
    (grants : act.GrantsNoAdmin)
    (plain : ∀ mint ∈ service.minted, mint.minter = none → Scope.admin.name ∉ mint.scopes)
    (steps : serviceStep settings service handler act = some (after, next)) :
    ∀ mint ∈ after.minted, mint.minter = none → Scope.admin.name ∉ mint.scopes := by
  have logged {call next : LoggedCall} {step : AuthAct} {after : Service}
      (logs : service.logged settings call step = some (after, next)) : after.minted = service.minted := by
    obtain ⟨_, _, same⟩ := Option.map_eq_some_iff.mp logs
    cases same
    rfl
  have mints {mint : Mint} {after : Service} (mints : service.mint settings mint = some after)
      (own : mint.minter = none → Scope.admin.name ∉ mint.scopes) :
      ∀ mint ∈ after.minted, mint.minter = none → Scope.admin.name ∉ mint.scopes := by
    obtain ⟨_, rfl⟩ := Service.mint_eq mints
    intro other member
    rcases List.mem_append.mp member with earlier | now
    · exact plain other earlier
    · cases List.mem_singleton.mp now
      exact own
  cases serviceStep_moves steps with
  | begins _ logs => exact logged logs ▸ plain
  | authenticates logs => exact logged logs ▸ plain
  | revokes logs => exact logged logs ▸ plain
  | revoking logs => exact logged logs ▸ plain
  | ticks logs => exact logged logs ▸ plain
  | creates makes => exact mints makes fun none => by cases none
  | operates makes => exact mints makes fun _ => grants
  | _ => exact plain

end Escalation

/-- Where no bootstrap key is set and the operator makes no admin key, no key comes from anyone but the operator,
    and every change is by one of the keys that were made to write flags. -/
theorem no_escalation {settings : ServiceSettings} {clocks : Nat → ℚ} {world : ServiceWorld}
    {acts : List (Nat × ServiceAct)} (enabled : settings.authEnabled = true)
    (unset : settings.bootstrapAdminKey = []) (grants : ∀ action ∈ acts, action.2.GrantsNoAdmin)
    (runs : run (World.act (serviceStep settings)) (ServiceWorld.start clocks) acts = some world) :
    (∀ keyId row, world.shared.auth.servers.keys.lookup keyId = some row →
      ∃ mint ∈ world.shared.minted, mint.minter = none ∧ mint.keyId = keyId ∧ mint.Made row) ∧
    ∀ entry ∈ world.shared.store.db.audit, ∃ mint ∈ world.shared.minted,
      mint.minter = none ∧ entry.actor = mint.name ∧ Scope.flagsWrite.name ∈ mint.scopes := by
  obtain ⟨sound, _⟩ := ServiceWorld.sound_of_run runs
  have allowed : RunWhere (World.act (serviceStep settings)) (fun _ action => action.2.GrantsNoAdmin)
      (ServiceWorld.start clocks) acts world := RunWhere.of_run (fun _ action member => grants action member) runs
  have plain : ∀ mint ∈ world.shared.minted, mint.minter = none → Scope.admin.name ∉ mint.scopes := by
    apply allowed.invariant (fun world : ServiceWorld =>
      ∀ mint ∈ world.shared.minted, mint.minter = none → Scope.admin.name ∉ mint.scopes)
    · intro world action next grants plain acts
      obtain ⟨service, handler, steps, rfl⟩ := World.act_cases acts
      exact serviceStep_plain grants plain steps
    · exact fun mint none => by cases none
  have made : ∀ mint ∈ world.shared.minted, mint.minter = none := by
    intro mint member
    cases minter : mint.minter with
    | none => rfl
    | some admin =>
      obtain ⟨may, entitled⟩ := sound.minters mint member admin minter
      obtain ⟨other, there, own, rfl⟩ := entitled.by_operator enabled unset plain
      have granted : Scope.admin.name ∈ other.scopes := by simpa using Mint.has_iff.mp may
      exact absurd granted (plain other there own)
  constructor
  · intro keyId row found
    obtain ⟨mint, member, named, kept⟩ := sound.keys keyId row found
    exact ⟨mint, member, made mint member, named, kept⟩
  · intro entry member
    obtain ⟨success, there, same⟩ := sound.store.author member
    obtain ⟨principal, actor, may, admits⟩ := sound.authors success there
    obtain ⟨mint, listed, own, rfl⟩ := (sound.entitled admits).by_operator enabled unset plain
    exact ⟨mint, listed, own, same.symm.trans actor, (Mint.has_iff.mp may).resolve_right (plain mint listed own)⟩

def unbootstrapped : ServiceSettings := { twoSecrets with authEnabled := true }

def operatorDeploy : List (Nat × ServiceAct) :=
  [(0, .cliCreateKey (str "ci-deploy") [str "flags:write"] (str "ab12") (str "s3cret")),
    (1, .receive 0 (.createFlag searchCreate) deployRequest), (1, .next 10), (1, .next 10), (1, .next 10),
    (1, .authorize), (1, .read), (1, .commit (supplyOf 1))]

theorem no_escalation_operatorDeploy :
    ∃ world : ServiceWorld,
      run (World.act (serviceStep unbootstrapped)) (ServiceWorld.start fun _ => 0) operatorDeploy = some world ∧
      world.shared.store.db.audit.map AuditLog.actor = [str "ci-deploy"] ∧
      ∀ entry ∈ world.shared.store.db.audit, ∃ mint ∈ world.shared.minted,
        mint.minter = none ∧ entry.actor = mint.name ∧ Scope.flagsWrite.name ∈ mint.scopes := by
  obtain ⟨world, runs, actors⟩ := run_reaches (World.act (serviceStep unbootstrapped)) (ServiceWorld.start fun _ => 0)
    operatorDeploy (fun world => world.shared.store.db.audit.map AuditLog.actor = [str "ci-deploy"]) (by decide +kernel)
  exact ⟨world, runs, actors, (no_escalation rfl rfl (by decide) runs).2⟩

end Ripcord
