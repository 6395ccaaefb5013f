import Ripcord.Foundation.Urls
import Ripcord.Telemetry
import Ripcord.Watch
import Mathlib.Data.Finset.Lattice.Lemmas

namespace Ripcord

open Foundation

/-- A header as the server hands it on: its name in lower case, and a value that no line break or NUL is in. -/
structure HeaderField where
  name : List Byte
  value : List Byte
  plain : ∀ b ∈ value, b.val ≠ 0 ∧ b.val ≠ 10 ∧ b.val ≠ 13

structure HttpRequest where
  headers : List HeaderField
  queryString : List Byte

def latin1 (bytes : List Byte) : Str := bytes.map fun b => Fin.ofNat 0x110000 b.val

/-- `request.headers.get`. -/
def HttpRequest.header (request : HttpRequest) (name : Str) : Option Str :=
  (request.headers.find? fun field => latin1 field.name = name).map fun field => latin1 field.value

/-- `request.query_params.get`. -/
def HttpRequest.queryParam (request : HttpRequest) (name : Str) : Option Str :=
  lastValue name (parseQsl (latin1 request.queryString))

def queryParam : Str := str "api_key"

/-- `str.lower` on ASCII; no other code point lowers to a letter of a scheme. -/
def lower (c : CodePoint) : CodePoint := if 65 ≤ c.val ∧ c.val ≤ 90 then Fin.ofNat 0x110000 (c.val + 32) else c

def bearerValue (header : Str) : Option Str :=
  let (scheme, value) := partitionAt (ch ' ') header
  if scheme.map lower = str "bearer" ∧ value ≠ [] then some (strip value) else none

def extractCredential (request : HttpRequest) (allowQuery : Bool) : Option Str :=
  match (request.header (str "authorization")).bind bearerValue with
  | some value => some value
  | none =>
    match request.header (str "x-api-key") with
    | some (c :: rest) => some (c :: rest)
    | _ => if allowQuery then request.queryParam queryParam else none

inductive Scope
  | flagsRead
  | flagsWrite
  | sdk
  | admin
  deriving DecidableEq

def Scope.name : Scope → Str
  | .flagsRead => str "flags:read"
  | .flagsWrite => str "flags:write"
  | .sdk => str "sdk"
  | .admin => str "admin"

def allScopes : Finset Str := ([.flagsRead, .flagsWrite, .sdk, .admin].map Scope.name).toFinset

def Principal.effectiveScopes (principal : Principal) : Finset Str :=
  if Scope.admin.name ∈ principal.scopes then principal.scopes ∪ allScopes else principal.scopes

def Principal.has (principal : Principal) (scope : Scope) : Bool := scope.name ∈ principal.effectiveScopes

def anonymous : Principal := { name := str "anonymous", scopes := allScopes }

/-- How `require` turns a request away; the 401s also send `WWW-Authenticate: Bearer`. -/
inductive Refusal
  | unauthorized (detail : Str)
  | forbidden (detail : Str)
  | raised (failure : PyError)
  deriving DecidableEq

def authorize (required : List Scope) : Except PyError (Option Principal) → Except Refusal Principal
  | .error failure => .error (.raised failure)
  | .ok none => .error (.unauthorized (str "Invalid or revoked API key."))
  | .ok (some principal) =>
    let missing := required.filter fun scope => !principal.has scope
    if missing = [] then .ok principal
    else .error (.forbidden (str "API key lacks required scope(s): " ++ join (str ", ") (missing.map Scope.name)))

/-- The dependency that `require(*required, allow_query=allowQuery)` builds. -/
def require (settings : AuthSettings) (authEnabled : Bool) (required : List Scope) (allowQuery : Bool)
    (servers : Servers) (p : Nat) (request : HttpRequest) (now : ℚ) (commit : Commit) :
    Servers × Except Refusal Principal :=
  if !authEnabled then (servers, .ok anonymous)
  else
    match extractCredential request allowQuery with
    | none | some [] =>
      (servers, .error (.unauthorized (str "Missing API key. Send 'Authorization: Bearer <key>'.")))
    | some credential =>
      let (servers, answer) := authenticate settings servers p credential now commit
      (servers, authorize required answer)

/-- The check of the bootstrap key in `create_app`, with the text of the error it raises. -/
def createApp (bootstrapAdminKey : Str) : Except Str Unit :=
  if bootstrapAdminKey ≠ [] ∧ splitKey bootstrapAdminKey = none then
    .error (str ("BOOTSTRAP_ADMIN_KEY is malformed and would authenticate nobody. " ++
      "Expected rpc_<12 hex chars>_<secret>; generate one with " ++ "`python -m ripcord.cli mint-bootstrap`."))
  else .ok ()

/-! Headers and keys. -/

def HttpRequest.Bears (request : HttpRequest) (key : Str) : Prop :=
  request.header (str "authorization") = some (str "Bearer " ++ key)

def IsHeaderText (s : Str) : Prop := ∀ c ∈ s, c.val < 256 ∧ c.val ≠ 0 ∧ c.val ≠ 10 ∧ c.val ≠ 13

instance : DecidablePred IsHeaderText := fun s =>
  List.decidableBAll (fun c : CodePoint => c.val < 256 ∧ c.val ≠ 0 ∧ c.val ≠ 10 ∧ c.val ≠ 13) s

section Headers

variable {request : HttpRequest} {key : Str}

theorem latin1_bytes {s : Str} (small : ∀ c ∈ s, c.val < 256) : latin1 (s.map fun c => Fin.ofNat 256 c.val) = s := by
  rw [latin1, List.map_map]
  conv_rhs => rw [← List.map_id s]
  apply List.map_congr_left
  intro c member
  have bound := small c member
  apply Fin.ext
  simp only [Function.comp, Fin.val_ofNat, id]
  omega

theorem IsHeaderText.of_header {name text : Str} (carries : request.header name = some text) : IsHeaderText text := by
  obtain ⟨field, _, rfl⟩ := Option.map_eq_some_iff.mp carries
  intro c member
  obtain ⟨b, there, rfl⟩ := List.mem_map.mp member
  have plain := field.plain b there
  have bound := b.isLt
  rw [Fin.val_ofNat, Nat.mod_eq_of_lt (by omega)]
  exact ⟨bound, plain⟩

theorem IsHeaderText.unicode {s : Str} (text : IsHeaderText s) : IsUnicode s := by
  rintro c member ⟨low, _⟩
  have bound := (text c member).1
  omega

theorem exists_bears (text : IsHeaderText key) : ∃ request : HttpRequest, request.Bears key := by
  have whole : IsHeaderText (str "Bearer " ++ key) := by
    intro c member
    have scheme : IsHeaderText (str "Bearer ") := by decide
    rcases List.mem_append.mp member with before | given
    · exact scheme c before
    · exact text c given
  have plain : ∀ b ∈ (str "Bearer " ++ key).map (fun c => Fin.ofNat 256 c.val),
      b.val ≠ 0 ∧ b.val ≠ 10 ∧ b.val ≠ 13 := by
    intro b member
    obtain ⟨c, there, rfl⟩ := List.mem_map.mp member
    have plain := whole c there
    rw [Fin.val_ofNat, Nat.mod_eq_of_lt plain.1]
    exact plain.2
  have name : IsHeaderText (str "authorization") := by decide
  have named : latin1 ((str "authorization").map fun c => Fin.ofNat 256 c.val) = str "authorization" :=
    latin1_bytes fun c member => (name c member).1
  refine ⟨⟨[⟨(str "authorization").map fun c => Fin.ofNat 256 c.val, _, plain⟩], []⟩, ?_⟩
  unfold HttpRequest.Bears HttpRequest.header
  rw [List.find?_cons_of_pos (by simpa using named)]
  exact congrArg some (latin1_bytes fun c member => (whole c member).1)

theorem exists_bears_iff : (∃ request : HttpRequest, request.Bears key) ↔ IsHeaderText key := by
  constructor
  · rintro ⟨request, bears⟩ c member
    exact IsHeaderText.of_header bears c (List.mem_append_right _ member)
  · exact exists_bears

theorem bearerValue_bearer (key : Str) :
    bearerValue (str "Bearer " ++ key) = if key = [] then none else some (strip key) := by
  have spelled : str "Bearer " = str "Bearer" ++ [ch ' '] := by decide
  have unmixed : ch ' ' ∉ str "Bearer" := by decide
  have parts : partitionAt (ch ' ') (str "Bearer " ++ key) = (str "Bearer", key) := by
    rw [spelled, List.append_assoc]
    exact partitionAt_append unmixed key
  have named : (str "Bearer").map lower = str "bearer" := by decide
  unfold bearerValue
  rw [parts]
  by_cases empty : key = []
  · simp [empty]
  · simp [named, empty]

theorem extractCredential_bears (bears : request.Bears key) (given : key ≠ []) (allowQuery : Bool) :
    extractCredential request allowQuery = some (strip key) := by
  have value : (request.header (str "authorization")).bind bearerValue = some (strip key) := by
    rw [bears, Option.bind_some, bearerValue_bearer, if_neg given]
  rw [extractCredential, value]

end Headers

section Bootstrap

variable {settings : AuthSettings} {servers : Servers} {p : Nat} {now : ℚ} {commit : Commit}

theorem principalOf_keyId {apiKey : Mapped StoredKey} {principal : Principal}
    (gives : principalOf apiKey = .ok principal) : principal.keyId ≠ none := by
  obtain ⟨name, _, gives⟩ := bind_eq_ok gives
  obtain ⟨scopes, _, gives⟩ := bind_eq_ok gives
  obtain ⟨keyId, _, rfl⟩ := map_eq_ok gives
  simp

theorem authenticateRow_keyId {keyId secret : Str} {row : Option ApiKey} {principal : Principal}
    (gives : (authenticateRow settings servers p keyId secret row now commit).2 = .ok (some principal)) :
    principal.keyId ≠ none := by
  cases row with
  | none =>
    obtain ⟨_, _, same⟩ := map_eq_ok gives
    cases same
  | some row =>
    unfold authenticateRow at gives
    simp only at gives
    split at gives
    · cases gives
    · split at gives
      · cases gives
      · split at gives
        · cases gives
        · obtain ⟨apiKey, _, gives⟩ := bind_eq_ok gives
          obtain ⟨other, named, same⟩ := map_eq_ok gives
          cases same
          exact principalOf_keyId named

theorem authenticate_bootstrap_iff {credential : Str} :
    (authenticate settings servers p credential now commit).2 = .ok (some bootstrapPrincipal) ↔
      splitKey credential ≠ none ∧ isBootstrap settings credential = .ok true := by
  constructor
  · intro gives
    cases split : splitKey credential with
    | none => simp [authenticate, split] at gives
    | some parts =>
      refine ⟨by simp, ?_⟩
      cases compared : isBootstrap settings credential with
      | error => simp [authenticate, split, compared] at gives
      | ok matched =>
        cases matched with
        | true => rfl
        | false =>
          obtain ⟨keyId, secret⟩ := parts
          cases looked : cached (servers.processes p) keyId with
          | mk entry process =>
            cases entry with
            | some entry =>
              rw [authenticate_hit split compared looked] at gives
              obtain ⟨digest, _, same⟩ := map_eq_ok gives
              split at same
              · cases same
              · injection same with same
                have named := congrArg Principal.keyId same
                cases named
            | none =>
              rw [authenticate_miss split compared looked] at gives
              exact absurd rfl (authenticateRow_keyId gives)
  · rintro ⟨apart, matched⟩
    obtain ⟨parts, split⟩ := Option.ne_none_iff_exists'.mp apart
    simp [authenticate, split, matched]

theorem isBootstrap_iff {credential : Str} :
    isBootstrap settings credential = .ok true ↔
      credential = settings.bootstrapAdminKey ∧ credential ≠ [] ∧ IsUnicode credential := by
  unfold isBootstrap
  by_cases unset : settings.bootstrapAdminKey = []
  · simp only [unset, if_true, Except.ok.injEq, Bool.false_eq_true, false_iff]
    exact fun same => same.2.1 same.1
  · by_cases unicode : IsUnicode credential ∧ IsUnicode settings.bootstrapAdminKey
    · simp only [if_neg unset, if_pos unicode, Except.ok.injEq, decide_eq_true_eq]
      constructor
      · intro same
        exact ⟨same, same ▸ unset, unicode.1⟩
      · exact fun same => same.1
    · simp only [if_neg unset, if_neg unicode, reduceCtorEq, false_iff]
      rintro ⟨rfl, _, plain⟩
      exact unicode ⟨plain, plain⟩

theorem authorize_bootstrap_iff {required : List Scope} {answer : Except PyError (Option Principal)} :
    authorize required answer = .ok bootstrapPrincipal ↔ answer = .ok (some bootstrapPrincipal) := by
  have superset : ∀ scope, bootstrapPrincipal.has scope := by
    intro scope
    cases scope <;> decide
  constructor
  · intro resolves
    cases answer with
    | error => cases resolves
    | ok principal =>
      cases principal with
      | none => cases resolves
      | some principal =>
        simp only [authorize] at resolves
        split at resolves <;> cases resolves
        rfl
  · rintro rfl
    simp [authorize, superset]

theorem require_bootstrap_iff {authEnabled allowQuery : Bool} {required : List Scope} {request : HttpRequest} :
    (require settings authEnabled required allowQuery servers p request now commit).2 = .ok bootstrapPrincipal ↔
      authEnabled ∧ ∃ credential, extractCredential request allowQuery = some credential ∧
        splitKey credential ≠ none ∧ credential = settings.bootstrapAdminKey ∧ credential ≠ [] ∧
          IsUnicode credential := by
  unfold require
  cases authEnabled with
  | false =>
    have other : anonymous ≠ bootstrapPrincipal := by decide
    simp [other]
  | true =>
    cases extractCredential request allowQuery with
    | none => simp
    | some credential =>
      cases credential with
      | nil =>
        have malformed : splitKey [] = none := rfl
        simp only [Option.some.injEq, exists_eq_left', malformed]
        simp
      | cons c rest =>
        simp only [Option.some.injEq, exists_eq_left', Bool.not_true, Bool.false_eq_true, if_false, true_and]
        rw [authorize_bootstrap_iff, authenticate_bootstrap_iff, isBootstrap_iff]

theorem require_bears_iff {authEnabled allowQuery : Bool} {required : List Scope} {request : HttpRequest}
    (bears : request.Bears settings.bootstrapAdminKey) :
    (require settings authEnabled required allowQuery servers p request now commit).2 = .ok bootstrapPrincipal ↔
      authEnabled ∧ splitKey settings.bootstrapAdminKey ≠ none ∧
        strip settings.bootstrapAdminKey = settings.bootstrapAdminKey := by
  rw [require_bootstrap_iff]
  apply and_congr_right
  intro _
  constructor
  · rintro ⟨credential, extracted, apart, rfl, given, _⟩
    rw [extractCredential_bears bears given] at extracted
    exact ⟨apart, Option.some.inj extracted⟩
  · rintro ⟨apart, kept⟩
    have given : settings.bootstrapAdminKey ≠ [] := by
      intro empty
      rw [empty] at apart
      exact apart rfl
    have unicode : IsUnicode settings.bootstrapAdminKey := by
      intro c member
      exact (IsHeaderText.of_header bears).unicode c (List.mem_append_right _ member)
    have extracted := extractCredential_bears bears given allowQuery
    rw [kept] at extracted
    exact ⟨_, extracted, apart, rfl, given, unicode⟩

theorem createApp_iff {key : Str} : key ≠ [] ∧ createApp key = .ok () ↔ splitKey key ≠ none := by
  unfold createApp
  constructor
  · rintro ⟨given, starts⟩ malformed
    rw [if_pos ⟨given, malformed⟩] at starts
    cases starts
  · intro apart
    refine ⟨?_, if_neg fun refused => apart refused.2⟩
    rintro rfl
    exact apart rfl

end Bootstrap

/-- A bootstrap key that `create_app` accepts works, where authentication is on, exactly when a header can
    carry it and stripping leaves it as it is. -/
theorem bootstrap_key_works_iff (settings : AuthSettings) (authEnabled allowQuery : Bool) (required : List Scope)
    (servers : Servers) (p : Nat) (now : ℚ) (commit : Commit) :
    ((settings.bootstrapAdminKey ≠ [] ∧ createApp settings.bootstrapAdminKey = .ok ()) ↔
      (∃ request : HttpRequest, request.Bears settings.bootstrapAdminKey) ∧
        ∀ request : HttpRequest, request.Bears settings.bootstrapAdminKey →
          (require settings authEnabled required allowQuery servers p request now commit).2 =
            .ok bootstrapPrincipal) ↔
    (splitKey settings.bootstrapAdminKey = none ∨
      authEnabled ∧ strip settings.bootstrapAdminKey = settings.bootstrapAdminKey ∧
        IsHeaderText settings.bootstrapAdminKey) := by
  rw [createApp_iff]
  by_cases malformed : splitKey settings.bootstrapAdminKey = none
  · simp only [malformed, ne_eq, not_true_eq_false, false_iff, true_or, iff_true]
    rintro ⟨⟨request, bears⟩, resolve⟩
    exact (require_bears_iff bears).mp (resolve request bears) |>.2.1 malformed
  · simp only [malformed, ne_eq, not_false_eq_true, true_iff, false_or]
    constructor
    · rintro ⟨⟨request, bears⟩, resolve⟩
      obtain ⟨enabled, _, kept⟩ := (require_bears_iff bears).mp (resolve request bears)
      exact ⟨enabled, kept, exists_bears_iff.mp ⟨request, bears⟩⟩
    · rintro ⟨enabled, kept, text⟩
      exact ⟨exists_bears text, fun request bears => (require_bears_iff bears).mpr ⟨enabled, malformed, kept⟩⟩

theorem trailingBlank_locked_out :
    createApp (str "rpc_ab_secret ") = .ok () ∧
      (∃ request : HttpRequest, request.Bears (str "rpc_ab_secret ")) ∧
      ∀ request : HttpRequest, request.Bears (str "rpc_ab_secret ") →
        (require { fiveSeconds with bootstrapAdminKey := str "rpc_ab_secret " } true [.admin] false deployServers 0
          request 10 .succeeds).2 ≠ .ok bootstrapPrincipal := by
  refine ⟨by decide, exists_bears (by decide), ?_⟩
  intro request bears resolves
  have stripped : strip (str "rpc_ab_secret ") ≠ str "rpc_ab_secret " := by decide
  have answers := @require_bears_iff { fiveSeconds with bootstrapAdminKey := str "rpc_ab_secret " } deployServers 0 10
    .succeeds true false [.admin] request bears
  exact stripped (answers.mp resolves).2.2

/-! Keys. -/

def hexDigits : Str := str "0123456789abcdef"

def urlSafe : Str := str "ABCDEFGHIJKLMNOPQRSTUVWXYZabcdefghijklmnopqrstuvwxyz0123456789-_"

def IsKeyId (keyId : Str) : Prop := keyId ≠ [] ∧ keyId ⊆ hexDigits

def IsSecret (secret : Str) : Prop := secret ≠ [] ∧ secret ⊆ urlSafe

def fullKey (keyId secret : Str) : Str := keyPrefix ++ ch '_' :: keyId ++ ch '_' :: secret

section Keys

variable {keyId secret : Str} {request : HttpRequest}

theorem cut_append {sep : CodePoint} {before : Str} (unmixed : sep ∉ before) (after : Str) :
    cut sep (before ++ sep :: after) = some (before, after) := by
  unfold cut
  rw [dropWhile_separated unmixed, takeWhile_separated unmixed]

theorem splitKey_fullKey (named : IsKeyId keyId) (given : secret ≠ []) :
    splitKey (fullKey keyId secret) = some (keyId, secret) := by
  have outer : ch '_' ∉ keyPrefix := by decide
  have inner : ch '_' ∉ keyId := by
    intro member
    have other : ch '_' ∉ hexDigits := by decide
    exact other (named.2 member)
  have hex : ¬ (keyId.any fun c => c ∉ hexDigits) := by
    simp only [List.any_eq_true, decide_eq_true_eq, not_exists, not_and, not_not]
    exact fun c member => named.2 member
  have whole : fullKey keyId secret = keyPrefix ++ ch '_' :: (keyId ++ ch '_' :: secret) := by simp [fullKey]
  rw [whole, splitKey, cut_append outer]
  simp only [cut_append inner, ne_eq, not_true_eq_false, if_false, named.1, given, or_self]
  exact if_neg hex

theorem splitKey_iff {key : Str} :
    splitKey key = some (keyId, secret) ↔ key = fullKey keyId secret ∧ IsKeyId keyId ∧ secret ≠ [] := by
  constructor
  · intro split
    exact splitKey_parts split
  · rintro ⟨rfl, named, given⟩
    exact splitKey_fullKey named given

theorem fullKey_urlSafe (named : IsKeyId keyId) (safe : IsSecret secret) : fullKey keyId secret ⊆ urlSafe := by
  have fixed : keyPrefix ++ [ch '_'] ⊆ urlSafe := by decide +kernel
  have digits : hexDigits ⊆ urlSafe := by decide +kernel
  intro c member
  simp only [fullKey, List.mem_append, List.mem_cons] at member
  rcases member with (initial | rfl | digit) | rfl | given
  · exact fixed (List.mem_append_left _ initial)
  · exact fixed (List.mem_append_right _ List.mem_cons_self)
  · exact digits (named.2 digit)
  · exact fixed (List.mem_append_right _ List.mem_cons_self)
  · exact safe.2 given

theorem strip_eq_self {s : Str} (solid : ∀ c ∈ s, isBlank c = false) : strip s = s := by
  have kept {t : Str} (within : ∀ c ∈ t, isBlank c = false) : t.dropWhile isBlank = t := by
    cases t with
    | nil => rfl
    | cons c rest => exact List.dropWhile_cons_of_neg (by simp [within c])
  rw [strip, kept solid, kept (by simpa using solid), List.reverse_reverse]

theorem urlSafe_clean {c : CodePoint} (member : c ∈ urlSafe) : isBlank c = false ∧ c ∉ str "%+&" := by
  have each : urlSafe.all fun c => isBlank c = false ∧ c ∉ str "%+&" := by decide +kernel
  exact of_decide_eq_true (List.all_eq_true.mp each c member)

theorem strip_urlSafe {s : Str} (safe : s ⊆ urlSafe) : strip s = s :=
  strip_eq_self fun _ member => (urlSafe_clean (safe member)).1

theorem parameter_key {key : Str} (safe : key ⊆ urlSafe) : parameter (str "api_key=" ++ key) = (queryParam, key) := by
  have spelled : str "api_key=" = queryParam ++ [ch '='] := by decide
  have unmixed : ch '=' ∉ queryParam := by decide
  have percent : ch '%' ∉ urlSafe := fun member => (urlSafe_clean member).2 (by decide)
  have plus : ch '+' ∉ urlSafe := fun member => (urlSafe_clean member).2 (by decide)
  have name : unquotePlus queryParam = queryParam := unquotePlus_plain (by decide) (by decide)
  rw [spelled, List.append_assoc, parameter]
  have parts : partitionAt (ch '=') (queryParam ++ ([ch '='] ++ key)) = (queryParam, key) :=
    partitionAt_append unmixed key
  rw [parts, name, unquotePlus_plain (fun member => percent (safe member)) fun member => plus (safe member)]

theorem queryParam_last {before after : List Str} {field value : Str}
    (query : latin1 request.queryString = [ch '&'].intercalate (before ++ field :: after))
    (unmixed : ∀ other ∈ before ++ field :: after, ch '&' ∉ other) (given : field ≠ [])
    (parses : parameter field = (queryParam, value)) (last : ∀ other ∈ after, (parameter other).1 ≠ queryParam) :
    request.queryParam queryParam = some value := by
  have kept : (field :: after).filter (fun field => decide (field ≠ [])) =
      field :: after.filter fun field => decide (field ≠ []) := List.filter_cons_of_pos (decide_eq_true given)
  unfold HttpRequest.queryParam
  rw [query, parseQsl_intercalate (by simp) unmixed, List.filter_append, kept, List.map_append, List.map_cons, parses]
  apply lastValue_append
  intro entry member
  obtain ⟨other, there, rfl⟩ := List.mem_map.mp member
  exact last other (List.mem_filter.mp there).1

theorem queryParam_key {before after : List Str} {key : Str} (safe : key ⊆ urlSafe)
    (query : latin1 request.queryString = [ch '&'].intercalate (before ++ (str "api_key=" ++ key) :: after))
    (unmixed : ∀ field ∈ before ++ after, ch '&' ∉ field)
    (last : ∀ field ∈ after, (parameter field).1 ≠ queryParam) : request.queryParam queryParam = some key := by
  have separate : ch '&' ∉ urlSafe := fun member => (urlSafe_clean member).2 (by decide)
  have named : ch '&' ∉ str "api_key=" := by decide
  have long : str "api_key=" ≠ [] := by decide
  have fields : ∀ field ∈ before ++ (str "api_key=" ++ key) :: after, ch '&' ∉ field := by
    intro field member
    simp only [List.mem_append, List.mem_cons] at member unmixed
    rcases member with early | rfl | late
    · exact unmixed field (.inl early)
    · simpa [named] using fun member => separate (safe member)
    · exact unmixed field (.inr late)
  exact queryParam_last query fields (List.append_ne_nil_of_left_ne_nil long key) (parameter_key safe) last

theorem extractCredential_header {key : Str} {allowQuery : Bool}
    (silent : (request.header (str "authorization")).bind bearerValue = none) (given : key ≠ [])
    (header : request.header (str "x-api-key") = some key) : extractCredential request allowQuery = some key := by
  rw [extractCredential, silent, header]
  cases key with
  | nil => exact absurd rfl given
  | cons c rest => rfl

theorem extractCredential_query {key : Str}
    (silent : (request.header (str "authorization")).bind bearerValue = none)
    (header : (request.header (str "x-api-key")).getD [] = []) (found : request.queryParam queryParam = some key) :
    extractCredential request true = some key := by
  rw [extractCredential, silent]
  cases sent : request.header (str "x-api-key") with
  | none => exact found
  | some value =>
    rw [sent, Option.getD_some] at header
    rw [header]
    exact found

end Keys

/-- A key is split into the parts it was made of however it is carried, and only one string has these parts. -/
theorem key_roundTrip {keyId secret : Str} (named : IsKeyId keyId) (safe : IsSecret secret) :
    splitKey (fullKey keyId secret) = some (keyId, secret) ∧
    (∀ (request : HttpRequest) (allowQuery : Bool), request.Bears (fullKey keyId secret) →
      extractCredential request allowQuery = some (fullKey keyId secret)) ∧
    (∀ (request : HttpRequest) (allowQuery : Bool), (request.header (str "authorization")).bind bearerValue = none →
      request.header (str "x-api-key") = some (fullKey keyId secret) →
      extractCredential request allowQuery = some (fullKey keyId secret)) ∧
    (∀ (request : HttpRequest) (before after : List Str),
      (request.header (str "authorization")).bind bearerValue = none →
      (request.header (str "x-api-key")).getD [] = [] →
      latin1 request.queryString =
        [ch '&'].intercalate (before ++ (str "api_key=" ++ fullKey keyId secret) :: after) →
      (∀ field ∈ before ++ after, ch '&' ∉ field) → (∀ field ∈ after, (parameter field).1 ≠ queryParam) →
      extractCredential request true = some (fullKey keyId secret)) ∧
    ∀ (key keyId secret : Str), splitKey key = some (keyId, secret) →
      (key = fullKey keyId secret ∧ IsKeyId keyId ∧ secret ≠ []) ∧
        ∀ other, splitKey other = splitKey key → other = key := by
  have within := fullKey_urlSafe named safe
  have given : fullKey keyId secret ≠ [] := by simp [fullKey]
  refine ⟨splitKey_fullKey named safe.1, ?_, ?_, ?_, ?_⟩
  · intro request allowQuery bears
    rw [extractCredential_bears bears given, strip_urlSafe within]
  · exact fun request allowQuery silent header => extractCredential_header silent given header
  · intro request before after silent header query unmixed last
    exact extractCredential_query silent header (queryParam_key within query unmixed last)
  · intro key keyId secret split
    refine ⟨splitKey_iff.mp split, ?_⟩
    intro other same
    rw [split] at same
    rw [(splitKey_iff.mp same).1, (splitKey_iff.mp split).1]

def streamRequest : HttpRequest :=
  { headers := [], queryString := (str "since=4&api_key=rpc_ab12_s_3-cret").map fun c => Fin.ofNat 256 c.val }

theorem key_roundTrip_stream :
    splitKey (fullKey (str "ab12") (str "s_3-cret")) = some (str "ab12", str "s_3-cret") ∧
      extractCredential streamRequest true = some (fullKey (str "ab12") (str "s_3-cret")) := by
  have named : IsKeyId (str "ab12") := ⟨by decide, by decide⟩
  have safe : IsSecret (str "s_3-cret") := ⟨by decide, by decide +kernel⟩
  have query : latin1 streamRequest.queryString =
      [ch '&'].intercalate ([str "since=4"] ++ (str "api_key=" ++ fullKey (str "ab12") (str "s_3-cret")) :: []) := by
    decide
  have unmixed : ch '&' ∉ str "since=4" := by decide
  have carried := (key_roundTrip named safe).2.2.2.1 streamRequest [str "since=4"] [] rfl rfl query
    (by simpa using unmixed) (by simp)
  exact ⟨(key_roundTrip named safe).1, carried⟩

end Ripcord
