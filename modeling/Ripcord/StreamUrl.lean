import Ripcord.AccessLog
import Ripcord.Foundation.PercentEncoding

namespace Ripcord

open Foundation

/-! The key that the dashboard puts into the address of its stream. -/

/-- The letters, the digits and the marks that stand for themselves; the quote is 39. -/
def uriKept (c : CodePoint) : Bool := urlSafe.contains c || (str ".!~*()").contains c || c.val == 39

/-- `encodeURIComponent`, which raises at a surrogate on its own. -/
def encodeURIComponent (s : Str) : Option Str := if IsUnicode s then some (percentEncode uriKept s) else none

/-- `api.streamUrl`, for the key that is stored; none where it raises. -/
def streamUrl (apiUrl : Str) : Option Str → Option Str
  | some (c :: rest) => (encodeURIComponent (c :: rest)).map fun key => apiUrl ++ str "/stream?api_key=" ++ key
  | _ => some (apiUrl ++ str "/stream")

/-! What a browser makes of an address. -/

def controlOrSpace (c : CodePoint) : Bool := c.val ≤ 0x20

/-- What the parser reads: without control characters and spaces at either end, and without tabs and line breaks. -/
def parserInput (url : Str) : Str := (trim controlOrSpace url).filter fun c => c.val ∉ [9, 10, 13]

/-- What the query of an HTTP address keeps: visible ASCII but both quotes, `#` and the angle brackets. -/
def queryKept (c : CodePoint) : Bool := (0x21 ≤ c.val ∧ c.val ≤ 0x7E) ∧ c.val ∉ [34, 35, 39, 60, 62]

def sentQuery (url : Str) : Str :=
  percentEncode queryKept (partitionAt (ch '?') (partitionAt (ch '#') (parserInput url)).1).2

/-- A request that an `EventSource` makes for an address: it can set no header. -/
structure HttpRequest.Opens (request : HttpRequest) (url : Str) : Prop where
  unauthorized : request.header (str "authorization") = none
  unkeyed : request.header (str "x-api-key") = none
  query : latin1 request.queryString = sentQuery url

def accessRecord (line : LogLine) (target : Str) : LogRecord CodePoint :=
  { msg := accessFormat,
    args := [.text line.client, .text line.method, .text target, .text line.version, .number line.status] }

def streamTarget (request : HttpRequest) : Str :=
  if request.queryString = [] then str "/stream" else str "/stream?" ++ latin1 request.queryString

section Addresses

variable {apiUrl key url : Str}

theorem uriKept_iff {c : CodePoint} : uriKept c ↔ c ∈ urlSafe ∨ c ∈ str ".!~*()" ∨ c.val = 39 := by
  simp only [uriKept, Bool.or_eq_true, List.contains_iff_mem, beq_iff_eq, or_assoc]

theorem uriKept_literal : Literal uriKept where
  ascii := by
    have letters : urlSafe.all fun c => c.val < 0x80 := by decide +kernel
    have marks : (str ".!~*()").all fun c => c.val < 0x80 := by decide
    intro c keeps
    rcases uriKept_iff.mp keeps with letter | mark | quote
    · exact of_decide_eq_true (List.all_eq_true.mp letters c letter)
    · exact of_decide_eq_true (List.all_eq_true.mp marks c mark)
    · omega
  percent := by decide +kernel
  plus := by decide +kernel

theorem queryKept_iff {c : CodePoint} :
    queryKept c ↔ (0x21 ≤ c.val ∧ c.val ≤ 0x7E) ∧ c.val ∉ [34, 35, 39, 60, 62] := decide_eq_true_iff

theorem queryKept_upperHex : ∀ n < 16, queryKept (upperHex n) := by decide

theorem queryKept_blank {c : CodePoint} (keeps : queryKept c) : isBlank c = false := by
  have within := (queryKept_iff.mp keeps).1
  simp only [isBlank, decide_eq_false_iff_not, List.mem_cons, List.not_mem_nil, or_false]
  omega

theorem queryKept_inValue {c : CodePoint} (keeps : queryKept c) (other : c ≠ ch '&') : inValue c := by
  have plain := (queryKept_iff.mp keeps).2
  simp only [List.mem_cons, List.not_mem_nil, or_false, not_or] at plain
  simp [inValue, other, queryKept_blank keeps, plain.1, plain.2.2.1]

theorem uriKept_other {c : CodePoint} (keeps : uriKept c) : c ≠ ch '&' ∧ c ≠ ch '#' ∧ 0x20 < c.val := by
  have letters : urlSafe.all fun c => c ≠ ch '&' ∧ c ≠ ch '#' ∧ 0x20 < c.val := by decide +kernel
  have marks : (str ".!~*()").all fun c => c ≠ ch '&' ∧ c ≠ ch '#' ∧ 0x20 < c.val := by decide
  rcases uriKept_iff.mp keeps with letter | mark | quote
  · exact of_decide_eq_true (List.all_eq_true.mp letters c letter)
  · exact of_decide_eq_true (List.all_eq_true.mp marks c mark)
  · refine ⟨?_, ?_, by omega⟩ <;> rintro rfl <;> revert quote <;> decide

theorem parserInput_append {before after : Str} (given : after ≠ []) (visible : ∀ c ∈ after, 0x20 < c.val) :
    ∃ start, start ⊆ before ∧ parserInput (before ++ after) = start ++ after := by
  have kept : after.dropWhile controlOrSpace = after := by
    rw [List.dropWhile_eq_self_iff]
    intro long blank
    have first := visible _ (List.getElem_mem long)
    exact absurd (of_decide_eq_true blank) (not_le.mpr first)
  have leading : (before ++ after).dropWhile controlOrSpace = before.dropWhile controlOrSpace ++ after := by
    rw [List.dropWhile_append, kept]
    split
    · rename_i nothing
      rw [List.isEmpty_iff.mp nothing, List.nil_append]
    · rfl
  have trailing (start : Str) : (start ++ after).rdropWhile controlOrSpace = start ++ after := by
    rw [List.rdropWhile_eq_self_iff]
    intro long blank
    rw [List.getLast_append_of_ne_nil long given] at blank
    have last := visible _ (List.getLast_mem given)
    exact absurd (of_decide_eq_true blank) (not_le.mpr last)
  have unbroken : after.filter (fun c => c.val ∉ [9, 10, 13]) = after := by
    rw [List.filter_eq_self]
    intro c member
    have last := visible c member
    simp only [List.mem_cons, List.not_mem_nil, or_false, decide_eq_true_eq]
    omega
  refine ⟨(before.dropWhile controlOrSpace).filter fun c => c.val ∉ [9, 10, 13], ?_, ?_⟩
  · intro c member
    exact (List.dropWhile_sublist _).subset (List.mem_filter.mp member).1
  · rw [parserInput, trim, leading, trailing, List.filter_append, unbroken]

theorem streamUrl_key (built : streamUrl apiUrl (some key) = some url) (given : key ≠ []) :
    IsUnicode key ∧ url = apiUrl ++ (str "/stream?api_key=" ++ percentEncode uriKept key) := by
  obtain ⟨c, rest, rfl⟩ := List.exists_cons_of_ne_nil given
  unfold streamUrl encodeURIComponent at built
  simp only at built
  split at built
  · rename_i unicode
    cases built
    exact ⟨unicode, List.append_assoc _ _ _⟩
  · cases built

theorem streamUrl_visible (key : Str) :
    ∀ c ∈ str "/stream?api_key=" ++ percentEncode uriKept key, 0x20 < c.val ∧ c ≠ ch '#' := by
  have path : (str "/stream?api_key=").all fun c => 0x20 < c.val ∧ c ≠ ch '#' := by decide
  have value : ∀ c ∈ percentEncode uriKept key, 0x20 < c.val ∧ c ≠ ch '#' := by
    apply forall_percentEncode
    · exact fun c keeps => ⟨(uriKept_other keeps).2.2, (uriKept_other keeps).2.1⟩
    · decide
    · decide
  intro c member
  rcases List.mem_append.mp member with early | late
  · exact of_decide_eq_true (List.all_eq_true.mp path c early)
  · exact value c late

/-- The query sent is the one written after the first `?`, with the quote escaped too. -/
theorem sentQuery_streamUrl (plain : ch '?' ∉ apiUrl ∧ ch '#' ∉ apiUrl)
    (built : streamUrl apiUrl (some key) = some url) (given : key ≠ []) :
    sentQuery url = str "api_key=" ++ percentEncode (fun c => uriKept c && queryKept c) key := by
  have visible := streamUrl_visible key
  have long : str "/stream?api_key=" ++ percentEncode uriKept key ≠ [] :=
    List.append_ne_nil_of_left_ne_nil (by decide) _
  obtain ⟨start, within, input⟩ := @parserInput_append apiUrl _ long fun c member => (visible c member).1
  have unmarked : ch '#' ∉ start ++ (str "/stream?api_key=" ++ percentEncode uriKept key) := by
    rw [List.mem_append, not_or]
    exact ⟨fun member => plain.2 (within member), fun member => (visible _ member).2 rfl⟩
  have unasked : ch '?' ∉ start ++ str "/stream" := by
    have path : ch '?' ∉ str "/stream" := by decide
    rw [List.mem_append, not_or]
    exact ⟨fun member => plain.1 (within member), path⟩
  have spelled : start ++ (str "/stream?api_key=" ++ percentEncode uriKept key) =
      start ++ str "/stream" ++ ch '?' :: (str "api_key=" ++ percentEncode uriKept key) := by
    have path : str "/stream?api_key=" = str "/stream" ++ ch '?' :: str "api_key=" := by decide
    simp [path]
  have name : percentEncode queryKept (str "api_key=") = str "api_key=" := by decide
  rw [(streamUrl_key built given).2, sentQuery, input, partitionAt_absent unmarked, spelled, partitionAt_append unasked,
    percentEncode, List.flatMap_append, ← percentEncode, ← percentEncode, name,
    percentEncode_percentEncode (by decide) queryKept_upperHex]

end Addresses

theorem unmixed_nil : ∀ field ∈ ([] : List Str), ch '&' ∉ field := List.forall_mem_nil _

theorem last_nil : ∀ field ∈ ([] : List Str), (parameter field).1 ≠ queryParam := List.forall_mem_nil _

def soleKey : StreamQuery where
  earlier := []
  rawName := queryParam
  later := []
  earlier_unmixed := unmixed_nil
  later_unmixed := unmixed_nil
  name_unmixed := by decide
  named := by decide
  last := last_nil

section Requests

variable {apiUrl key url : Str} {request : HttpRequest}

theorem soleKey_query (value : Str) : soleKey.query value = str "api_key=" ++ value := by
  have name : str "api_key=" = queryParam ++ [ch '='] := by decide
  simp [StreamQuery.query, StreamQuery.fields, soleKey, name]

theorem isRawValue_encoded (given : key ≠ []) : IsRawValue (percentEncode (fun c => uriKept c && queryKept c) key) := by
  refine ⟨percentEncode_ne_nil given, fun member => ?_⟩
  have other : ∀ c ∈ percentEncode (fun c => uriKept c && queryKept c) key, c ≠ ch '&' :=
    forall_percentEncode (fun c keeps => (uriKept_other (Bool.and_eq_true_iff.mp keeps).1).1) (by decide) (by decide)
  exact other _ member rfl

theorem inValue_encoded : ∀ c ∈ percentEncode (fun c => uriKept c && queryKept c) key, inValue c := by
  apply forall_percentEncode
  · intro c keeps
    obtain ⟨inner, outer⟩ := Bool.and_eq_true_iff.mp keeps
    exact queryKept_inValue outer (uriKept_other inner).1
  · decide
  · decide

theorem HttpRequest.Opens.sent (opens : request.Opens url) (plain : ch '?' ∉ apiUrl ∧ ch '#' ∉ apiUrl)
    (built : streamUrl apiUrl (some key) = some url) (given : key ≠ []) :
    latin1 request.queryString = soleKey.query (percentEncode (fun c => uriKept c && queryKept c) key) := by
  rw [opens.query, sentQuery_streamUrl plain built given, soleKey_query]

theorem extractCredential_opens (plain : ch '?' ∉ apiUrl ∧ ch '#' ∉ apiUrl)
    (built : streamUrl apiUrl (some key) = some url) (given : key ≠ []) (opens : request.Opens url) :
    extractCredential request true = some key := by
  have sent := opens.sent plain built given
  have found := soleKey.credential (isRawValue_encoded given) sent
  rw [unquotePlus_percentEncode (uriKept_literal.and queryKept) (streamUrl_key built given).1] at found
  apply extractCredential_query
  · rw [opens.unauthorized]
    rfl
  · rw [opens.unkeyed]
    rfl
  · exact found

theorem redact_streamTarget (plain : ch '?' ∉ apiUrl ∧ ch '#' ∉ apiUrl)
    (built : streamUrl apiUrl (some key) = some url) (given : key ≠ []) (opens : request.Opens url) :
    redact id redactedKey inValue redactedMark (streamTarget request) =
      redact id redactedKey inValue redactedMark (str "/stream?api_key=[redacted]") := by
  have sent := opens.sent plain built given
  have long : request.queryString ≠ [] := by
    intro empty
    rw [empty, soleKey_query] at sent
    cases sent
  have mark : ∀ c ∈ redactedMark, inValue c := by
    have within : redactedMark.all inValue := by decide
    exact List.all_eq_true.mp within
  have spelled : str "/stream?api_key=[redacted]" = str "/stream?" ++ soleKey.query redactedMark := by decide
  rw [streamTarget, if_neg long, sent, spelled]
  exact StreamQuery.redact_target_congr rfl (isRawValue_encoded given) ⟨by decide, by decide⟩ inValue_encoded mark

end Requests

/-- Whatever key the dashboard holds, its stream is judged by that very key, and what the filter leaves of it in the
    access log is the mark. A header's value is stripped, so a request that bears the key is judged alike where that
    leaves it as it is. -/
theorem stream_key_delivered {apiUrl : Str} (plain : ch '?' ∉ apiUrl ∧ ch '#' ∉ apiUrl) {key url : Str}
    (given : key ≠ []) (built : streamUrl apiUrl (some key) = some url) {request : HttpRequest}
    (opens : request.Opens url) :
    extractCredential request true = some key ∧
    (∀ bearing : HttpRequest, bearing.Bears key → strip key = key →
      ∀ (settings : AuthSettings) (authEnabled : Bool) (required : List Scope) (servers : Servers) (p : Nat) (now : ℚ)
        (commit : Commit), require settings authEnabled required true servers p request now commit =
          require settings authEnabled required false servers p bearing now commit) ∧
    ∀ line : LogLine, RedactQueryCredentials.filter (accessRecord line (streamTarget request)) =
      RedactQueryCredentials.filter (accessRecord line (str "/stream?api_key=[redacted]")) := by
  have extracted := extractCredential_opens plain built given opens
  refine ⟨extracted, ?_, ?_⟩
  · intro bearing bears kept settings authEnabled required servers p now commit
    have borne := extractCredential_bears bears given false
    rw [kept] at borne
    rw [require, require, extracted, borne]
  · intro line
    have target := redact_streamTarget plain built given opens
    simp only [RedactQueryCredentials.filter, LogRecord.redact, accessRecord, List.map_cons, LogArg.redact, target]

def localStream : Str := str "http://localhost:8000/stream?api_key=rpc_ab_5%25%26%2B%20%C3%A9"

def dashboardRequest : HttpRequest :=
  { headers := [], queryString := (str "api_key=rpc_ab_5%25%26%2B%20%C3%A9").map fun c => Fin.ofNat 256 c.val }

theorem stream_key_delivered_escaped :
    extractCredential dashboardRequest true = some (str "rpc_ab_5%&+ é") ∧
      ∀ line : LogLine, RedactQueryCredentials.filter (accessRecord line (streamTarget dashboardRequest)) =
        RedactQueryCredentials.filter (accessRecord line (str "/stream?api_key=[redacted]")) := by
  have plain : ch '?' ∉ str "http://localhost:8000" ∧ ch '#' ∉ str "http://localhost:8000" := by decide
  have built : streamUrl (str "http://localhost:8000") (some (str "rpc_ab_5%&+ é")) = some localStream := by
    decide +kernel
  have opens : dashboardRequest.Opens localStream := ⟨rfl, rfl, by decide +kernel⟩
  have delivered := stream_key_delivered plain (by decide) built opens
  exact ⟨delivered.1, delivered.2.2⟩

end Ripcord
