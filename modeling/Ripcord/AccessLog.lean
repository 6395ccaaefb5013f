import Ripcord.Credentials
import Ripcord.Foundation.Redaction

namespace Ripcord

open Foundation

/-- The pattern's group, `api_key=`. -/
def redactedKey : Str := str "api_key="

/-- The pattern's class: no `&`, no white space and neither of the quotes, which are 34 and 39. -/
def inValue (c : CodePoint) : Bool := c ≠ ch '&' ∧ !isBlank c ∧ c.val ≠ 34 ∧ c.val ≠ 39

def redactedMark : Str := str "[redacted]"

inductive LogArg (α : Type)
  | text (s : List α)
  | number (n : Int)
  deriving DecidableEq

structure LogRecord (α : Type) where
  msg : List α
  args : List (LogArg α)
  deriving DecidableEq

section Records

variable {α β : Type}

def LogArg.map (f : α → β) : LogArg α → LogArg β
  | .text s => .text (s.map f)
  | .number n => .number n

def LogRecord.map (f : α → β) (record : LogRecord α) : LogRecord β :=
  { msg := record.msg.map f, args := record.args.map (LogArg.map f) }

def LogArg.characters : LogArg α → List α
  | .text s => s
  | .number _ => []

def LogRecord.characters (record : LogRecord α) : List α := record.msg ++ record.args.flatMap LogArg.characters

def LogArg.redact (code : α → CodePoint) (mark : List α) : LogArg α → LogArg α
  | .text s => .text (Foundation.redact code redactedKey inValue mark s)
  | .number n => .number n

/-- The filter, over characters that may carry more than their code points. -/
def LogRecord.redact (code : α → CodePoint) (mark : List α) (record : LogRecord α) : LogRecord α :=
  { msg := Foundation.redact code redactedKey inValue mark record.msg,
    args := record.args.map (LogArg.redact code mark) }

def RedactQueryCredentials.filter (record : LogRecord CodePoint) : LogRecord CodePoint := record.redact id redactedMark

end Records

structure LogLine where
  client : Str
  method : Str
  version : Str
  status : Int

def accessFormat : Str := str "%s - \"%s %s HTTP/%s\" %d"

/-- A query whose last `api_key` parameter has its value left open. -/
structure StreamQuery where
  earlier : List Str
  rawName : Str
  later : List Str
  earlier_unmixed : ∀ field ∈ earlier, ch '&' ∉ field
  later_unmixed : ∀ field ∈ later, ch '&' ∉ field
  name_unmixed : ch '&' ∉ rawName ∧ ch '=' ∉ rawName
  named : unquotePlus rawName = queryParam
  last : ∀ field ∈ later, (parameter field).1 ≠ queryParam

def IsRawValue (value : Str) : Prop := value ≠ [] ∧ ch '&' ∉ value

namespace StreamQuery

def fields (frame : StreamQuery) (value : Str) : List Str :=
  frame.earlier ++ (frame.rawName ++ ch '=' :: value) :: frame.later

def query (frame : StreamQuery) (value : Str) : Str := [ch '&'].intercalate (frame.fields value)

/-- The target up to the value, and from its end on. -/
def opening (frame : StreamQuery) : Str :=
  str "/stream?" ++ (frame.earlier.flatMap fun field => field ++ [ch '&']) ++ frame.rawName ++ [ch '=']

def closing (frame : StreamQuery) : Str := frame.later.flatMap fun field => ch '&' :: field

def record (frame : StreamQuery) (line : LogLine) (value : Str) : LogRecord CodePoint :=
  { msg := accessFormat,
    args := [.text line.client, .text line.method, .text (str "/stream?" ++ frame.query value), .text line.version,
      .number line.status] }

/-- The same record with the characters of the value tagged. -/
def taggedRecord (frame : StreamQuery) (line : LogLine) (value : Str) : LogRecord (CodePoint × Bool) :=
  let plain : Str → List (CodePoint × Bool) := fun s => s.map fun c => (c, false)
  { msg := plain accessFormat,
    args := [.text (plain line.client), .text (plain line.method),
      .text (plain frame.opening ++ value.map (fun c => (c, true)) ++ plain frame.closing), .text (plain line.version),
      .number line.status] }

end StreamQuery

section Tags

theorem StreamQuery.target_eq (frame : StreamQuery) (value : Str) :
    str "/stream?" ++ frame.query value = frame.opening ++ value ++ frame.closing := by
  simp [StreamQuery.query, StreamQuery.fields, StreamQuery.opening, StreamQuery.closing, intercalate_append]

theorem redacted_given : redactedKey ≠ [] := by decide

theorem redacted_within : ∀ c ∈ redactedKey, inValue c := by
  have within : redactedKey.all inValue := by decide
  exact fun c member => List.all_eq_true.mp within c member

theorem redact_text {α : Type} (code : α → CodePoint) (mark text : List α) :
    redact code redactedKey inValue mark text = scan code redactedKey inValue mark [] false text :=
  redact_eq_scan redacted_given redacted_within text

theorem redact_map {α : Type} (f : α → CodePoint) (mark : List α) (record : LogRecord α) :
    (record.redact f mark).map f = (record.map f).redact id (mark.map f) := by
  have texts (text : List α) : (redact f redactedKey inValue mark text).map f =
      redact id redactedKey inValue (mark.map f) (text.map f) := by
    rw [redact_text, redact_text]
    exact @scan_map CodePoint CodePoint _ id redactedKey inValue α f mark [] false text
  have args (arg : LogArg α) : (arg.redact f mark).map f = (arg.map f).redact id (mark.map f) := by
    cases arg with
    | text s => exact congrArg LogArg.text (texts s)
    | number n => rfl
  simp [LogRecord.redact, LogRecord.map, texts, args]

theorem StreamQuery.taggedRecord_map (frame : StreamQuery) (line : LogLine) (value : Str) :
    (frame.taggedRecord line value).map Prod.fst = frame.record line value := by
  simp [taggedRecord, record, LogRecord.map, LogArg.map, Function.comp_def, frame.target_eq]

/-- Without its tags the redacted record is what the filter makes of the plain one. -/
theorem StreamQuery.filtered_map (frame : StreamQuery) (line : LogLine) (value : Str) :
    ((frame.taggedRecord line value).redact Prod.fst (redactedMark.map fun c => (c, false))).map Prod.fst =
      RedactQueryCredentials.filter (frame.record line value) := by
  rw [redact_map, frame.taggedRecord_map, RedactQueryCredentials.filter]
  simp [Function.comp_def]

/-- No character of the value is left in the record that the filter passes on: `filtered_map` says that its tags are
    on that very record. -/
def StreamQuery.Hides (frame : StreamQuery) (line : LogLine) (value : Str) : Prop :=
  ∀ c ∈ ((frame.taggedRecord line value).redact Prod.fst (redactedMark.map fun c => (c, false))).characters, c.2 = false

end Tags

section Frames

variable {frame : StreamQuery} {value : Str}

/-- What comes before the open parameter ends in a separator, and has no `=` in it unless that is a `&`. -/
theorem StreamQuery.opening_eq (frame : StreamQuery) :
    ∃ before, frame.opening = before ++ frame.rawName ++ [ch '='] ∧
      (before = str "/stream?" ∨ ∃ rest, before = rest ++ [ch '&']) := by
  refine ⟨_, rfl, ?_⟩
  rcases List.eq_nil_or_concat frame.earlier with none | ⟨others, field, some⟩
  · left
    simp [none]
  · right
    exact ⟨str "/stream?" ++ (others.flatMap fun field => field ++ [ch '&']) ++ field, by simp [some]⟩

end Frames

section Matches

variable {frame : StreamQuery} {value : Str}

theorem redactedKey_eq : redactedKey = queryParam ++ [ch '='] := by decide

theorem before_ends {before : Str} (ends : before = str "/stream?" ∨ ∃ rest, before = rest ++ [ch '&']) :
    ∃ rest c, before = rest ++ [c] ∧ c ∉ redactedKey := by
  rcases ends with rfl | ⟨rest, rfl⟩
  · exact ⟨str "/stream", ch '?', by decide, by decide⟩
  · exact ⟨rest, ch '&', rfl, by decide⟩

theorem not_keyed {before y : Str} (ends : before = str "/stream?" ∨ ∃ rest, before = rest ++ [ch '&']) :
    before ≠ y ++ redactedKey := by
  intro keyed
  obtain ⟨rest, sep, last, other⟩ := before_ends ends
  rw [last, redactedKey_eq, ← List.append_assoc] at keyed
  have same := List.singleton_inj.mp (List.append_inj' keyed rfl).2
  rw [same] at other
  exact other (by decide)

/-- No run reaches the value from further back than its own name. -/
theorem StreamQuery.opening_outside (frame : StreamQuery) :
    insideAfter redactedKey inValue [] false frame.opening = false := by
  by_contra inside
  rw [Bool.not_eq_false] at inside
  obtain ⟨y, x, whole, long, clean⟩ := insideAfter_true (by simp) inside
  obtain ⟨before, split, ends⟩ := frame.opening_eq
  obtain rfl | ⟨x, d, rfl⟩ := List.eq_nil_or_concat x
  · exact long rfl
  rw [List.reverse_nil, List.nil_append, split, List.concat_eq_append, ← List.append_assoc] at whole
  -- the run has the parameter's own `=` in it, so the `=` of the key comes earlier
  rcases List.append_eq_append_iff.mp (List.append_inj' whole rfl).1 with ⟨a, keyed, named⟩ | ⟨a, keyed, run⟩
  · obtain rfl | ⟨a, e, rfl⟩ := List.eq_nil_or_concat a
    · exact not_keyed ends (by simpa using keyed.symm)
    · rw [redactedKey_eq, List.concat_eq_append, ← List.append_assoc, ← List.append_assoc] at keyed
      have same := List.singleton_inj.mp (List.append_inj' keyed rfl).2
      have member : ch '=' ∈ frame.rawName := by
        rw [named, same]
        simp
      exact frame.name_unmixed.2 member
  · obtain rfl | ⟨a, e, rfl⟩ := List.eq_nil_or_concat a
    · exact not_keyed ends (by simpa using keyed)
    · rcases ends with path | ⟨rest, last⟩
      · have member : ch '=' ∈ str "/stream?" := by
          rw [← path, keyed, redactedKey_eq]
          simp
        revert member
        decide
      · rw [last, List.concat_eq_append, ← List.append_assoc] at keyed
        have same := List.singleton_inj.mp (List.append_inj' keyed rfl).2
        have within := clean e (by simp [run])
        rw [← same] at within
        revert within
        decide

theorem escape_a {c high : CodePoint} {b : Byte} (escapes : escape c high (ch 'a') = some b) : b.val % 2 = 0 := by
  have low : hexDigit (ch 'a') = some 10 := by decide
  unfold escape at escapes
  split at escapes
  · rw [low] at escapes
    obtain ⟨digit, _, same⟩ := Option.bind_eq_some_iff.mp escapes
    cases same
    rw [Fin.val_ofNat]
    omega
  · cases escapes

/-- An escape that ends in the `a` of a name written out is not that `a`. -/
theorem tokens_a {x : Str} (one : tokens (x ++ [ch 'a']) = [Token.of (ch 'a')]) : x = [] := by
  have odd : Token.of (ch 'a') = .byte 97 := by decide
  match x with
  | [] => rfl
  | [c] => simp [tokens] at one
  | [c, high] =>
    simp only [List.cons_append, List.nil_append, tokens] at one
    cases escapes : escape c high (ch 'a') with
    | none => simp [escapes] at one
    | some b =>
      simp only [escapes, odd, List.cons.injEq, Token.byte.injEq, and_true] at one
      have even := escape_a escapes
      rw [one] at even
      have odd : (97 : Byte).val % 2 ≠ 0 := by decide
      exact absurd even odd
  | c :: high :: low :: more =>
    have tail : tokens (more ++ [ch 'a']) ≠ [] := tokens_ne_nil (by simp)
    have rest : tokens (high :: low :: (more ++ [ch 'a'])) ≠ [] := tokens_ne_nil (by simp)
    simp only [List.cons_append, tokens] at one
    cases escapes : escape c high low with
    | none => simp [escapes, rest] at one
    | some b => simp [escapes, tail] at one

theorem unquotePlus_behind {x : Str} (named : unquotePlus (x ++ queryParam) = queryParam) : x = [] := by
  have ascii : ∀ c ∈ queryParam, c.val < 0x80 := by
    have small : queryParam.all fun c => c.val < 0x80 := by decide
    exact fun c member => by simpa using List.all_eq_true.mp small c member
  have spaceless : plusToSpace queryParam = queryParam := by decide
  have spelled : queryParam = [ch 'a'] ++ str "pi_key" := by decide
  have head : (str "pi_key").head? = some (ch 'p') := by decide
  have start : ∀ c ∈ (str "pi_key").head?, hexDigit c = none := by
    intro c member
    rw [head] at member
    cases member
    decide
  have plain : tokens (str "pi_key") = (str "pi_key").map Token.of := by decide
  have pieces := tokens_of_unquote ascii named
  have moved : plusToSpace (x ++ queryParam) = plusToSpace x ++ [ch 'a'] ++ str "pi_key" := by
    rw [plusToSpace, List.map_append, ← plusToSpace, ← plusToSpace, spaceless, List.append_assoc, ← spelled]
  rw [moved, tokens_append start, plain, spelled, List.map_append] at pieces
  have nothing := tokens_a (List.append_cancel_right pieces)
  simpa [plusToSpace] using nothing

theorem StreamQuery.keyed_iff (frame : StreamQuery) :
    redactedKey <:+ frame.opening ↔ frame.rawName = queryParam := by
  obtain ⟨before, split, ends⟩ := frame.opening_eq
  rw [split]
  constructor
  · rintro ⟨y, keyed⟩
    rw [redactedKey_eq, ← List.append_assoc] at keyed
    rcases List.append_eq_append_iff.mp (List.append_inj' keyed rfl).1 with ⟨a, path, named⟩ | ⟨a, path, named⟩
    · obtain rfl | ⟨a, e, rfl⟩ := List.eq_nil_or_concat a
      · simpa using named.symm
      · obtain ⟨rest, sep, last, other⟩ := before_ends ends
        rw [last, List.concat_eq_append, ← List.append_assoc] at path
        have same := List.singleton_inj.mp (List.append_inj' path rfl).2
        have member : sep ∈ redactedKey := by
          rw [redactedKey_eq, named, same]
          simp
        exact absurd member other
    · have nothing : a = [] := unquotePlus_behind (named ▸ frame.named)
      rw [named, nothing, List.nil_append]
  · intro literal
    exact ⟨before, by rw [literal, redactedKey_eq, List.append_assoc]⟩

theorem redact_untagged (s : Str) :
    ∀ c ∈ redact Prod.fst redactedKey inValue (redactedMark.map fun c => (c, false)) (s.map fun c => (c, false)),
      c.2 = false := by
  intro c member
  rw [redact_text] at member
  rcases mem_scan member with there | there
  · obtain ⟨_, _, rfl⟩ := List.mem_map.mp there
    rfl
  · obtain ⟨_, _, rfl⟩ := List.mem_map.mp there
    rfl

theorem StreamQuery.redact_target (frame : StreamQuery) (raw : IsRawValue value) :
    (∀ c ∈ redact Prod.fst redactedKey inValue (redactedMark.map fun c => (c, false))
        (frame.opening.map (fun c => (c, false)) ++ value.map (fun c => (c, true)) ++
          frame.closing.map fun c => (c, false)), c.2 = false) ↔
      frame.rawName = queryParam ∧ ∀ c ∈ value, inValue c := by
  have outside : insideAfter redactedKey inValue [] false
      ((frame.opening.map fun c => (c, false)).map Prod.fst) = false := by
    simpa [Function.comp_def] using frame.opening_outside
  have given : (value.map fun c => (c, true)) ≠ [] := by simpa using raw.1
  have tagged : ∀ c ∈ value.map (fun c => (c, true)), c.2 = true := by simp
  have plain : ∀ c ∈ frame.opening.map (fun c => (c, false)) ++ frame.closing.map (fun c => (c, false)) ++
      redactedMark.map (fun c => (c, false)), ¬ c.2 = true := by
    simp only [List.mem_append, List.mem_map]
    rintro c ((⟨_, _, rfl⟩ | ⟨_, _, rfl⟩) | ⟨_, _, rfl⟩) <;> simp
  have hides := scan_hides_iff (fun c : CodePoint × Bool => c.2 = true) given outside tagged plain
  rw [redact_text, ← frame.keyed_iff]
  simpa [Function.comp_def] using hides

theorem StreamQuery.hides_iff (frame : StreamQuery) (line : LogLine) (raw : IsRawValue value) :
    frame.Hides line value ↔ frame.rawName = queryParam ∧ ∀ c ∈ value, inValue c := by
  rw [← frame.redact_target raw]
  constructor
  · intro hides c member
    apply hides c
    simp only [LogRecord.characters, LogRecord.redact, taggedRecord, List.map_cons, List.flatMap_cons, LogArg.redact,
      LogArg.characters, List.mem_append]
    exact .inr (.inr (.inr (.inl member)))
  · intro target c member
    simp only [LogRecord.characters, LogRecord.redact, taggedRecord, List.map_cons, List.map_nil, List.flatMap_cons,
      List.flatMap_nil, LogArg.redact, LogArg.characters, List.mem_append, List.not_mem_nil, or_false] at member
    rcases member with text | client | method | sent | version
    · exact redact_untagged _ c text
    · exact redact_untagged _ c client
    · exact redact_untagged _ c method
    · exact target c sent
    · exact redact_untagged _ c version

end Matches

section Noninterference

variable {frame : StreamQuery} {line : LogLine}

theorem StreamQuery.redact_target_congr {v w : Str} (literal : frame.rawName = queryParam) (rawV : IsRawValue v)
    (rawW : IsRawValue w) (cleanV : ∀ c ∈ v, inValue c) (cleanW : ∀ c ∈ w, inValue c) :
    redact id redactedKey inValue redactedMark (str "/stream?" ++ frame.query v) =
      redact id redactedKey inValue redactedMark (str "/stream?" ++ frame.query w) := by
  have scanned {v : Str} (raw : IsRawValue v) (clean : ∀ c ∈ v, inValue c) :
      redact id redactedKey inValue redactedMark (str "/stream?" ++ frame.query v) =
        scan id redactedKey inValue redactedMark [] false frame.opening ++ (redactedMark ++
          scan id redactedKey inValue redactedMark (v.reverse ++ frame.opening.reverse) true frame.closing) := by
    have keyed := frame.keyed_iff.mpr literal
    have runs := @scan_run CodePoint CodePoint _ id redactedKey inValue redactedMark frame.opening.reverse v
      frame.closing (by simpa using keyed) raw.1 clean
    rw [redact_text, frame.target_eq, List.append_assoc, scan_append, List.map_id, frame.opening_outside,
      List.append_nil, runs, List.map_id]
  have behind (a b : Str) : scan id redactedKey inValue redactedMark a true frame.closing =
      scan id redactedKey inValue redactedMark b true frame.closing := by
    have stops : inValue (ch '&') = false := by decide
    have other : ch '&' ∉ redactedKey := by decide
    unfold StreamQuery.closing
    cases frame.later with
    | nil => rfl
    | cons field later =>
      rw [List.flatMap_cons, List.cons_append, scan, scan, if_neg (by simp [stops]), if_neg (by simp [stops])]
      exact congrArg _ (scan_congr other [] false _)
  rw [scanned rawV cleanV, scanned rawW cleanW, behind]

/-- Two records that differ only in the credential become the same, with nothing of either value left, exactly
    when the parameter's name is written out and neither value has a quote or white space in it. -/
theorem stream_credential_redacted_iff (frame : StreamQuery) (line : LogLine) {v w : Str} (rawV : IsRawValue v)
    (rawW : IsRawValue w) :
    RedactQueryCredentials.filter (frame.record line v) = RedactQueryCredentials.filter (frame.record line w) ∧
      frame.Hides line v ∧ frame.Hides line w ↔
    frame.rawName = queryParam ∧ (∀ c ∈ v, inValue c) ∧ ∀ c ∈ w, inValue c := by
  rw [frame.hides_iff line rawV, frame.hides_iff line rawW]
  constructor
  · rintro ⟨_, ⟨literal, cleanV⟩, _, cleanW⟩
    exact ⟨literal, cleanV, cleanW⟩
  · rintro ⟨literal, cleanV, cleanW⟩
    refine ⟨?_, ⟨literal, cleanV⟩, literal, cleanW⟩
    have target := StreamQuery.redact_target_congr literal rawV rawW cleanV cleanW
    simp only [RedactQueryCredentials.filter, LogRecord.redact, StreamQuery.record, List.map_cons, LogArg.redact,
      target]

def streamLine : LogLine :=
  { client := str "127.0.0.1:52310", method := str "GET", version := str "1.1", status := 200 }

def literalName : StreamQuery where
  earlier := [str "since=4"]
  rawName := str "api_key"
  later := [str "tab=1"]
  earlier_unmixed := by decide
  later_unmixed := by decide
  name_unmixed := by decide
  named := by decide
  last := by decide

theorem stream_credential_redacted_iff_literal :
    RedactQueryCredentials.filter (literalName.record streamLine (str "rpc_ab_secret")) =
        RedactQueryCredentials.filter (literalName.record streamLine (str "rpc_cd_other")) ∧
      literalName.Hides streamLine (str "rpc_ab_secret") ∧ literalName.Hides streamLine (str "rpc_cd_other") := by
  have clean (s : Str) (within : s.all inValue) : ∀ c ∈ s, inValue c := List.all_eq_true.mp within
  have rawV : IsRawValue (str "rpc_ab_secret") := ⟨by decide, by decide⟩
  have rawW : IsRawValue (str "rpc_cd_other") := ⟨by decide, by decide⟩
  exact (stream_credential_redacted_iff literalName streamLine rawV rawW).mpr
    ⟨rfl, clean _ (by decide), clean _ (by decide)⟩

/-- `%5F` stands for the underscore, as the parser knows and the pattern does not. -/
def escapedName : StreamQuery where
  earlier := []
  rawName := str "api%5Fkey"
  later := []
  earlier_unmixed := by simp
  later_unmixed := by simp
  name_unmixed := by decide
  named := by decide
  last := by simp

theorem escapedName_logged :
    RedactQueryCredentials.filter (escapedName.record streamLine (str "rpc_ab_secret")) =
        escapedName.record streamLine (str "rpc_ab_secret") ∧
      RedactQueryCredentials.filter (escapedName.record streamLine (str "rpc_ab_secret")) ≠
        RedactQueryCredentials.filter (escapedName.record streamLine (str "rpc_ab_other")) := by
  simp only [RedactQueryCredentials.filter, LogRecord.redact, StreamQuery.record, List.map_cons, LogArg.redact,
    redact_text]
  decide

end Noninterference

/-! What the frames cover. -/

section Coverage

theorem parameter_of_name {name value : Str} (unmixed : ch '=' ∉ name) :
    parameter (name ++ ch '=' :: value) = (unquotePlus name, unquotePlus value) := by
  rw [parameter, partitionAt_append unmixed]

theorem StreamQuery.credential (frame : StreamQuery) {request : HttpRequest} {value : Str} (raw : IsRawValue value)
    (sent : latin1 request.queryString = frame.query value) :
    request.queryParam queryParam = some (unquotePlus value) := by
  have unmixed : ∀ field ∈ frame.fields value, ch '&' ∉ field := by
    intro field member
    rcases List.mem_append.mp member with early | here
    · exact frame.earlier_unmixed field early
    · rcases List.mem_cons.mp here with rfl | late
      · simp [frame.name_unmixed.1, raw.2]
      · exact frame.later_unmixed field late
  have parses : parameter (frame.rawName ++ ch '=' :: value) = (queryParam, unquotePlus value) := by
    rw [parameter_of_name frame.name_unmixed.2, frame.named]
  exact queryParam_last sent unmixed (by simp) parses frame.last

/-- Every query that a credential is read from is a frame with a value in it. -/
theorem exists_streamQuery {query credential : Str} (given : credential ≠ [])
    (reads : lastValue queryParam (parseQsl query) = some credential) :
    ∃ (frame : StreamQuery) (value : Str), query = frame.query value ∧ IsRawValue value ∧
      credential = unquotePlus value := by
  obtain ⟨earlier, field, later, order, named, last⟩ := lastValue_parseQsl reads
  have unmixed : ∀ other ∈ earlier ++ field :: later, ch '&' ∉ other := by
    intro other member
    rw [← order] at member
    exact not_mem_splitOn member
  have decoded : credential = unquotePlus (partitionAt (ch '=') field).2 := (congrArg Prod.snd named).symm
  have valued : (partitionAt (ch '=') field).2 ≠ [] := by
    intro empty
    apply given
    rw [decoded, empty]
    rfl
  have whole := partitionAt_snd valued
  have separate := unmixed field (by simp)
  rw [whole, List.mem_append, List.mem_cons, not_or, not_or] at separate
  refine ⟨⟨earlier, (partitionAt (ch '=') field).1, later, ?_, ?_, ⟨separate.1, partitionAt_fst _ _⟩,
    congrArg Prod.fst named, ?_⟩, (partitionAt (ch '=') field).2, ?_, ⟨valued, separate.2.2⟩, decoded⟩
  · exact fun other member => unmixed other (by simp [member])
  · exact fun other member => unmixed other (by simp [member])
  · intro other member same
    by_cases empty : other = []
    -- `parse_qsl` passes over an empty field, and its name would be empty
    · rw [empty] at same
      revert same
      decide
    · exact last other member empty same
  · unfold StreamQuery.query StreamQuery.fields
    simp only
    rw [← whole, ← order, List.intercalate_splitOn]

end Coverage

end Ripcord
