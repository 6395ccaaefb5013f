import Ripcord.Foundation.Fields
import Ripcord.Foundation.Str
import Mathlib.Algebra.Group.Nat.Defs
import Mathlib.Data.List.TakeWhile

namespace Foundation

/-! Lenient UTF-8. -/

def replacementPoint : CodePoint := Fin.ofNat 0x110000 0xFFFD

/-- A sequence begun: what it encodes so far, how many bytes it lacks and where the next has to lie. -/
structure Begun where
  value : Nat
  lacks : Nat
  low : Nat
  high : Nat

def utf8Start (b : Byte) : Str × Option Begun :=
  let n := b.val
  if n < 0x80 then ([Fin.ofNat 0x110000 n], none)
  else if n < 0xC2 then ([replacementPoint], none)
  else if n < 0xE0 then ([], some ⟨n - 0xC0, 1, 0x80, 0xBF⟩)
  else if n < 0xF0 then
    ([], some ⟨n - 0xE0, 2, if n = 0xE0 then 0xA0 else 0x80, if n = 0xED then 0x9F else 0xBF⟩)
  else if n < 0xF5 then
    ([], some ⟨n - 0xF0, 3, if n = 0xF0 then 0x90 else 0x80, if n = 0xF4 then 0x8F else 0xBF⟩)
  else ([replacementPoint], none)

/-- A byte that does not continue the sequence begun replaces it and is read afresh. -/
def utf8Next : Option Begun → Byte → Str × Option Begun
  | none, b => utf8Start b
  | some begun, b =>
    if begun.low ≤ b.val ∧ b.val ≤ begun.high then
      let value := begun.value * 64 + (b.val - 0x80)
      if begun.lacks = 1 then ([Fin.ofNat 0x110000 value], none) else ([], some ⟨value, begun.lacks - 1, 0x80, 0xBF⟩)
    else (replacementPoint :: (utf8Start b).1, (utf8Start b).2)

def utf8End : Option Begun → Str
  | none => []
  | some _ => [replacementPoint]

/-! Percent-encoding. -/

/-- A byte, escaped or not, or a code point beyond ASCII, which stands for itself. -/
inductive Token
  | byte (b : Byte)
  | point (c : CodePoint)
  deriving DecidableEq

def Token.of (c : CodePoint) : Token := if c.val < 0x80 then .byte (Fin.ofNat 256 c.val) else .point c

def hexDigit (c : CodePoint) : Option Nat :=
  if 48 ≤ c.val ∧ c.val ≤ 57 then some (c.val - 48)
  else if 65 ≤ c.val ∧ c.val ≤ 70 then some (c.val - 55)
  else if 97 ≤ c.val ∧ c.val ≤ 102 then some (c.val - 87)
  else none

def escape (c high low : CodePoint) : Option Byte :=
  if c = ch '%' then
    (hexDigit high).bind fun high => (hexDigit low).map fun low => Fin.ofNat 256 (16 * high + low)
  else none

def tokens : Str → List Token
  | [] => []
  | [c] => [.of c]
  | [c, next] => [.of c, .of next]
  | c :: high :: low :: rest =>
    match escape c high low with
    | some b => .byte b :: tokens rest
    | none => .of c :: tokens (high :: low :: rest)

def decodeTokens : Option Begun → List Token → Str
  | begun, [] => utf8End begun
  | begun, .byte b :: rest => (utf8Next begun b).1 ++ decodeTokens (utf8Next begun b).2 rest
  | begun, .point c :: rest => utf8End begun ++ c :: decodeTokens none rest

def unquote (s : Str) : Str := decodeTokens none (tokens s)

/-! Queries. -/

/-- `s.partition(sep)`, without its middle. -/
def partitionAt (sep : CodePoint) (s : Str) : Str × Str :=
  (s.takeWhile fun c => c ≠ sep, (s.dropWhile fun c => c ≠ sep).drop 1)

def plusToSpace (s : Str) : Str := s.map fun c => if c = ch '+' then ch ' ' else c

def unquotePlus (s : Str) : Str := unquote (plusToSpace s)

def parameter (field : Str) : Str × Str :=
  (unquotePlus (partitionAt (ch '=') field).1, unquotePlus (partitionAt (ch '=') field).2)

/-- `parse_qsl(query, keep_blank_values=True)`. -/
def parseQsl (query : Str) : List (Str × Str) :=
  ((query.splitOn (ch '&')).filter fun field => field ≠ []).map parameter

/-- The value of a name in a mapping built from the parameters, where the last one wins. -/
def lastValue (name : Str) (parameters : List (Str × Str)) : Option Str :=
  (parameters.reverse.find? fun entry => entry.1 = name).map Prod.snd

section Tokens

theorem tokens_cons_plain {c : CodePoint} (plain : c ≠ ch '%') (rest : Str) :
    tokens (c :: rest) = .of c :: tokens rest := by
  match rest with
  | [] => rfl
  | [_] => rfl
  | high :: low :: rest => simp [tokens, escape, plain]

theorem tokens_plain {s : Str} (plain : ch '%' ∉ s) : tokens s = s.map Token.of := by
  induction s with
  | nil => rfl
  | cons c rest ih =>
    rw [List.mem_cons, not_or] at plain
    rw [tokens_cons_plain (Ne.symm plain.1), ih plain.2, List.map_cons]

theorem tokens_cons {c : CodePoint} {t : Str} (start : ∀ first ∈ t.head?, hexDigit first = none) :
    tokens (c :: t) = .of c :: tokens t := by
  match t with
  | [] => rfl
  | [_] => rfl
  | first :: second :: rest =>
    have plain := start first rfl
    simp [tokens, escape, plain]

theorem tokens_append {s t : Str} (start : ∀ c ∈ t.head?, hexDigit c = none) :
    tokens (s ++ t) = tokens s ++ tokens t := by
  induction s using tokens.induct with
  | case1 => rfl
  | case2 c => exact tokens_cons start
  | case3 c next =>
    have whole : tokens (c :: next :: t) = .of c :: tokens (next :: t) := by
      match t with
      | [] => rfl
      | first :: rest =>
        have plain := start first rfl
        have refused : escape c next first = none := by
          unfold escape
          split
          · cases hexDigit next <;> simp [plain]
          · rfl
        simp [tokens, refused]
    simp only [List.cons_append, List.nil_append, whole, tokens_cons start, tokens]
  | case4 c high low rest b escapes ih => simp [tokens, escapes, ih]
  | case5 c high low rest plain ih =>
    simp only [List.cons_append] at ih
    simp [tokens, plain, ih]

theorem tokens_ne_nil {s : Str} (given : s ≠ []) : tokens s ≠ [] := by
  unfold tokens
  split
  · exact absurd rfl given
  · simp
  · simp
  · split <;> simp

end Tokens

section Decoding

theorem utf8Start_ascii {b : Byte} (ascii : b.val < 0x80) : utf8Start b = ([Fin.ofNat 0x110000 b.val], none) := by
  simp [utf8Start, ascii]

theorem utf8Next_ascii {b : Byte} (ascii : b.val < 0x80) : utf8Next none b = ([Fin.ofNat 0x110000 b.val], none) :=
  utf8Start_ascii ascii

theorem decodeTokens_of (s : Str) : decodeTokens none (s.map Token.of) = s := by
  induction s with
  | nil => rfl
  | cons c rest ih =>
    by_cases ascii : c.val < 0x80
    · have small : c.val % 256 < 0x80 := by omega
      have same : Fin.ofNat 0x110000 (c.val % 256) = c := by
        apply Fin.ext
        simp only [Fin.val_ofNat]
        omega
      have next : utf8Next none (Fin.ofNat 256 c.val) = ([c], none) := by
        rw [utf8Next_ascii (by simpa using small)]
        exact congrArg (fun c => ([c], none)) same
      rw [List.map_cons, Token.of, if_pos ascii, decodeTokens, next, ih]
      rfl
    · simp [Token.of, ascii, decodeTokens, utf8End, ih]

theorem unquote_plain {s : Str} (plain : ch '%' ∉ s) : unquote s = s := by
  rw [unquote, tokens_plain plain, decodeTokens_of]

theorem Token.of_ofNat {b : Byte} (ascii : b.val < 0x80) : Token.of (Fin.ofNat 0x110000 b.val) = .byte b := by
  have value : (Fin.ofNat 0x110000 b.val).val = b.val := by
    rw [Fin.val_ofNat, Nat.mod_eq_of_lt (by omega)]
  rw [Token.of, value, if_pos ascii]
  congr 1
  apply Fin.ext
  rw [Fin.val_ofNat, Nat.mod_eq_of_lt b.isLt]

structure Begun.Sound (begun : Begun) : Prop where
  lacks : 0 < begun.lacks
  low : 0x80 ≤ begun.low
  least : 0x80 ≤ (begun.value * 64 + (begun.low - 0x80)) * 64 ^ (begun.lacks - 1)
  most : (begun.value * 64 + (begun.high - 0x80) + 1) * 64 ^ (begun.lacks - 1) ≤ 0x110000

theorem utf8Start_high {b : Byte} (high : ¬ b.val < 0x80) :
    utf8Start b = ([replacementPoint], none) ∨ ∃ begun, utf8Start b = ([], some begun) ∧ begun.Sound := by
  have bound := b.isLt
  unfold utf8Start
  simp only [if_neg high]
  split
  · exact .inl rfl
  · split
    · refine .inr ⟨_, rfl, ?_, ?_, ?_, ?_⟩ <;> simp only <;> omega
    · split
      · refine .inr ⟨_, rfl, Nat.succ_pos _, ?_, ?_, ?_⟩ <;> simp only <;> split <;> omega
      · split
        · refine .inr ⟨_, rfl, Nat.succ_pos _, ?_, ?_, ?_⟩ <;> simp only <;> split <;> omega
        · exact .inl rfl

theorem Begun.Sound.next {begun : Begun} (sound : begun.Sound) {b : Byte}
    (here : begun.low ≤ b.val ∧ b.val ≤ begun.high) (more : begun.lacks ≠ 1) :
    Begun.Sound ⟨begun.value * 64 + (b.val - 0x80), begun.lacks - 1, 0x80, 0xBF⟩ := by
  obtain ⟨value, lacks, low, high⟩ := begun
  obtain ⟨positive, start, least, most⟩ := sound
  obtain ⟨k, rfl⟩ : ∃ k, lacks = k + 2 := ⟨lacks - 2, by simp only at positive more; omega⟩
  simp only at start least most here
  have power : 64 ^ (k + 2 - 1) = 64 * 64 ^ k := by rw [Nat.add_sub_assoc (by decide), Nat.pow_succ, Nat.mul_comm]
  have rest : k + 2 - 1 - 1 = k := by omega
  rw [power, ← Nat.mul_assoc] at least most
  refine ⟨by simp, le_rfl, ?_, ?_⟩
  · have grows : (value * 64 + (low - 0x80)) * 64 * 64 ^ k ≤ (value * 64 + (b.val - 0x80)) * 64 * 64 ^ k := by
      apply Nat.mul_le_mul_right
      omega
    simp only [rest, Nat.sub_self, Nat.add_zero]
    omega
  · have grows : ((value * 64 + (b.val - 0x80)) * 64 + (0xBF - 0x80) + 1) * 64 ^ k ≤
        (value * 64 + (high - 0x80) + 1) * 64 * 64 ^ k := by
      apply Nat.mul_le_mul_right
      omega
    simp only [rest]
    omega

theorem Begun.Sound.last {begun : Begun} (sound : begun.Sound) {b : Byte}
    (here : begun.low ≤ b.val ∧ b.val ≤ begun.high) (last : begun.lacks = 1) :
    0x80 ≤ (Fin.ofNat 0x110000 (begun.value * 64 + (b.val - 0x80))).val := by
  obtain ⟨positive, start, least, most⟩ := sound
  rw [last] at least most
  simp only [Nat.sub_self, Nat.pow_zero, Nat.mul_one] at least most
  rw [Fin.val_ofNat, Nat.mod_eq_of_lt (by omega)]
  omega

theorem decodeTokens_ascii {begun : Option Begun} {items : List Token} (sound : ∀ b ∈ begun, b.Sound)
    (points : ∀ c, .point c ∈ items → ¬ c.val < 0x80)
    (ascii : ∀ c ∈ decodeTokens begun items, c.val < 0x80) :
    begun = none ∧ items = (decodeTokens begun items).map Token.of := by
  have replaced : ¬ replacementPoint.val < 0x80 := by decide
  induction items generalizing begun with
  | nil =>
    cases begun with
    | none => exact ⟨rfl, rfl⟩
    | some begun => exact absurd (ascii _ List.mem_cons_self) replaced
  | cons item rest ih =>
    have others : ∀ c, .point c ∈ rest → ¬ c.val < 0x80 := fun c member => points c (List.mem_cons_of_mem _ member)
    rw [decodeTokens.eq_def] at ascii ⊢
    cases item with
    | point c =>
      exact absurd (ascii c (by simp)) (points c List.mem_cons_self)
    | byte b =>
      simp only at ascii ⊢
      cases begun with
      | none =>
        by_cases small : b.val < 0x80
        · rw [utf8Next_ascii small] at ascii ⊢
          have later := ih (by simp) others fun c member => ascii c (List.mem_append_right _ member)
          refine ⟨rfl, ?_⟩
          rw [List.map_append, ← later.2, List.map_singleton, Token.of_ofNat small]
          rfl
        · rcases utf8Start_high small with starts | ⟨begun, starts, kept⟩
          · rw [utf8Next, starts] at ascii
            exact absurd (ascii _ List.mem_cons_self) replaced
          · rw [utf8Next, starts] at ascii
            have later := ih (by simpa using kept) others ascii
            cases later.1
      | some begun =>
        -- ended or given up, a sequence puts out a code point beyond ASCII
        have kept := sound begun rfl
        by_cases here : begun.low ≤ b.val ∧ b.val ≤ begun.high
        · by_cases last : begun.lacks = 1
          · simp only [utf8Next, if_pos here, if_pos last] at ascii
            exact absurd (ascii _ List.mem_cons_self) (not_lt.mpr (kept.last here last))
          · simp only [utf8Next, if_pos here, if_neg last] at ascii
            have later := ih (by simpa using kept.next here last) others ascii
            cases later.1
        · rw [utf8Next, if_neg here] at ascii
          exact absurd (ascii _ List.mem_cons_self) replaced

theorem tokens_points (s : Str) : ∀ c, .point c ∈ tokens s → ¬ c.val < 0x80 := by
  have of (c d : CodePoint) (same : Token.point c = Token.of d) : ¬ c.val < 0x80 := by
    unfold Token.of at same
    split at same
    · cases same
    · rename_i high
      cases same
      exact high
  intro c
  induction s using tokens.induct with
  | case1 => simp [tokens]
  | case2 d =>
    intro member
    exact of c d (by simpa [tokens] using member)
  | case3 d next =>
    intro member
    simp only [tokens, List.mem_cons, List.not_mem_nil, or_false] at member
    rcases member with here | here
    · exact of c d here
    · exact of c next here
  | case4 d high low rest b escapes ih =>
    intro member
    simp only [tokens, escapes, List.mem_cons, reduceCtorEq, false_or] at member
    exact ih member
  | case5 d high low rest plain ih =>
    intro member
    simp only [tokens, plain, List.mem_cons] at member
    rcases member with here | later
    · exact of c d here
    · exact ih later

theorem tokens_of_unquote {s t : Str} (ascii : ∀ c ∈ t, c.val < 0x80) (unquotes : unquote s = t) :
    tokens s = t.map Token.of := by
  subst unquotes
  exact (decodeTokens_ascii (by simp) (tokens_points s) ascii).2

end Decoding

section Queries

theorem partitionAt_append {sep : CodePoint} {before : Str} (unmixed : sep ∉ before) (after : Str) :
    partitionAt sep (before ++ sep :: after) = (before, after) := by
  rw [partitionAt, takeWhile_separated unmixed, dropWhile_separated unmixed]
  rfl

theorem partitionAt_absent {sep : CodePoint} {s : Str} (absent : sep ∉ s) : (partitionAt sep s).1 = s := by
  rw [partitionAt, List.takeWhile_eq_self_iff]
  intro c member
  simpa using fun same : c = sep => absent (same ▸ member)

theorem partitionAt_fst (sep : CodePoint) (s : Str) : sep ∉ (partitionAt sep s).1 := by
  intro member
  have before := List.mem_takeWhile_imp member
  simp only [ne_eq, not_true_eq_false, decide_false, Bool.false_eq_true] at before

theorem partitionAt_snd {sep : CodePoint} {s : Str} (given : (partitionAt sep s).2 ≠ []) :
    s = (partitionAt sep s).1 ++ sep :: (partitionAt sep s).2 := by
  cases found : s.dropWhile fun c => c ≠ sep with
  | nil =>
    rw [partitionAt, found] at given
    exact absurd rfl given
  | cons c rest =>
    simp only [partitionAt, found, List.drop_one, List.tail_cons]
    exact separated_of_dropWhile found

theorem unquotePlus_plain {s : Str} (plain : ch '%' ∉ s) (spaceless : ch '+' ∉ s) : unquotePlus s = s := by
  have same : plusToSpace s = s := by
    conv_rhs => rw [← List.map_id s]
    apply List.map_congr_left
    intro c member
    have other : c ≠ ch '+' := fun same => spaceless (same ▸ member)
    simp [other]
  rw [unquotePlus, same, unquote_plain plain]

theorem parseQsl_intercalate {fields : List Str} (given : fields ≠ []) (unmixed : ∀ field ∈ fields, ch '&' ∉ field) :
    parseQsl ([ch '&'].intercalate fields) = (fields.filter fun field => field ≠ []).map parameter := by
  rw [parseQsl, List.splitOn_intercalate _ unmixed given]

theorem intercalate_append {sep : CodePoint} (earlier : List Str) (middle : Str) (later : List Str) :
    [sep].intercalate (earlier ++ middle :: later) =
      (earlier.flatMap fun field => field ++ [sep]) ++ middle ++ later.flatMap fun field => sep :: field := by
  induction earlier with
  | nil =>
    rw [List.nil_append, intercalate_cons, List.flatMap_nil, List.nil_append]
    rfl
  | cons first earlier ih =>
    rw [List.cons_append, List.intercalate_cons_of_ne_nil (by simp), ih]
    simp

theorem lastValue_parseQsl {name query value : Str} (reads : lastValue name (parseQsl query) = some value) :
    ∃ before field after, query.splitOn (ch '&') = before ++ field :: after ∧ parameter field = (name, value) ∧
      ∀ other ∈ after, other ≠ [] → (parameter other).1 ≠ name := by
  unfold lastValue parseQsl at reads
  obtain ⟨entry, found, rfl⟩ := Option.map_eq_some_iff.mp reads
  rw [← List.map_reverse, List.find?_map, ← List.filter_reverse, List.find?_filter] at found
  obtain ⟨field, last, rfl⟩ := Option.map_eq_some_iff.mp found
  obtain ⟨matched, later, earlier, split, before⟩ := List.find?_eq_some_iff_append.mp last
  have named : (parameter field).1 = name := by
    simp only [Function.comp, decide_eq_true_eq] at matched
    exact matched.2
  refine ⟨earlier.reverse, field, later.reverse, ?_, Prod.ext named rfl, ?_⟩
  · rw [← List.reverse_reverse (query.splitOn _), split]
    simp
  · intro other member given same
    have refused := before other (List.mem_reverse.mp member)
    simp [given, same] at refused

theorem lastValue_append {name value : Str} {before after : List (Str × Str)} (last : ∀ entry ∈ after, entry.1 ≠ name) :
    lastValue name (before ++ (name, value) :: after) = some value := by
  have later : after.reverse.find? (fun entry => entry.1 = name) = none := by simpa using last
  unfold lastValue
  rw [List.reverse_append, List.reverse_cons, List.append_assoc, List.find?_append, later]
  simp

end Queries

end Foundation
