import Ripcord.Foundation.Urls
import Ripcord.Foundation.Utf8

namespace Foundation

def upperHex (n : Nat) : CodePoint := Fin.ofNat 0x110000 (if n < 10 then 48 + n else 55 + n)

def percentByte (b : Byte) : Str := [ch '%', upperHex (b.val / 16), upperHex (b.val % 16)]

def percentPoint (kept : CodePoint → Bool) (c : CodePoint) : Str :=
  if kept c then [c] else (utf8Point c).flatMap percentByte

def percentEncode (kept : CodePoint → Bool) (s : Str) : Str := s.flatMap (percentPoint kept)

/-- What is kept is ASCII and stands for itself when a query is read. -/
structure Literal (kept : CodePoint → Bool) : Prop where
  ascii : ∀ c, kept c → c.val < 0x80
  percent : kept (ch '%') = false
  plus : kept (ch '+') = false

theorem Literal.and {kept : CodePoint → Bool} (literal : Literal kept) (outer : CodePoint → Bool) :
    Literal fun c => kept c && outer c where
  ascii c keeps := literal.ascii c (Bool.and_eq_true_iff.mp keeps).1
  percent := by rw [literal.percent, Bool.false_and]
  plus := by rw [literal.plus, Bool.false_and]

section Utf8

theorem decodeTokens_more {value lacks low high digit : Nat} (small : digit < 64)
    (here : low ≤ 0x80 + digit ∧ 0x80 + digit ≤ high) (rest : List Token) :
    decodeTokens (some ⟨value, lacks + 2, low, high⟩) (.byte (Fin.ofNat 256 (0x80 + digit)) :: rest) =
      decodeTokens (some ⟨value * 64 + digit, lacks + 1, 0x80, 0xBF⟩) rest := by
  have byte : (Fin.ofNat 256 (0x80 + digit)).val = 0x80 + digit := by
    rw [Fin.val_ofNat]
    omega
  have next : utf8Next (some ⟨value, lacks + 2, low, high⟩) (Fin.ofNat 256 (0x80 + digit)) =
      ([], some ⟨value * 64 + digit, lacks + 1, 0x80, 0xBF⟩) := by
    simp only [utf8Next, byte, if_pos here]
    rw [if_neg (by omega), Nat.add_sub_cancel_left]
    rfl
  rw [decodeTokens, next]
  rfl

theorem decodeTokens_last {value low high digit : Nat} (small : digit < 64)
    (here : low ≤ 0x80 + digit ∧ 0x80 + digit ≤ high) (rest : List Token) :
    decodeTokens (some ⟨value, 1, low, high⟩) (.byte (Fin.ofNat 256 (0x80 + digit)) :: rest) =
      Fin.ofNat 0x110000 (value * 64 + digit) :: decodeTokens none rest := by
  have byte : (Fin.ofNat 256 (0x80 + digit)).val = 0x80 + digit := by
    rw [Fin.val_ofNat]
    omega
  have next : utf8Next (some ⟨value, 1, low, high⟩) (Fin.ofNat 256 (0x80 + digit)) =
      ([Fin.ofNat 0x110000 (value * 64 + digit)], none) := by
    simp only [utf8Next, byte, if_pos here, if_true, Nat.add_sub_cancel_left]
  rw [decodeTokens, next]
  rfl

theorem decodeTokens_start {b : Byte} {begun : Begun} (starts : utf8Start b = ([], some begun)) (rest : List Token) :
    decodeTokens none (.byte b :: rest) = decodeTokens (some begun) rest := by
  rw [decodeTokens, utf8Next, starts]
  rfl

theorem codePoint_ofNat {c : CodePoint} {n : Nat} (same : n = c.val) : Fin.ofNat 0x110000 n = c := by
  apply Fin.ext
  rw [Fin.val_ofNat, same, Nat.mod_eq_of_lt c.isLt]

theorem decodeTokens_utf8Point {c : CodePoint} (scalar : ¬ IsSurrogate c) (rest : List Token) :
    decodeTokens none ((utf8Point c).map Token.byte ++ rest) = c :: decodeTokens none rest := by
  have bound := c.isLt
  have apart : ¬ (0xD800 ≤ c.val ∧ c.val ≤ 0xDFFF) := scalar
  unfold utf8Point
  simp only
  by_cases one : c.val < 0x80
  · have byte : (Fin.ofNat 256 c.val).val = c.val := by
      rw [Fin.val_ofNat]
      omega
    rw [if_pos one, List.map_singleton, List.singleton_append, decodeTokens, utf8Next_ascii (by omega),
      codePoint_ofNat byte]
    rfl
  by_cases two : c.val < 0x800
  · have lead : (Fin.ofNat 256 (0xC0 + c.val / 64)).val = 0xC0 + c.val / 64 := by
      rw [Fin.val_ofNat]
      omega
    have starts : utf8Start (Fin.ofNat 256 (0xC0 + c.val / 64)) = ([], some ⟨c.val / 64, 1, 0x80, 0xBF⟩) := by
      simp only [utf8Start, lead, Nat.add_sub_cancel_left]
      rw [if_neg (by omega), if_neg (by omega), if_pos (by omega)]
    have value : c.val / 64 * 64 + c.val % 64 = c.val := by omega
    simp only [if_neg one, if_pos two, List.map_cons, List.map_nil, List.cons_append, List.nil_append]
    rw [decodeTokens_start starts, decodeTokens_last (by omega) (by omega), codePoint_ofNat value]
  by_cases three : c.val < 0x10000
  · have lead : (Fin.ofNat 256 (0xE0 + c.val / 4096)).val = 0xE0 + c.val / 4096 := by
      rw [Fin.val_ofNat]
      omega
    have starts : utf8Start (Fin.ofNat 256 (0xE0 + c.val / 4096)) = ([], some ⟨c.val / 4096, 2,
        if 0xE0 + c.val / 4096 = 0xE0 then 0xA0 else 0x80, if 0xE0 + c.val / 4096 = 0xED then 0x9F else 0xBF⟩) := by
      simp only [utf8Start, lead, Nat.add_sub_cancel_left]
      rw [if_neg (by omega), if_neg (by omega), if_neg (by omega), if_pos (by omega)]
    have second : (if 0xE0 + c.val / 4096 = 0xE0 then 0xA0 else 0x80) ≤ 0x80 + c.val / 64 % 64 ∧
        0x80 + c.val / 64 % 64 ≤ if 0xE0 + c.val / 4096 = 0xED then 0x9F else 0xBF := by
      -- no overlong sequence begins the plane, and the surrogates are left out of it
      constructor <;> split <;> omega
    have value : (c.val / 4096 * 64 + c.val / 64 % 64) * 64 + c.val % 64 = c.val := by omega
    simp only [if_neg one, if_neg two, if_pos three, List.map_cons, List.map_nil, List.cons_append, List.nil_append]
    rw [decodeTokens_start starts, decodeTokens_more (by omega) second, decodeTokens_last (by omega) (by omega),
      codePoint_ofNat value]
  · have lead : (Fin.ofNat 256 (0xF0 + c.val / 262144)).val = 0xF0 + c.val / 262144 := by
      rw [Fin.val_ofNat]
      omega
    have starts : utf8Start (Fin.ofNat 256 (0xF0 + c.val / 262144)) = ([], some ⟨c.val / 262144, 3,
        if 0xF0 + c.val / 262144 = 0xF0 then 0x90 else 0x80,
        if 0xF0 + c.val / 262144 = 0xF4 then 0x8F else 0xBF⟩) := by
      simp only [utf8Start, lead, Nat.add_sub_cancel_left]
      rw [if_neg (by omega), if_neg (by omega), if_neg (by omega), if_neg (by omega), if_pos (by omega)]
    have second : (if 0xF0 + c.val / 262144 = 0xF0 then 0x90 else 0x80) ≤ 0x80 + c.val / 4096 % 64 ∧
        0x80 + c.val / 4096 % 64 ≤ if 0xF0 + c.val / 262144 = 0xF4 then 0x8F else 0xBF := by
      constructor <;> split <;> omega
    have value : ((c.val / 262144 * 64 + c.val / 4096 % 64) * 64 + c.val / 64 % 64) * 64 + c.val % 64 = c.val := by
      omega
    simp only [if_neg one, if_neg two, if_neg three, List.map_cons, List.map_nil, List.cons_append, List.nil_append]
    rw [decodeTokens_start starts, decodeTokens_more (by omega) second, decodeTokens_more (by omega) (by omega),
      decodeTokens_last (by omega) (by omega), codePoint_ofNat (by omega)]

theorem decodeTokens_encoded {s : Str} (unicode : IsUnicode s) :
    decodeTokens none ((s.flatMap utf8Point).map Token.byte) = s := by
  induction s with
  | nil => rfl
  | cons c rest ih =>
    rw [List.flatMap_cons, List.map_append, decodeTokens_utf8Point (unicode c List.mem_cons_self),
      ih fun d member => unicode d (List.mem_cons_of_mem _ member)]

end Utf8

section Escapes

variable {kept : CodePoint → Bool} {s : Str}

theorem upperHex_val {n : Nat} (digit : n < 16) : (upperHex n).val = if n < 10 then 48 + n else 55 + n := by
  rw [upperHex, Fin.val_ofNat]
  split <;> omega

theorem hexDigit_upperHex {n : Nat} (digit : n < 16) : hexDigit (upperHex n) = some n := by
  unfold hexDigit
  rw [upperHex_val digit]
  by_cases decimal : n < 10
  · rw [if_pos decimal, if_pos (by omega), Nat.add_sub_cancel_left]
  · rw [if_neg decimal, if_neg (by omega), if_pos (by omega), Nat.add_sub_cancel_left]

theorem tokens_percentByte (b : Byte) (rest : Str) : tokens (percentByte b ++ rest) = .byte b :: tokens rest := by
  have bound := b.isLt
  have value : 16 * (b.val / 16) + b.val % 16 = b.val := by omega
  have escapes : escape (ch '%') (upperHex (b.val / 16)) (upperHex (b.val % 16)) = some b := by
    rw [escape, if_pos rfl, hexDigit_upperHex (by omega), hexDigit_upperHex (by omega), Option.bind_some,
      Option.map_some, value, Fin.ofNat_eq_cast, Fin.cast_val_eq_self]
  simp only [percentByte, List.cons_append, List.nil_append, tokens, escapes]

theorem tokens_percentBytes (bytes : List Byte) (rest : Str) :
    tokens (bytes.flatMap percentByte ++ rest) = bytes.map Token.byte ++ tokens rest := by
  induction bytes with
  | nil => rfl
  | cons b bytes ih =>
    rw [List.flatMap_cons, List.append_assoc, tokens_percentByte, ih, List.map_cons, List.cons_append]

theorem tokens_percentEncode (literal : Literal kept) (s : Str) :
    tokens (percentEncode kept s) = (s.flatMap utf8Point).map Token.byte := by
  induction s with
  | nil => rfl
  | cons c rest ih =>
    rw [percentEncode, List.flatMap_cons, ← percentEncode, List.flatMap_cons, List.map_append, ← ih, percentPoint]
    by_cases keeps : kept c
    · have ascii := literal.ascii c keeps
      have plain : c ≠ ch '%' := by
        rintro rfl
        rw [literal.percent] at keeps
        cases keeps
      rw [if_pos keeps, List.singleton_append, tokens_cons_plain plain, Token.of, if_pos ascii, utf8Point]
      simp only [if_pos ascii, List.map_cons, List.map_nil, List.cons_append, List.nil_append]
    · rw [if_neg keeps, tokens_percentBytes]

theorem mem_percentEncode {c : CodePoint} (member : c ∈ percentEncode kept s) :
    kept c ∨ c = ch '%' ∨ ∃ n < 16, c = upperHex n := by
  obtain ⟨d, _, member⟩ := List.mem_flatMap.mp member
  unfold percentPoint at member
  split at member
  · rename_i keeps
    rw [List.mem_singleton.mp member]
    exact .inl keeps
  · obtain ⟨b, _, member⟩ := List.mem_flatMap.mp member
    have bound := b.isLt
    simp only [percentByte, List.mem_cons, List.not_mem_nil, or_false] at member
    rcases member with rfl | rfl | rfl
    · exact .inr (.inl rfl)
    · exact .inr (.inr ⟨_, by omega, rfl⟩)
    · exact .inr (.inr ⟨_, by omega, rfl⟩)

/-- Escapes are made of `%`, digits and capital letters only. -/
theorem forall_percentEncode {P : CodePoint → Prop} (keeps : ∀ c, kept c → P c) (percent : P (ch '%'))
    (digits : ∀ n < 16, P (upperHex n)) : ∀ c ∈ percentEncode kept s, P c := by
  intro c member
  rcases mem_percentEncode member with here | rfl | ⟨n, digit, rfl⟩
  · exact keeps c here
  · exact percent
  · exact digits n digit

theorem percentEncode_ne_nil (given : s ≠ []) : percentEncode kept s ≠ [] := by
  cases s with
  | nil => exact absurd rfl given
  | cons c rest =>
    intro nothing
    rw [percentEncode, List.flatMap_cons] at nothing
    have first := (List.append_eq_nil_iff.mp nothing).1
    unfold percentPoint at first
    split at first
    · cases first
    · obtain ⟨b, bytes, long⟩ := List.exists_cons_of_ne_nil (utf8Point_ne_nil c)
      rw [long] at first
      cases first

/-- Read back as a query's value, what was escaped is what it was. -/
theorem unquotePlus_percentEncode (literal : Literal kept) (unicode : IsUnicode s) :
    unquotePlus (percentEncode kept s) = s := by
  have spaceless : plusToSpace (percentEncode kept s) = percentEncode kept s := by
    have plain : ∀ c ∈ percentEncode kept s, c ≠ ch '+' := by
      apply forall_percentEncode
      · rintro _ keeps rfl
        rw [literal.plus] at keeps
        cases keeps
      · decide
      · decide
    conv_rhs => rw [← List.map_id (percentEncode kept s)]
    apply List.map_congr_left
    intro c member
    simp [plain c member]
  rw [unquotePlus, spaceless, unquote, tokens_percentEncode literal, decodeTokens_encoded unicode]

theorem percentEncode_percentEncode {outer : CodePoint → Bool} (percent : outer (ch '%'))
    (digits : ∀ n < 16, outer (upperHex n)) (s : Str) :
    percentEncode outer (percentEncode kept s) = percentEncode (fun c => kept c && outer c) s := by
  have escaped (bytes : List Byte) : percentEncode outer (bytes.flatMap percentByte) = bytes.flatMap percentByte := by
    induction bytes with
    | nil => rfl
    | cons b bytes ih =>
      have bound := b.isLt
      have first : percentEncode outer (percentByte b) = percentByte b := by
        simp [percentEncode, percentByte, percentPoint, percent, digits (b.val / 16) (by omega),
          digits (b.val % 16) (by omega)]
      rw [List.flatMap_cons, percentEncode, List.flatMap_append, ← percentEncode, ← percentEncode, first, ih]
  induction s with
  | nil => rfl
  | cons c rest ih =>
    have tail := ih
    unfold percentEncode at tail ⊢
    rw [List.flatMap_cons, List.flatMap_append, tail, List.flatMap_cons]
    congr 1
    by_cases keeps : kept c
    · by_cases passes : outer c
      · simp [percentPoint, keeps, passes]
      · simp [percentPoint, keeps, passes]
    · have same := escaped (utf8Point c)
      unfold percentEncode at same
      simp only [percentPoint, keeps, Bool.false_eq_true, if_false, Bool.false_and]
      exact same

end Escapes

end Foundation
