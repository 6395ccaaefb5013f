import Ripcord.Foundation.Utf8

namespace Foundation

/-! Reading the bytes of a text whose encoding they tell themselves, as `json.loads` does. A surrogate passes;
anything else that its encoding does not allow makes the whole text unreadable. -/

def takeTails : Nat → Nat → List Byte → Option (Nat × List Byte)
  | value, 0, rest => some (value, rest)
  | _, _ + 1, [] => none
  | value, lacks + 1, b :: rest =>
    if 0x80 ≤ b.val ∧ b.val < 0xC0 then takeTails (value * 64 + (b.val - 0x80)) lacks rest else none

/-- What a first byte adds to the value, how many bytes follow it, and the least code point of that length. -/
def utf8Lead (b : Byte) : Option (Nat × Nat × Nat) :=
  if b.val < 0x80 then some (b.val, 0, 0)
  else if b.val < 0xC0 then none
  else if b.val < 0xE0 then some (b.val - 0xC0, 1, 0x80)
  else if b.val < 0xF0 then some (b.val - 0xE0, 2, 0x800)
  else if b.val < 0xF8 then some (b.val - 0xF0, 3, 0x10000)
  else none

def takeUtf8 : List Byte → Option (CodePoint × List Byte)
  | [] => none
  | b :: rest =>
    (utf8Lead b).bind fun (value, lacks, least) =>
      (takeTails value lacks rest).bind fun (n, after) =>
        if least ≤ n ∧ n < 0x110000 then some (Fin.ofNat 0x110000 n, after) else none

def unit16 (bigEndian : Bool) (a b : Byte) : Nat := if bigEndian then a.val * 256 + b.val else b.val * 256 + a.val

def takeUtf16 (bigEndian : Bool) : List Byte → Option (CodePoint × List Byte)
  | a :: b :: rest =>
    let unit := unit16 bigEndian a b
    match rest with
    | c :: d :: after =>
      let low := unit16 bigEndian c d
      if (0xD800 ≤ unit ∧ unit ≤ 0xDBFF) ∧ 0xDC00 ≤ low ∧ low ≤ 0xDFFF then
        some (Fin.ofNat 0x110000 (0x10000 + (unit - 0xD800) * 1024 + (low - 0xDC00)), after)
      else some (Fin.ofNat 0x110000 unit, rest)
    | _ => some (Fin.ofNat 0x110000 unit, rest)
  | _ => none

def takeUtf32 (bigEndian : Bool) : List Byte → Option (CodePoint × List Byte)
  | a :: b :: c :: d :: rest =>
    let n := if bigEndian then unit16 true a b * 65536 + unit16 true c d
      else unit16 false c d * 65536 + unit16 false a b
    if n < 0x110000 then some (Fin.ofNat 0x110000 n, rest) else none
  | _ => none

/-- One code point after the other; as much fuel as there are bytes is enough. -/
def decodeWith (take : List Byte → Option (CodePoint × List Byte)) : Nat → List Byte → Option Str
  | _, [] => some []
  | 0, _ :: _ => none
  | fuel + 1, b :: rest =>
    (take (b :: rest)).bind fun (c, after) => (decodeWith take fuel after).map fun later => c :: later

inductive Encoding
  | utf8
  | utf16 (bigEndian : Bool)
  | utf32 (bigEndian : Bool)
  deriving DecidableEq

def Encoding.decode (encoding : Encoding) (bytes : List Byte) : Option Str :=
  match encoding with
  | .utf8 => decodeWith takeUtf8 bytes.length bytes
  | .utf16 bigEndian => decodeWith (takeUtf16 bigEndian) bytes.length bytes
  | .utf32 bigEndian => decodeWith (takeUtf32 bigEndian) bytes.length bytes

/-- `json.detect_encoding` of a text without a byte order mark: by where the zeros of its first two characters
    stand. -/
def unmarkedEncoding : List Byte → Encoding
  | a :: b :: c :: d :: _ =>
    if a = 0 then (if b = 0 then .utf32 true else .utf16 true)
    else if b = 0 then (if c = 0 ∧ d = 0 then .utf32 false else .utf16 false)
    else .utf8
  | [a, b] => if a = 0 then .utf16 true else if b = 0 then .utf16 false else .utf8
  | _ => .utf8

def byteOrderMarks : List (List Byte × Encoding) :=
  [([0, 0, 0xFE, 0xFF], .utf32 true), ([0xFF, 0xFE, 0, 0], .utf32 false), ([0xFE, 0xFF], .utf16 true),
    ([0xFF, 0xFE], .utf16 false), ([0xEF, 0xBB, 0xBF], .utf8)]

def detectEncoding (bytes : List Byte) : Encoding × List Byte :=
  match byteOrderMarks.find? fun mark => mark.1.isPrefixOf bytes with
  | some (mark, encoding) => (encoding, bytes.drop mark.length)
  | none => (unmarkedEncoding bytes, bytes)

/-- `content.decode(detect_encoding(content), "surrogatepass")`. -/
def decodeText (content : List Byte) : Option Str := (detectEncoding content).1.decode (detectEncoding content).2

section RoundTrip

variable {take : List Byte → Option (CodePoint × List Byte)} {code : CodePoint → List Byte}

theorem byte_val {n : Nat} (small : n < 256) : (Fin.ofNat 256 n).val = n := by
  rw [Fin.val_ofNat, Nat.mod_eq_of_lt small]

theorem takeTails_digit (digit value lacks : Nat) (rest : List Byte) (small : digit < 64) :
    takeTails value (lacks + 1) (Fin.ofNat 256 (0x80 + digit) :: rest) = takeTails (value * 64 + digit) lacks rest := by
  have byte : (Fin.ofNat 256 (0x80 + digit)).val = 0x80 + digit := byte_val (by omega)
  rw [takeTails, byte, if_pos (by omega), Nat.add_sub_cancel_left]

theorem takeUtf8_of_tails {b : Byte} {value lacks least n : Nat} {rest after : List Byte} {c : CodePoint}
    (lead : utf8Lead b = some (value, lacks, least)) (tails : takeTails value lacks rest = some (n, after))
    (long : least ≤ n) (same : n = c.val) : takeUtf8 (b :: rest) = some (c, after) := by
  have point : Fin.ofNat 0x110000 n = c := by
    apply Fin.ext
    rw [Fin.val_ofNat, same, Nat.mod_eq_of_lt c.isLt]
  have bound : n < 0x110000 := same ▸ c.isLt
  simp only [takeUtf8, lead, tails, Option.bind_some, if_pos (And.intro long bound), point]

theorem takeUtf8_utf8Point (c : CodePoint) (rest : List Byte) : takeUtf8 (utf8Point c ++ rest) = some (c, rest) := by
  have bound := c.isLt
  unfold utf8Point
  simp only
  split_ifs with one two three
  · have byte : (Fin.ofNat 256 c.val).val = c.val := byte_val (by omega)
    exact takeUtf8_of_tails (by rw [utf8Lead, byte, if_pos one]) rfl (Nat.zero_le _) rfl
  · have byte : (Fin.ofNat 256 (0xC0 + c.val / 64)).val = 0xC0 + c.val / 64 := byte_val (by omega)
    have lead : utf8Lead (Fin.ofNat 256 (0xC0 + c.val / 64)) = some (c.val / 64, 1, 0x80) := by
      rw [utf8Lead, byte, if_neg (by omega), if_neg (by omega), if_pos (by omega), Nat.add_sub_cancel_left]
    exact takeUtf8_of_tails lead (takeTails_digit (c.val % 64) _ 0 rest (by omega)) (by omega) (by omega)
  · have byte : (Fin.ofNat 256 (0xE0 + c.val / 4096)).val = 0xE0 + c.val / 4096 := byte_val (by omega)
    have lead : utf8Lead (Fin.ofNat 256 (0xE0 + c.val / 4096)) = some (c.val / 4096, 2, 0x800) := by
      rw [utf8Lead, byte, if_neg (by omega), if_neg (by omega), if_neg (by omega), if_pos (by omega),
        Nat.add_sub_cancel_left]
    have tails := (takeTails_digit (c.val / 64 % 64) (c.val / 4096) 1 _ (by omega)).trans
      (takeTails_digit (c.val % 64) _ 0 rest (by omega))
    exact takeUtf8_of_tails lead tails (by omega) (by omega)
  · have byte : (Fin.ofNat 256 (0xF0 + c.val / 262144)).val = 0xF0 + c.val / 262144 := byte_val (by omega)
    have lead : utf8Lead (Fin.ofNat 256 (0xF0 + c.val / 262144)) = some (c.val / 262144, 3, 0x10000) := by
      rw [utf8Lead, byte, if_neg (by omega), if_neg (by omega), if_neg (by omega), if_neg (by omega),
        if_pos (by omega), Nat.add_sub_cancel_left]
    have tails := ((takeTails_digit (c.val / 4096 % 64) (c.val / 262144) 2 _ (by omega)).trans
      (takeTails_digit (c.val / 64 % 64) _ 1 _ (by omega))).trans
      (takeTails_digit (c.val % 64) _ 0 rest (by omega))
    exact takeUtf8_of_tails lead tails (by omega) (by omega)

theorem decodeWith_flatMap (takes : ∀ c rest, take (code c ++ rest) = some (c, rest))
    (nonempty : ∀ c, code c ≠ []) {s : Str} {fuel : Nat} (enough : (s.flatMap code).length ≤ fuel) :
    decodeWith take fuel (s.flatMap code) = some s := by
  induction s generalizing fuel with
  | nil => cases fuel <;> rfl
  | cons c s ih =>
    obtain ⟨b, tail, coded⟩ := List.exists_cons_of_ne_nil (nonempty c)
    rw [List.flatMap_cons, coded, List.cons_append] at enough ⊢
    obtain ⟨fuel, rfl⟩ := Nat.exists_eq_succ_of_ne_zero (show fuel ≠ 0 by simp at enough; omega)
    have taken := takes c (s.flatMap code)
    rw [coded, List.cons_append] at taken
    have fewer : (s.flatMap code).length ≤ fuel := by
      simp only [List.length_cons, List.length_append] at enough
      omega
    simp only [decodeWith, taken, Option.bind_some, ih fewer, Option.map_some]

theorem detectEncoding_ascii {x y : Byte} (first : 0 < x.val ∧ x.val < 0x80) (second : 0 < y.val)
    (rest : List Byte) : detectEncoding (x :: y :: rest) = (.utf8, x :: y :: rest) := by
  have unmarked : (byteOrderMarks.find? fun mark => mark.1.isPrefixOf (x :: y :: rest)) = none := by
    have apart : ∀ b : Byte, b.val = 0 ∨ 0x80 ≤ b.val → ¬ b = x := by
      rintro b outside rfl
      omega
    rw [List.find?_eq_none]
    simp only [byteOrderMarks, List.forall_mem_cons, List.not_mem_nil, false_imp_iff, implies_true, and_true,
      List.isPrefixOf_iff_prefix, List.cons_prefix_cons, not_and]
    exact ⟨fun same => absurd same (apart 0 (.inl rfl)), fun same => absurd same (apart 0xFF (.inr (by decide))),
      fun same => absurd same (apart 0xFE (.inr (by decide))), fun same => absurd same (apart 0xFF (.inr (by decide))),
      fun same => absurd same (apart 0xEF (.inr (by decide)))⟩
  have nonzero : x ≠ 0 ∧ y ≠ 0 := by
    constructor <;> rintro rfl
    · exact absurd first.1 (by decide)
    · exact absurd second (by decide)
  have plain : unmarkedEncoding (x :: y :: rest) = .utf8 := by
    rcases rest with _ | ⟨z, _ | ⟨w, rest⟩⟩ <;> simp only [unmarkedEncoding, if_neg nonzero.1, if_neg nonzero.2]
  rw [detectEncoding, unmarked]
  exact congrArg (·, x :: y :: rest) plain

theorem utf8Point_ascii {c : CodePoint} (ascii : c.val < 0x80) : utf8Point c = [Fin.ofNat 256 c.val] := if_pos ascii

/-- A text that begins with two ASCII characters is taken for the UTF-8 that it was encoded as. -/
theorem decodeText_encode {a b : CodePoint} {s : Str} {bytes : List Byte} (first : 0 < a.val ∧ a.val < 0x80)
    (second : 0 < b.val ∧ b.val < 0x80) (encodes : encode (a :: b :: s) = some bytes) :
    decodeText bytes = some (a :: b :: s) := by
  have coded := (encode_eq_some.mp encodes).2
  have byteA : (Fin.ofNat 256 a.val).val = a.val := byte_val (by omega)
  have byteB : (Fin.ofNat 256 b.val).val = b.val := byte_val (by omega)
  have starts : bytes = Fin.ofNat 256 a.val :: Fin.ofNat 256 b.val :: s.flatMap utf8Point := by
    rw [← coded, List.flatMap_cons, List.flatMap_cons, utf8Point_ascii first.2, utf8Point_ascii second.2]
    rfl
  have detected : detectEncoding bytes = (.utf8, bytes) := by
    rw [starts]
    exact detectEncoding_ascii (by omega) (by omega) _
  rw [decodeText, detected, ← coded]
  exact decodeWith_flatMap takeUtf8_utf8Point utf8Point_ne_nil le_rfl

end RoundTrip

end Foundation
