import Mathlib.Data.List.Basic
import Mathlib.Data.Fin.Basic

namespace Foundation

/-- A Unicode code point. Surrogates are included, as they are in a Python `str`. -/
abbrev CodePoint := Fin 0x110000

abbrev Str := List CodePoint

abbrev Byte := Fin 256

instance neZero_codePoints : @NeZero Nat Zero.ofOfNat0 0x110000 := ⟨by decide⟩

instance neZero_bytes : @NeZero Nat Zero.ofOfNat0 256 := ⟨by decide⟩

instance : LawfulBEq Str := inferInstance

def ch (c : Char) : CodePoint := Fin.ofNat 0x110000 c.toNat

def str (s : String) : Str := s.toList.map ch

theorem char_toNat_lt (c : Char) : c.toNat < 0x110000 := by
  have valid := c.valid
  simp only [UInt32.isValidChar, Nat.isValidChar] at valid
  change c.val.toNat < 0x110000
  omega

theorem ch_injective : Function.Injective ch := by
  intro a b same
  have ha := char_toNat_lt a
  have hb := char_toNat_lt b
  have values := congrArg Fin.val same
  simp only [ch, Fin.val_ofNat, Nat.mod_eq_of_lt ha, Nat.mod_eq_of_lt hb] at values
  exact Char.toNat_inj.mp values

@[simp] theorem ch_inj (a b : Char) : ch a = ch b ↔ a = b := ch_injective.eq_iff

@[simp] theorem str_inj (a b : String) : str a = str b ↔ a = b := by
  simp [str, (List.map_injective_iff.mpr ch_injective).eq_iff, String.toList_inj]

def join (sep : Str) : List Str → Str
  | [] => []
  | [part] => part
  | part :: next :: rest => part ++ sep ++ join sep (next :: rest)

@[simp] theorem join_nil (sep : Str) : join sep [] = [] := rfl

@[simp] theorem join_singleton (sep part : Str) : join sep [part] = part := rfl

@[simp] theorem join_cons_cons (sep part next : Str) (rest : List Str) :
    join sep (part :: next :: rest) = part ++ sep ++ join sep (next :: rest) := rfl

def IsSurrogate (c : CodePoint) : Prop := 0xD800 ≤ c.val ∧ c.val ≤ 0xDFFF

instance : DecidablePred IsSurrogate := fun c =>
  inferInstanceAs (Decidable (0xD800 ≤ c.val ∧ c.val ≤ 0xDFFF))

/-- A string of Unicode scalar values: what UTF-8 can carry. -/
def IsUnicode (s : Str) : Prop := ∀ c ∈ s, ¬ IsSurrogate c

instance : DecidablePred IsUnicode := fun s => List.decidableBAll (fun c => ¬ IsSurrogate c) s

theorem IsUnicode.append {s t : Str} (hs : IsUnicode s) (ht : IsUnicode t) : IsUnicode (s ++ t) := by
  intro c member
  rcases List.mem_append.mp member with member | member
  · exact hs c member
  · exact ht c member

def utf8Point (c : CodePoint) : List Byte :=
  let n := c.val
  if n < 0x80 then [Fin.ofNat 256 n]
  else if n < 0x800 then [Fin.ofNat 256 (0xC0 + n / 64), Fin.ofNat 256 (0x80 + n % 64)]
  else if n < 0x10000 then
    [Fin.ofNat 256 (0xE0 + n / 4096), Fin.ofNat 256 (0x80 + n / 64 % 64), Fin.ofNat 256 (0x80 + n % 64)]
  else
    [Fin.ofNat 256 (0xF0 + n / 262144), Fin.ofNat 256 (0x80 + n / 4096 % 64),
      Fin.ofNat 256 (0x80 + n / 64 % 64), Fin.ofNat 256 (0x80 + n % 64)]

/-- `str.encode()`: UTF-8, refused at the first surrogate. -/
def encode (s : Str) : Option (List Byte) :=
  if IsUnicode s then some (s.flatMap utf8Point) else none

theorem encode_isSome (s : Str) : (encode s).isSome ↔ IsUnicode s := by
  unfold encode
  split <;> simp_all

end Foundation
