import Ripcord.Foundation.Json
import Mathlib.Tactic.IntervalCases

namespace Foundation.Json

/-- What may follow a value inside a printed text. -/
def Ends (text : Str) : Prop := ∀ c ∈ text.head?, c = ch ',' ∨ c = ch ']' ∨ c = ch '\x7d'

theorem Ends.nil : Ends [] := by simp [Ends]

theorem Ends.comma (text : Str) : Ends (ch ',' :: text) := by simp [Ends]

theorem Ends.bracket (text : Str) : Ends (ch ']' :: text) := by simp [Ends]

theorem Ends.brace (text : Str) : Ends (ch '\x7d' :: text) := by simp [Ends]

section Numbers

theorem digitValue_digit {d : Nat} (bound : d < 10) : digitValue (digit d) = some d := by
  interval_cases d <;> rfl

theorem digitValue_ch {c : Char} (outside : c.toNat < 0x30 ∨ 0x39 < c.toNat) : digitValue (ch c) = none := by
  have value : (ch c).val = c.toNat := Nat.mod_eq_of_lt (char_toNat_lt c)
  rw [digitValue, value, if_neg (by omega)]

theorem digits_bound (fuel n : Nat) : ∀ d ∈ digits fuel n, d < 10 := by
  induction fuel generalizing n with
  | zero => simp [digits]
  | succ fuel ih =>
    intro d member
    simp only [digits] at member
    split at member
    · simp at member
      omega
    · rcases List.mem_append.mp member with member | member
      · exact ih _ d member
      · simp at member
        omega

theorem decimal_append (ds : List Nat) (d : Nat) : decimal (ds ++ [d]) = 10 * decimal ds + d := by
  simp [decimal]

theorem decimal_digits {fuel n : Nat} (enough : n < fuel) : decimal (digits fuel n) = n := by
  induction fuel generalizing n with
  | zero => omega
  | succ fuel ih =>
    simp only [digits]
    split
    · simp [decimal]
    · rw [decimal_append, ih (by omega)]
      omega

theorem digits_ne_nil {fuel : Nat} (n : Nat) (enough : 0 < fuel) : digits fuel n ≠ [] := by
  obtain ⟨fuel, rfl⟩ := Nat.exists_eq_succ_of_ne_zero enough.ne'
  simp only [digits]
  split <;> simp

theorem digits_head {fuel n : Nat} (enough : n < fuel) (leading : (digits fuel n).head? = some 0) :
    (digits fuel n).length = 1 := by
  induction fuel generalizing n with
  | zero => omega
  | succ fuel ih =>
    simp only [digits] at leading ⊢
    split at leading
    · simp_all
    · rename_i large
      exfalso
      have nonempty := digits_ne_nil (n / 10) (show 0 < fuel by omega)
      rw [List.head?_append_of_ne_nil _ nonempty] at leading
      have single := ih (show n / 10 < fuel by omega) leading
      obtain ⟨d, only⟩ := List.length_eq_one_iff.mp single
      have value := decimal_digits (show n / 10 < fuel by omega)
      rw [only] at leading value
      simp [decimal] at leading value
      omega

theorem spanDigits_map {ds : List Nat} (bound : ∀ d ∈ ds, d < 10) {rest : Str}
    (stops : ∀ c ∈ rest.head?, digitValue c = none) : spanDigits (ds.map digit ++ rest) = (ds, rest) := by
  induction ds with
  | nil =>
    cases rest with
    | nil => rfl
    | cons c rest => simp [spanDigits, stops c rfl]
  | cons d ds ih =>
    have head := digitValue_digit (bound d (by simp))
    have tail := ih fun d member => bound d (List.mem_cons_of_mem _ member)
    simp [spanDigits, head, tail]

theorem Ends.digitValue {rest : Str} (ends : Ends rest) : ∀ c ∈ rest.head?, digitValue c = none := by
  intro c member
  rcases ends c member with rfl | rfl | rfl <;> exact digitValue_ch (by decide)

theorem digit_ne_ch {d : Nat} (bound : d < 10) {c : Char} (outside : c.toNat < 0x30 ∨ 0x39 < c.toNat) :
    digit d ≠ ch c := by
  intro same
  have none := digitValue_ch outside
  rw [← same, digitValue_digit bound] at none
  cases none

theorem printNat_cons (n : Nat) : ∃ d rest, d < 10 ∧ printNat n = digit d :: rest := by
  have bound := digits_bound (n + 1) n
  unfold printNat
  cases listed : digits (n + 1) n with
  | nil => exact absurd listed (digits_ne_nil n (by omega))
  | cons d ds =>
    rw [listed] at bound
    exact ⟨d, ds.map digit, bound d (by simp), rfl⟩

theorem takeSign_printNat (n : Nat) (rest : Str) : takeSign (printNat n ++ rest) = (false, printNat n ++ rest) := by
  obtain ⟨d, tail, bound, printed⟩ := printNat_cons n
  simp [printed, takeSign, digit_ne_ch bound (c := '-') (by decide)]

theorem takeSign_printInt (n : Int) (rest : Str) :
    ∃ negative m, takeSign (printInt n ++ rest) = (negative, printNat m ++ rest) ∧ signed negative m = n := by
  cases n with
  | ofNat m => exact ⟨false, m, takeSign_printNat m rest, rfl⟩
  | negSucc m => exact ⟨true, m + 1, by simp [printInt, takeSign], rfl⟩

theorem exponentSign_printInt (n : Int) (rest : Str) :
    exponentSign (printInt n ++ rest) = takeSign (printInt n ++ rest) := by
  cases n with
  | ofNat m =>
    obtain ⟨d, tail, bound, printed⟩ := printNat_cons m
    simp [printInt, printed, exponentSign, digit_ne_ch bound (c := '+') (by decide)]
  | negSucc m => simp [printInt, exponentSign]

theorem spanDigits_printNat (n : Nat) (rest : Str) (stops : ∀ c ∈ rest.head?, digitValue c = none) :
    spanDigits (printNat n ++ rest) = (digits (n + 1) n, rest) :=
  spanDigits_map (digits_bound (n + 1) n) stops

theorem parseFraction_absent {rest : Str} (point : ∀ c ∈ rest.head?, c ≠ ch '.') :
    parseFraction rest = ([], rest) := by
  cases rest with
  | nil => rfl
  | cons c rest => simp [parseFraction, point c rfl]

theorem parseExponent_absent {rest : Str} (letter : ∀ c ∈ rest.head?, c ≠ ch 'e' ∧ c ≠ ch 'E') :
    parseExponent rest = (none, rest) := by
  cases rest with
  | nil => rfl
  | cons c rest => simp [parseExponent, letter c rfl]

theorem parseExponent_printInt (n : Int) {rest : Str} (ends : Ends rest) :
    parseExponent (ch 'e' :: (printInt n ++ rest)) = (some n, rest) := by
  obtain ⟨negative, m, taken, value⟩ := takeSign_printInt n rest
  have spanned := spanDigits_printNat m _ ends.digitValue
  have nonempty := digits_ne_nil m (Nat.succ_pos m)
  simp only [parseExponent, exponentSign_printInt, taken, spanned, true_or, true_and, if_pos nonempty]
  rw [decimal_digits (Nat.lt_succ_self m), value]

theorem digits_allowed (m : Nat) : ¬ (digits (m + 1) m = [] ∨
    ((digits (m + 1) m).head? = some 0 ∧ (digits (m + 1) m).length ≠ 1)) := by
  intro refused
  rcases refused with empty | ⟨leading, long⟩
  · exact digits_ne_nil m (Nat.succ_pos m) empty
  · exact long (digits_head (Nat.lt_succ_self m) leading)

theorem parseNumber_int (n : Int) {rest : Str} (ends : Ends rest) :
    parseNumber (printInt n ++ rest) = some (.int n, rest) := by
  obtain ⟨negative, m, taken, value⟩ := takeSign_printInt n rest
  have spanned := spanDigits_printNat m _ ends.digitValue
  have fraction : parseFraction rest = ([], rest) :=
    parseFraction_absent fun c member => by rcases ends c member with rfl | rfl | rfl <;> decide
  have exponent : parseExponent rest = (none, rest) :=
    parseExponent_absent fun c member => by rcases ends c member with rfl | rfl | rfl <;> decide
  simp only [parseNumber, taken, spanned, if_neg (digits_allowed m), fraction, exponent, if_true]
  rw [decimal_digits (Nat.lt_succ_self m), value]

theorem parseNumber_float (mantissa exponent : Int) {rest : Str} (ends : Ends rest) :
    parseNumber (printInt mantissa ++ ch 'e' :: (printInt exponent ++ rest)) =
      some (.float mantissa exponent, rest) := by
  obtain ⟨negative, m, taken, value⟩ :=
    takeSign_printInt mantissa (ch 'e' :: (printInt exponent ++ rest))
  have spanned := spanDigits_printNat m (ch 'e' :: (printInt exponent ++ rest))
    (by simpa using digitValue_ch (c := 'e') (by decide))
  have fraction : parseFraction (ch 'e' :: (printInt exponent ++ rest)) =
      ([], ch 'e' :: (printInt exponent ++ rest)) := parseFraction_absent (by simp)
  simp only [parseNumber, taken, spanned, if_neg (digits_allowed m), fraction, parseExponent_printInt _ ends,
    List.append_nil, List.length_nil, Nat.cast_zero, sub_zero]
  rw [decimal_digits (Nat.lt_succ_self m), value]

end Numbers

section Strings

theorem hexValue_hexDigit {d : Nat} (bound : d < 16) : hexValue (hexDigit d) = some d := by
  interval_cases d <;> rfl

theorem parseUnicode_control {c : CodePoint} (control : c.val < 0x20) (rest : Str) :
    parseUnicode (ch '0' :: ch '0' :: hexDigit (c.val / 16) :: hexDigit (c.val % 16) :: rest) =
      some (c, rest) := by
  have high := hexValue_hexDigit (show c.val / 16 < 16 by omega)
  have low := hexValue_hexDigit (show c.val % 16 < 16 by omega)
  have zero : hexValue (ch '0') = some 0 := rfl
  have code : 4096 * 0 + 256 * 0 + 16 * (c.val / 16) + c.val % 16 = c.val := by omega
  have plain : ¬ (0xD800 ≤ c.val ∧ c.val ≤ 0xDBFF) := by omega
  simp only [parseUnicode, parseHex4, zero, high, low, code, if_neg plain]
  simp

theorem parseChars_quote (fuel : Nat) (rest : Str) :
    parseChars (fuel + 1) (ch '"' :: rest) = some ([], rest) := by simp [parseChars]

theorem parseChars_escape (fuel : Nat) (c : CodePoint) (rest : Str) :
    parseChars (fuel + 1) (escape c ++ rest) =
      (parseChars fuel rest).map fun (points, final) => (c :: points, final) := by
  unfold escape
  split
  · next quote => subst quote; simp [parseChars, parseEscape]
  split
  · next backslash => subst backslash; simp [parseChars, parseEscape]
  split
  · next short => subst short; simp [parseChars, parseEscape]
  split
  · next short => subst short; simp [parseChars, parseEscape]
  split
  · next short => subst short; simp [parseChars, parseEscape]
  split
  · next short => subst short; simp [parseChars, parseEscape]
  split
  · next short => subst short; simp [parseChars, parseEscape]
  split
  · next control =>
    have point := parseUnicode_control control rest
    simp [parseChars, parseEscape, point]
  · next quote backslash _ _ _ _ _ control => simp [parseChars, quote, backslash, control]

theorem parseChars_printed (s : Str) {fuel : Nat} (enough : s.length < fuel) (rest : Str) :
    parseChars fuel (s.flatMap escape ++ ch '"' :: rest) = some (s, rest) := by
  induction s generalizing fuel with
  | nil =>
    obtain ⟨fuel, rfl⟩ := Nat.exists_eq_succ_of_ne_zero (show fuel ≠ 0 by simp at enough; omega)
    exact parseChars_quote fuel rest
  | cons c s ih =>
    obtain ⟨fuel, rfl⟩ := Nat.exists_eq_succ_of_ne_zero (show fuel ≠ 0 by simp at enough; omega)
    have short : s.length < fuel := by simpa using enough
    rw [List.flatMap_cons, List.append_assoc, parseChars_escape, ih short]
    rfl

theorem escape_length (c : CodePoint) : 1 ≤ (escape c).length := by
  unfold escape
  split_ifs <;> simp

theorem flatMap_escape_length (s : Str) : s.length ≤ (s.flatMap escape).length := by
  induction s with
  | nil => simp
  | cons c s ih =>
    have one := escape_length c
    simp only [List.flatMap_cons, List.length_append, List.length_cons]
    omega

end Strings

section Values

theorem skipSpace_cons {c : CodePoint} (visible : isSpace c = false) (rest : Str) :
    skipSpace (c :: rest) = c :: rest := by simp [skipSpace, visible]

theorem isSpace_ch {c : Char} (visible : c ≠ ' ' ∧ 13 < c.toNat) : isSpace (ch c) = false := by
  have value : (ch c).val = c.toNat := Nat.mod_eq_of_lt (char_toNat_lt c)
  have control : ∀ n : CodePoint, n.val ≤ 13 → ch c ≠ n := by
    intro n small same
    subst same
    omega
  simp [isSpace, visible.1, control 9 (by decide), control 10 (by decide), control 13 (by decide)]

theorem isSpace_digit {d : Nat} (bound : d < 10) : isSpace (digit d) = false := by
  interval_cases d <;> rfl

/-- The text of a number begins with a digit, after a sign or without one. -/
def Leads (text : Str) : Prop := ∃ d < 10, ∃ rest, text = digit d :: rest ∨ text = ch '-' :: digit d :: rest

theorem Leads.append {text : Str} (leads : Leads text) (more : Str) : Leads (text ++ more) := by
  obtain ⟨d, bound, rest, rfl | rfl⟩ := leads
  · exact ⟨d, bound, rest ++ more, .inl rfl⟩
  · exact ⟨d, bound, rest ++ more, .inr rfl⟩

theorem printInt_leads (n : Int) : Leads (printInt n) := by
  cases n with
  | ofNat m =>
    obtain ⟨d, rest, bound, printed⟩ := printNat_cons m
    exact ⟨d, bound, rest, .inl printed⟩
  | negSucc m =>
    obtain ⟨d, rest, bound, printed⟩ := printNat_cons (m + 1)
    exact ⟨d, bound, rest, .inr (by rw [printInt, printed])⟩

theorem print_cons (value : Json) :
    ∃ c rest, print value = c :: rest ∧ isSpace c = false ∧ c ≠ ch ']' := by
  have numeric : ∀ text, Leads text → ∃ c rest, text = c :: rest ∧ isSpace c = false ∧ c ≠ ch ']' := by
    rintro _ ⟨d, bound, rest, rfl | rfl⟩
    · exact ⟨digit d, rest, rfl, isSpace_digit bound, digit_ne_ch bound (by decide)⟩
    · exact ⟨ch '-', digit d :: rest, rfl, isSpace_ch (by decide), by simp⟩
  cases value with
  | null => exact ⟨ch 'n', Foundation.str "ull", rfl, isSpace_ch (by decide), by simp⟩
  | bool value =>
    cases value
    · exact ⟨ch 'f', Foundation.str "alse", rfl, isSpace_ch (by decide), by simp⟩
    · exact ⟨ch 't', Foundation.str "rue", rfl, isSpace_ch (by decide), by simp⟩
  | int n => exact numeric _ (printInt_leads n)
  | float mantissa exponent => exact numeric _ ((printInt_leads mantissa).append _)
  | nan => exact ⟨ch 'N', Foundation.str "aN", rfl, isSpace_ch (by decide), by simp⟩
  | infinity negative =>
    cases negative
    · exact ⟨ch 'I', Foundation.str "nfinity", rfl, isSpace_ch (by decide), by simp⟩
    · exact ⟨ch '-', Foundation.str "Infinity", rfl, isSpace_ch (by decide), by simp⟩
  | str s => exact ⟨ch '"', _, by simp only [print, printStr]; rfl, isSpace_ch (by decide), by simp⟩
  | arr items => exact ⟨ch '[', _, by simp only [print]; rfl, isSpace_ch (by decide), by simp⟩
  | obj members => exact ⟨ch '\x7b', _, by simp only [print]; rfl, isSpace_ch (by decide), by simp⟩

theorem parseWord_str (word : String) (value : Json) (rest : Str) :
    parseWord word value (Foundation.str word ++ rest) = some (value, rest) := by
  have found : (Foundation.str word).isPrefixOf (Foundation.str word ++ rest) := by
    rw [List.isPrefixOf_iff_prefix]
    exact List.prefix_append _ _
  simp [parseWord, found]

theorem parseValue_number (fuel : Nat) {text : Str} (leads : Leads text) :
    parseValue (fuel + 1) text = parseNumber text := by
  obtain ⟨d, bound, rest, rfl | rfl⟩ := leads
  · have other : ∀ c : Char, c.toNat < 0x30 ∨ 0x39 < c.toNat → digit d ≠ ch c := fun c => digit_ne_ch bound
    simp [parseValue, skipSpace_cons (isSpace_digit bound), other '"' (by decide), other '[' (by decide),
      other '\x7b' (by decide), other 'n' (by decide), other 't' (by decide), other 'f' (by decide),
      other 'N' (by decide), other 'I' (by decide), other '-' (by decide)]
  · have visible : isSpace (ch '-') = false := isSpace_ch (by decide)
    have finite : digit d ≠ ch 'I' := digit_ne_ch bound (by decide)
    simp [parseValue, skipSpace_cons visible, finite]

theorem parseValue_int (fuel : Nat) (n : Int) {rest : Str} (ends : Ends rest) :
    parseValue (fuel + 1) (print (.int n) ++ rest) = some (.int n, rest) :=
  (parseValue_number fuel ((printInt_leads n).append rest)).trans (parseNumber_int n ends)

theorem parseValue_float (fuel : Nat) (mantissa exponent : Int) {rest : Str} (ends : Ends rest) :
    parseValue (fuel + 1) (print (.float mantissa exponent) ++ rest) = some (.float mantissa exponent, rest) := by
  have leads := ((printInt_leads mantissa).append (ch 'e' :: printInt exponent)).append rest
  rw [print, parseValue_number fuel leads, List.append_assoc, List.cons_append]
  exact parseNumber_float mantissa exponent ends

theorem parseValue_str (fuel : Nat) (s : Str) (rest : Str) (enough : (print (.str s)).length ≤ fuel) :
    parseValue (fuel + 1) (print (.str s) ++ rest) = some (.str s, rest) := by
  have long := flatMap_escape_length s
  simp only [print, printStr, List.length_cons, List.length_append, List.length_nil] at enough
  have visible : isSpace (ch '"') = false := isSpace_ch (by decide)
  have parsed := parseChars_printed s (show s.length < fuel by omega) rest
  simp [parseValue, print, printStr, skipSpace_cons visible, parsed]

def Word (value : Json) : Prop :=
  value = .null ∨ (∃ b, value = .bool b) ∨ value = .nan ∨ ∃ negative, value = .infinity negative

theorem parseValue_word (fuel : Nat) (rest : Str) {value : Json} (word : Word value) :
    parseValue (fuel + 1) (print value ++ rest) = some (value, rest) := by
  have visible : ∀ c : Char, c ≠ ' ' ∧ 13 < c.toNat → isSpace (ch c) = false := fun c => isSpace_ch
  rcases word with rfl | ⟨_ | _, rfl⟩ | rfl | ⟨_ | _, rfl⟩
  · have parsed := parseWord_str "null" .null rest
    change parseValue (fuel + 1) (ch 'n' :: (Foundation.str "ull" ++ rest)) = _
    simp [parseValue, skipSpace_cons (visible 'n' (by decide))]
    exact parsed
  · have parsed := parseWord_str "false" (.bool false) rest
    change parseValue (fuel + 1) (ch 'f' :: (Foundation.str "alse" ++ rest)) = _
    simp [parseValue, skipSpace_cons (visible 'f' (by decide))]
    exact parsed
  · have parsed := parseWord_str "true" (.bool true) rest
    change parseValue (fuel + 1) (ch 't' :: (Foundation.str "rue" ++ rest)) = _
    simp [parseValue, skipSpace_cons (visible 't' (by decide))]
    exact parsed
  · have parsed := parseWord_str "NaN" .nan rest
    change parseValue (fuel + 1) (ch 'N' :: (Foundation.str "aN" ++ rest)) = _
    simp [parseValue, skipSpace_cons (visible 'N' (by decide))]
    exact parsed
  · have parsed := parseWord_str "Infinity" (.infinity false) rest
    change parseValue (fuel + 1) (ch 'I' :: (Foundation.str "nfinity" ++ rest)) = _
    simp [parseValue, skipSpace_cons (visible 'I' (by decide))]
    exact parsed
  · have parsed := parseWord_str "-Infinity" (.infinity true) rest
    have named : (Foundation.str "Infinity" ++ rest).head? = some (ch 'I') := rfl
    change parseValue (fuel + 1) (ch '-' :: (Foundation.str "Infinity" ++ rest)) = _
    simp [parseValue, skipSpace_cons (visible '-' (by decide)), named]
    exact parsed

def ReadsValues (fuel : Nat) : Prop := ∀ value rest, (print value).length < fuel → Ends rest →
  parseValue fuel (print value ++ rest) = some (value, rest)

def ReadsItems (fuel : Nat) : Prop := ∀ item items rest,
  (join [ch ','] (printItems (item :: items))).length + 1 < fuel →
  parseItems fuel (join [ch ','] (printItems (item :: items)) ++ ch ']' :: rest) =
    some (item :: items, rest)

def ReadsMember (fuel : Nat) : Prop := ∀ member rest, (printMember member).length < fuel → Ends rest →
  parseMember fuel (printMember member ++ rest) = some (member, rest)

def ReadsMembers (fuel : Nat) : Prop := ∀ member members rest,
  (join [ch ','] (printMembers (member :: members))).length + 1 < fuel →
  parseMembers fuel (join [ch ','] (printMembers (member :: members)) ++ ch '\x7d' :: rest) =
    some (member :: members, rest)

theorem parseValue_arr {fuel : Nat} (reads : ReadsItems fuel) (items : List Json) (rest : Str)
    (enough : (print (.arr items)).length < fuel + 1) :
    parseValue (fuel + 1) (print (.arr items) ++ rest) = some (.arr items, rest) := by
  have visible : isSpace (ch '[') = false := isSpace_ch (by decide)
  cases items with
  | nil =>
    have closing : isSpace (ch ']') = false := isSpace_ch (by decide)
    simp [print, printItems, parseValue, skipSpace_cons visible, skipSpace_cons closing]
  | cons item items =>
    simp only [print, List.length_cons, List.length_append, List.length_nil] at enough
    have parsed := reads item items rest (by omega)
    obtain ⟨c, tail, printed, seen, opening⟩ := print_cons item
    obtain ⟨more, started⟩ : ∃ more,
        join [ch ','] (printItems (item :: items)) ++ ch ']' :: rest = c :: more := by
      cases items <;> simp [printItems, printed]
    rw [started] at parsed
    simp only [print, List.cons_append, List.append_assoc, List.nil_append, started]
    simp [parseValue, skipSpace_cons visible, skipSpace_cons seen, opening, parsed]

theorem parseValue_obj {fuel : Nat} (reads : ReadsMembers fuel) (members : List (Str × Json)) (rest : Str)
    (enough : (print (.obj members)).length < fuel + 1) :
    parseValue (fuel + 1) (print (.obj members) ++ rest) = some (.obj members, rest) := by
  have visible : isSpace (ch '\x7b') = false := isSpace_ch (by decide)
  cases members with
  | nil =>
    have closing : isSpace (ch '\x7d') = false := isSpace_ch (by decide)
    simp [print, printMembers, parseValue, skipSpace_cons visible, skipSpace_cons closing]
  | cons member members =>
    obtain ⟨name, value⟩ := member
    simp only [print, List.length_cons, List.length_append, List.length_nil] at enough
    have parsed := reads (name, value) members rest (by omega)
    have quote : isSpace (ch '"') = false := isSpace_ch (by decide)
    obtain ⟨more, started⟩ : ∃ more, join [ch ','] (printMembers ((name, value) :: members)) ++
        ch '\x7d' :: rest = ch '"' :: more := by
      cases members <;> simp [printMembers, printMember, printStr]
    rw [started] at parsed
    simp only [print, List.cons_append, List.append_assoc, List.nil_append, started]
    simp [parseValue, skipSpace_cons visible, skipSpace_cons quote, parsed]

theorem readsValues_succ {fuel : Nat} (items : ReadsItems fuel) (members : ReadsMembers fuel) :
    ReadsValues (fuel + 1) := by
  intro value rest enough ends
  cases value with
  | null => exact parseValue_word fuel rest (.inl rfl)
  | bool value => exact parseValue_word fuel rest (.inr (.inl ⟨value, rfl⟩))
  | int n => exact parseValue_int fuel n ends
  | float mantissa exponent => exact parseValue_float fuel mantissa exponent ends
  | nan => exact parseValue_word fuel rest (.inr (.inr (.inl rfl)))
  | infinity negative => exact parseValue_word fuel rest (.inr (.inr (.inr ⟨negative, rfl⟩)))
  | str s => exact parseValue_str fuel s rest (by omega)
  | arr xs => exact parseValue_arr items xs rest enough
  | obj ms => exact parseValue_obj members ms rest enough

theorem readsItems_succ {fuel : Nat} (values : ReadsValues fuel) (others : ReadsItems fuel) :
    ReadsItems (fuel + 1) := by
  intro item items rest enough
  have comma : isSpace (ch ',') = false := isSpace_ch (by decide)
  have closing : isSpace (ch ']') = false := isSpace_ch (by decide)
  cases items with
  | nil =>
    simp only [printItems, join_singleton] at enough ⊢
    have parsed := values item (ch ']' :: rest) (by omega) (.bracket rest)
    simp [parseItems, parsed, skipSpace_cons closing]
  | cons next items =>
    simp only [printItems, join_cons_cons, List.length_append, List.length_singleton] at enough
    have parsed := values item
      (ch ',' :: (join [ch ','] (printItems (next :: items)) ++ ch ']' :: rest)) (by omega) (.comma _)
    have tail := others next items rest (by simp only [printItems]; omega)
    simp only [printItems, join_cons_cons, List.append_assoc, List.singleton_append] at parsed tail ⊢
    simp [parseItems, parsed, skipSpace_cons comma, tail]

theorem readsMember_succ {fuel : Nat} (values : ReadsValues fuel) : ReadsMember (fuel + 1) := by
  intro ⟨name, value⟩ rest enough ends
  have quote : isSpace (ch '"') = false := isSpace_ch (by decide)
  have colon : isSpace (ch ':') = false := isSpace_ch (by decide)
  have long := flatMap_escape_length name
  simp only [printMember, printStr, List.length_append, List.length_cons, List.length_nil] at enough
  have named := parseChars_printed name (show name.length < fuel by omega) (ch ':' :: (print value ++ rest))
  have parsed := values value rest (by omega) ends
  simp [parseMember, printMember, printStr, skipSpace_cons quote, named, skipSpace_cons colon, parsed]

theorem readsMembers_succ {fuel : Nat} (single : ReadsMember fuel) (others : ReadsMembers fuel) :
    ReadsMembers (fuel + 1) := by
  intro member members rest enough
  have comma : isSpace (ch ',') = false := isSpace_ch (by decide)
  have closing : isSpace (ch '\x7d') = false := isSpace_ch (by decide)
  cases members with
  | nil =>
    simp only [printMembers, join_singleton] at enough ⊢
    have parsed := single member (ch '\x7d' :: rest) (by omega) (.brace rest)
    simp [parseMembers, parsed, skipSpace_cons closing]
  | cons next members =>
    simp only [printMembers, join_cons_cons, List.length_append, List.length_singleton] at enough
    have parsed := single member
      (ch ',' :: (join [ch ','] (printMembers (next :: members)) ++ ch '\x7d' :: rest)) (by omega) (.comma _)
    have tail := others next members rest (by simp only [printMembers]; omega)
    simp only [printMembers, join_cons_cons, List.append_assoc, List.singleton_append] at parsed tail ⊢
    simp [parseMembers, parsed, skipSpace_cons comma, tail]

/-- Fuel beyond the length of a printed text is enough for each of the four parsing functions. -/
theorem reads_printed (fuel : Nat) :
    ReadsValues fuel ∧ ReadsItems fuel ∧ ReadsMember fuel ∧ ReadsMembers fuel := by
  induction fuel with
  | zero => simp [ReadsValues, ReadsItems, ReadsMember, ReadsMembers]
  | succ fuel ih =>
    obtain ⟨values, items, single, members⟩ := ih
    exact ⟨readsValues_succ items members, readsItems_succ values items, readsMember_succ values,
      readsMembers_succ single members⟩

/-- Parsing undoes printing, on every JSON value. -/
theorem parse_print (value : Json) : parse (print value) = some value := by
  have parsed := (reads_printed ((print value).length + 2)).1 value [] (by omega) .nil
  rw [List.append_nil] at parsed
  simp [parse, parsed, skipSpace]

theorem print_injective : Function.Injective print := by
  intro a b same
  have parsed := parse_print a
  rw [same, parse_print b] at parsed
  exact (Option.some.inj parsed).symm

end Values

instance : DecidableEq Json := fun a b =>
  decidable_of_iff (print a = print b) print_injective.eq_iff

end Foundation.Json
