import Ripcord.Foundation.Str

namespace Foundation

/-- A JSON value as Python reads it, which keeps integers and floats apart and knows three words for floats
    that are no numbers. A float is the decimal it was written as, `mantissa * 10 ^ exponent`. -/
inductive Json
  | null
  | bool (value : Bool)
  | int (value : Int)
  | float (mantissa exponent : Int)
  | nan
  | infinity (negative : Bool)
  | str (value : Str)
  | arr (items : List Json)
  | obj (members : List (Str × Json))

namespace Json

/-! Printing: the compact form, without blanks between tokens. -/

def digit (d : Nat) : CodePoint := Fin.ofNat 0x110000 (0x30 + d)

/-- The decimal digits, most significant first; more fuel than `n` is enough. -/
def digits : Nat → Nat → List Nat
  | 0, _ => []
  | fuel + 1, n => if n < 10 then [n] else digits fuel (n / 10) ++ [n % 10]

def printNat (n : Nat) : Str := (digits (n + 1) n).map digit

def printInt : Int → Str
  | .ofNat n => printNat n
  | .negSucc n => ch '-' :: printNat (n + 1)

def hexDigit (d : Nat) : CodePoint := Fin.ofNat 0x110000 (if d < 10 then 0x30 + d else 0x57 + d)

def escape (c : CodePoint) : Str :=
  if c = ch '"' then [ch '\\', ch '"']
  else if c = ch '\\' then [ch '\\', ch '\\']
  else if c = 8 then [ch '\\', ch 'b']
  else if c = 9 then [ch '\\', ch 't']
  else if c = 10 then [ch '\\', ch 'n']
  else if c = 12 then [ch '\\', ch 'f']
  else if c = 13 then [ch '\\', ch 'r']
  else if c.val < 0x20 then
    [ch '\\', ch 'u', ch '0', ch '0', hexDigit (c.val / 16), hexDigit (c.val % 16)]
  else [c]

def printStr (s : Str) : Str := ch '"' :: (s.flatMap escape ++ [ch '"'])

mutual

def print : Json → Str
  | null => Foundation.str "null"
  | bool true => Foundation.str "true"
  | bool false => Foundation.str "false"
  | int n => printInt n
  | float mantissa exponent => printInt mantissa ++ ch 'e' :: printInt exponent
  | nan => Foundation.str "NaN"
  | infinity false => Foundation.str "Infinity"
  | infinity true => Foundation.str "-Infinity"
  | str s => printStr s
  | arr items => ch '[' :: (join [ch ','] (printItems items) ++ [ch ']'])
  | obj members => ch '\x7b' :: (join [ch ','] (printMembers members) ++ [ch '\x7d'])

def printItems : List Json → List Str
  | [] => []
  | item :: rest => print item :: printItems rest

def printMembers : List (Str × Json) → List Str
  | [] => []
  | member :: rest => printMember member :: printMembers rest

def printMember : Str × Json → Str
  | (name, value) => printStr name ++ ch ':' :: print value

end

/-! The values a text is made of that have no parts, names of members among them. -/

mutual

def leaves : Json → List Json
  | arr items => leavesOfItems items
  | obj members => leavesOfMembers members
  | leaf => [leaf]

def leavesOfItems : List Json → List Json
  | [] => []
  | item :: rest => leaves item ++ leavesOfItems rest

def leavesOfMembers : List (Str × Json) → List Json
  | [] => []
  | member :: rest => leavesOfMember member ++ leavesOfMembers rest

def leavesOfMember : Str × Json → List Json
  | (name, value) => str name :: leaves value

end

/-! Parsing, by `json.loads`'s grammar. Fuel bounds the number of calls; the length of the text is
enough of it. -/

def isSpace (c : CodePoint) : Bool := c = ch ' ' ∨ c = 9 ∨ c = 10 ∨ c = 13

def skipSpace (text : Str) : Str := text.dropWhile isSpace

def digitValue (c : CodePoint) : Option Nat :=
  if 0x30 ≤ c.val ∧ c.val ≤ 0x39 then some (c.val - 0x30) else none

def spanDigits : Str → List Nat × Str
  | [] => ([], [])
  | c :: rest =>
    match digitValue c with
    | some d => ((d :: (spanDigits rest).1), (spanDigits rest).2)
    | none => ([], c :: rest)

def decimal (digits : List Nat) : Nat := digits.foldl (fun value d => 10 * value + d) 0

def signed (negative : Bool) (n : Nat) : Int := if negative then -n else n

def takeSign : Str → Bool × Str
  | [] => (false, [])
  | c :: rest => if c = ch '-' then (true, rest) else (false, c :: rest)

def parseFraction : Str → List Nat × Str
  | [] => ([], [])
  | c :: rest =>
    if c = ch '.' ∧ (spanDigits rest).1 ≠ [] then spanDigits rest else ([], c :: rest)

def exponentSign : Str → Bool × Str
  | [] => (false, [])
  | c :: rest => if c = ch '+' then (false, rest) else takeSign (c :: rest)

def parseExponent : Str → Option Int × Str
  | [] => (none, [])
  | c :: rest =>
    let (negative, digitsText) := exponentSign rest
    let (digits, after) := spanDigits digitsText
    if (c = ch 'e' ∨ c = ch 'E') ∧ digits ≠ [] then (some (signed negative (decimal digits)), after)
    else (none, c :: rest)

def parseNumber (text : Str) : Option (Json × Str) :=
  let (negative, unsigned) := takeSign text
  let (whole, afterWhole) := spanDigits unsigned
  if whole = [] ∨ (whole.head? = some 0 ∧ whole.length ≠ 1) then none
  else
    let (fraction, afterFraction) := parseFraction afterWhole
    match parseExponent afterFraction with
    | (none, rest) =>
      if fraction = [] then some (.int (signed negative (decimal whole)), rest)
      else some (.float (signed negative (decimal (whole ++ fraction))) (-fraction.length), rest)
    | (some exponent, rest) =>
      some (.float (signed negative (decimal (whole ++ fraction))) (exponent - fraction.length), rest)

def hexValue (c : CodePoint) : Option Nat :=
  if 0x30 ≤ c.val ∧ c.val ≤ 0x39 then some (c.val - 0x30)
  else if 0x61 ≤ c.val ∧ c.val ≤ 0x66 then some (c.val - 0x57)
  else if 0x41 ≤ c.val ∧ c.val ≤ 0x46 then some (c.val - 0x37)
  else none

def parseHex4 : Str → Option (Nat × Str)
  | a :: b :: c :: d :: rest =>
    match hexValue a, hexValue b, hexValue c, hexValue d with
    | some a, some b, some c, some d => some (4096 * a + 256 * b + 16 * c + d, rest)
    | _, _, _, _ => none
  | _ => none

def parseLow : Str → Option (Nat × Str)
  | backslash :: u :: rest =>
    if backslash = ch '\\' ∧ u = ch 'u' then
      match parseHex4 rest with
      | some (low, after) => if 0xDC00 ≤ low ∧ low ≤ 0xDFFF then some (low, after) else none
      | none => none
    else none
  | _ => none

def parseUnicode (text : Str) : Option (CodePoint × Str) :=
  match parseHex4 text with
  | none => none
  | some (code, rest) =>
    if 0xD800 ≤ code ∧ code ≤ 0xDBFF then
      match parseLow rest with
      | some (low, after) =>
        some (Fin.ofNat 0x110000 (0x10000 + (code - 0xD800) * 1024 + (low - 0xDC00)), after)
      | none => some (Fin.ofNat 0x110000 code, rest)
    else some (Fin.ofNat 0x110000 code, rest)

def parseEscape : Str → Option (CodePoint × Str)
  | [] => none
  | c :: rest =>
    if c = ch '"' ∨ c = ch '\\' ∨ c = ch '/' then some (c, rest)
    else if c = ch 'b' then some (8, rest)
    else if c = ch 't' then some (9, rest)
    else if c = ch 'n' then some (10, rest)
    else if c = ch 'f' then some (12, rest)
    else if c = ch 'r' then some (13, rest)
    else if c = ch 'u' then parseUnicode rest
    else none

def parseChars : Nat → Str → Option (Str × Str)
  | 0, _ => none
  | _ + 1, [] => none
  | fuel + 1, c :: rest =>
    if c = ch '"' then some ([], rest)
    else if c = ch '\\' then
      (parseEscape rest).bind fun (point, after) =>
        (parseChars fuel after).map fun (points, final) => (point :: points, final)
    else if c.val < 0x20 then none
    else (parseChars fuel rest).map fun (points, final) => (c :: points, final)

def parseWord (word : String) (value : Json) (text : Str) : Option (Json × Str) :=
  if (Foundation.str word).isPrefixOf text then some (value, text.drop (Foundation.str word).length)
  else none

mutual

def parseValue : Nat → Str → Option (Json × Str)
  | 0, _ => none
  | fuel + 1, text =>
    match skipSpace text with
    | [] => none
    | c :: rest =>
      if c = ch '"' then (parseChars fuel rest).map fun (s, after) => (.str s, after)
      else if c = ch '[' then
        match skipSpace rest with
        | [] => none
        | d :: after =>
          if d = ch ']' then some (.arr [], after)
          else (parseItems fuel rest).map fun (items, after) => (.arr items, after)
      else if c = ch '\x7b' then
        match skipSpace rest with
        | [] => none
        | d :: after =>
          if d = ch '\x7d' then some (.obj [], after)
          else (parseMembers fuel rest).map fun (members, after) => (.obj members, after)
      else if c = ch 'n' then parseWord "null" .null (c :: rest)
      else if c = ch 't' then parseWord "true" (.bool true) (c :: rest)
      else if c = ch 'f' then parseWord "false" (.bool false) (c :: rest)
      else if c = ch 'N' then parseWord "NaN" .nan (c :: rest)
      else if c = ch 'I' then parseWord "Infinity" (.infinity false) (c :: rest)
      else if c = ch '-' ∧ rest.head? = some (ch 'I') then parseWord "-Infinity" (.infinity true) (c :: rest)
      else parseNumber (c :: rest)

def parseItems : Nat → Str → Option (List Json × Str)
  | 0, _ => none
  | fuel + 1, text =>
    match parseValue fuel text with
    | none => none
    | some (item, rest) =>
      match skipSpace rest with
      | [] => none
      | c :: after =>
        if c = ch ',' then (parseItems fuel after).map fun (items, final) => (item :: items, final)
        else if c = ch ']' then some ([item], after)
        else none

def parseMember : Nat → Str → Option ((Str × Json) × Str)
  | 0, _ => none
  | fuel + 1, text =>
    match skipSpace text with
    | [] => none
    | c :: rest =>
      if c = ch '"' then
        match parseChars fuel rest with
        | none => none
        | some (name, afterName) =>
          match skipSpace afterName with
          | [] => none
          | d :: afterColon =>
            if d = ch ':' then
              (parseValue fuel afterColon).map fun (value, final) => ((name, value), final)
            else none
      else none

def parseMembers : Nat → Str → Option (List (Str × Json) × Str)
  | 0, _ => none
  | fuel + 1, text =>
    match parseMember fuel text with
    | none => none
    | some (member, rest) =>
      match skipSpace rest with
      | [] => none
      | c :: after =>
        if c = ch ',' then
          (parseMembers fuel after).map fun (members, final) => (member :: members, final)
        else if c = ch '\x7d' then some ([member], after)
        else none

end

/-- `json.loads(text)`; `none` is its `JSONDecodeError`. -/
def parse (text : Str) : Option Json :=
  match parseValue (text.length + 2) text with
  | some (value, rest) => if skipSpace rest = [] then some value else none
  | none => none

/-- `data.get(name)` of a parsed object: the last member of a name is the one that counts. -/
def member? (name : Str) (members : List (Str × Json)) : Option Json :=
  (members.reverse.find? fun member => member.1 = name).map Prod.snd

theorem mem_leaves_arr {items : List Json} {leaf : Json} :
    leaf ∈ (arr items).leaves ↔ ∃ item ∈ items, leaf ∈ item.leaves := by
  show leaf ∈ leavesOfItems items ↔ _
  induction items with
  | nil => simp [leavesOfItems]
  | cons item rest ih => simp only [leavesOfItems, List.mem_append, ih, List.exists_mem_cons_iff]

end Json

end Foundation
