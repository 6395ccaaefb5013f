import Ripcord.Engine
import Ripcord.Foundation.Doubles

namespace Ripcord

open Foundation

/-- `schemas.Operator`. The only writer of a rule's operator column writes one of its values. -/
inductive Operator
  | in_
  | not_in
  | eq
  | neq
  deriving DecidableEq

def Operator.value : Operator → Str
  | .in_ => str "in"
  | .not_in => str "not_in"
  | .eq => str "eq"
  | .neq => str "neq"

structure TargetingRule where
  id : Nat
  attr : Str
  operator : Operator
  values : List Str
  priority : Int
  variant : Option Str
  deriving DecidableEq

structure Variant where
  id : Nat
  key : Str
  value : Json
  weight : Int
  deriving DecidableEq

/-- A flag with its rules and variants. Timestamps are kept in the text form they are served in. -/
structure Flag where
  id : Nat
  key : Str
  name : Str
  description : Option Str
  enabled : Bool
  rolloutPercentage : Int
  offVariant : Option Str
  version : Int
  createdAt : Str
  updatedAt : Str
  rules : List TargetingRule
  variants : List Variant
  deriving DecidableEq

inductive Action
  | created
  | updated
  | deleted
  deriving DecidableEq

structure AuditLog where
  flagKey : Str
  action : Action
  actor : Str
  details : Option Json
  deriving DecidableEq

/-! What the PostgreSQL columns can hold, and the constraints the tables declare. -/

def Storable (s : Str) : Prop := IsUnicode s ∧ (0 : CodePoint) ∉ s
  deriving Decidable

def FitsVarchar (size : Nat) (s : Str) : Prop := s.length ≤ size ∧ Storable s
  deriving Decidable

def FitsInteger (n : Int) : Prop := -2 ^ 31 ≤ n ∧ n < 2 ^ 31
  deriving Decidable

/-- `sys.int_info.default_max_str_digits`: a longer integer is neither read from a text nor written to one. -/
def maxStrDigits : Nat := 4300

def FitsDigits (n : Int) : Prop := (Json.printNat n.natAbs).length ≤ maxStrDigits
  deriving Decidable

/-- `json.dumps` writes a float that is no number as a word, which JSON does not know. A decimal beyond the
    doubles was read as infinity. -/
def LeafFits : Json → Prop
  | .str s => Storable s
  | .int n => FitsDigits n
  | .float mantissa exponent => FitsDouble (mantissa * 10 ^ exponent)
  | .nan | .infinity _ => False
  | .null | .bool _ | .arr _ | .obj _ => True

instance : DecidablePred LeafFits
  | .str s => inferInstanceAs (Decidable (Storable s))
  | .int n => inferInstanceAs (Decidable (FitsDigits n))
  | .float mantissa exponent => inferInstanceAs (Decidable (FitsDouble (mantissa * 10 ^ exponent)))
  | .nan | .infinity _ => inferInstanceAs (Decidable False)
  | .null | .bool _ | .arr _ | .obj _ => inferInstanceAs (Decidable True)

def FitsJsonb (value : Json) : Prop := ∀ leaf ∈ value.leaves, LeafFits leaf
  deriving Decidable

def TargetingRule.Fits (rule : TargetingRule) : Prop :=
  FitsVarchar 128 rule.attr ∧ (∀ s ∈ rule.values, Storable s) ∧ FitsInteger rule.priority ∧
    ∀ s ∈ rule.variant, FitsVarchar 64 s
  deriving Decidable

def Variant.Fits (variant : Variant) : Prop :=
  FitsVarchar 64 variant.key ∧ FitsJsonb variant.value ∧ FitsInteger variant.weight
  deriving Decidable

def Flag.Fits (flag : Flag) : Prop :=
  FitsVarchar 128 flag.key ∧ FitsVarchar 256 flag.name ∧ (∀ s ∈ flag.description, FitsVarchar 1024 s) ∧
    FitsInteger flag.rolloutPercentage ∧ (∀ s ∈ flag.offVariant, FitsVarchar 64 s) ∧
    FitsInteger flag.version
  deriving Decidable

def Flag.ChildrenFit (flag : Flag) : Prop :=
  (∀ rule ∈ flag.rules, rule.Fits) ∧ ∀ variant ∈ flag.variants, variant.Fits
  deriving Decidable

def AuditLog.Fits (entry : AuditLog) : Prop :=
  FitsVarchar 128 entry.flagKey ∧ FitsVarchar 128 entry.actor ∧ ∀ details ∈ entry.details, FitsJsonb details
  deriving Decidable

/-- `ck_flags_rollout_percentage`. -/
def Flag.RolloutChecked (flag : Flag) : Prop := 0 ≤ flag.rolloutPercentage ∧ flag.rolloutPercentage ≤ 100
  deriving Decidable

/-- `uq_variants_flag_key` and `ck_variants_weight`. -/
def Flag.VariantsChecked (flag : Flag) : Prop :=
  (flag.variants.map Variant.key).Nodup ∧ ∀ v ∈ flag.variants, 0 ≤ v.weight ∧ v.weight ≤ 100
  deriving Decidable

def Flag.RowValid (flag : Flag) : Prop :=
  flag.Fits ∧ flag.ChildrenFit ∧ flag.RolloutChecked ∧ flag.VariantsChecked
  deriving Decidable

/-- Rows keep the order they were inserted in, the entries of the log that of their commits; `flagIds` are the primary
    keys that the sequence has given to committed flags, deleted ones included. -/
structure Tables where
  flags : List Flag
  audit : List AuditLog
  flagIds : List Nat
  deriving DecidableEq

/-- The constraints the tables enforce. A sequence never gives an id twice. -/
structure Tables.Valid (tables : Tables) : Prop where
  keysDistinct : (tables.flags.map Flag.key).Nodup
  idsDistinct : (tables.flags.map Flag.id).Nodup
  issued : ∀ flag ∈ tables.flags, flag.id ∈ tables.flagIds
  sequence : tables.flagIds.Nodup
  rowsValid : ∀ flag ∈ tables.flags, flag.RowValid

instance (tables : Tables) : Decidable tables.Valid :=
  decidable_of_iff ((tables.flags.map Flag.key).Nodup ∧ (tables.flags.map Flag.id).Nodup ∧
      (∀ flag ∈ tables.flags, flag.id ∈ tables.flagIds) ∧ tables.flagIds.Nodup ∧
      ∀ flag ∈ tables.flags, flag.RowValid)
    ⟨fun ⟨keys, ids, issued, sequence, rows⟩ => ⟨keys, ids, issued, sequence, rows⟩,
      fun ⟨keys, ids, issued, sequence, rows⟩ => ⟨keys, ids, issued, sequence, rows⟩⟩

structure Database extends Tables where
  valid : toTables.Valid
  deriving DecidableEq

def Database.empty : Database := ⟨⟨[], [], []⟩, by decide⟩

/-- How a transaction can fail: a constraint, a value its column cannot hold, or the version guard. -/
inductive CommitError
  | integrityError
  | dataError
  | staleDataError
  deriving DecidableEq

def Tables.commit (tables : Tables) : Except CommitError Database :=
  if valid : tables.Valid then .ok ⟨tables, valid⟩ else .error .integrityError

def Database.insertFlag (db : Database) (flag : Flag) (entry : AuditLog) : Except CommitError Database :=
  if ¬ (flag.Fits ∧ entry.Fits) then .error .dataError
  else if flag.key ∈ db.flags.map Flag.key ∨ ¬ flag.RolloutChecked then .error .integrityError
  else if ¬ flag.ChildrenFit then .error .dataError
  else Tables.commit ⟨db.flags ++ [flag], db.audit ++ [entry], db.flagIds ++ [flag.id]⟩

/-- The row that `WHERE id = :id AND version = :version` matches. -/
def Database.guarded? (db : Database) (read : Flag) : Option Flag :=
  db.flags.find? fun row => row.id = read.id ∧ row.version = read.version

/-- `UPDATE flags SET ... WHERE id = :id AND version = :version` with the writes to rules and variants
    and the audit entry. `read` is the flag as it was loaded, `flag` what the session flushes; the
    statement sets neither key column. -/
def Database.updateFlag (db : Database) (read flag : Flag) (entry : AuditLog) : Except CommitError Database :=
  if ¬ (flag.Fits ∧ entry.Fits) then .error .dataError
  else
    match db.guarded? read with
    | none => .error .staleDataError
    | some row =>
      if ¬ flag.RolloutChecked then .error .integrityError
      else if ¬ flag.ChildrenFit then .error .dataError
      else
        let updated := { flag with id := row.id, key := row.key }
        Tables.commit ⟨db.flags.map fun other => if other.id = row.id then updated else other,
          db.audit ++ [entry], db.flagIds⟩

def Database.deleteFlag (db : Database) (read : Flag) (entry : AuditLog) : Except CommitError Database :=
  if ¬ entry.Fits then .error .dataError
  else
    match db.guarded? read with
    | none => .error .staleDataError
    | some row =>
      Tables.commit ⟨db.flags.filter fun other => other.id ≠ row.id, db.audit ++ [entry], db.flagIds⟩

/-- A row as a query loads it: the relationships' `order_by` applied. -/
def Flag.load (row : Flag) : Flag :=
  { row with
    rules := sortOn TargetingRule.priority row.rules
    variants := sortOn Variant.key row.variants }

def Database.row? (db : Database) (key : Str) : Option Flag := db.flags.find? fun row => row.key = key

end Ripcord
