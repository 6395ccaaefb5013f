import Ripcord.Cache
import Ripcord.SerialStore

namespace Ripcord

open Foundation

def Store.states (store : Store) : List Database := .empty :: store.history.map Success.after

def Store.committed (store : Store) (n : Nat) : Option Database := store.states[n]?

def Store.between (store : Store) (m n : Nat) : List Success := (store.history.take n).drop m

/-- `SELECT ... FROM targeting_rules WHERE flag_id = :id ORDER BY priority`. -/
def Database.rulesOf (db : Database) (flagId : Nat) : List TargetingRule :=
  ((db.flags.find? fun row => row.id = flagId).map fun row => sortOn TargetingRule.priority row.rules).getD []

/-- `SELECT ... FROM variants WHERE flag_id = :id ORDER BY key`. -/
def Database.variantsOf (db : Database) (flagId : Nat) : List Variant :=
  ((db.flags.find? fun row => row.id = flagId).map fun row => sortOn Variant.key row.variants).getD []

def Flag.columns (row : Flag) : Flag := { row with rules := [], variants := [] }

/-- A flag on its way out of the database, with the number of commits that each of its three statements
    came after. -/
structure Loading where
  flag : Flag
  rowAt : Nat
  rulesAt : Nat
  variantsAt : Nat

def Loading.select (commits : Nat) (row : Flag) : Loading := ⟨row.columns, commits, commits, commits⟩

def Loading.withRules (store : Store) (loading : Loading) : Loading :=
  { loading with
    flag := { loading.flag with rules := store.db.rulesOf loading.flag.id }
    rulesAt := store.history.length }

def Loading.withVariants (store : Store) (loading : Loading) : Loading :=
  { loading with
    flag := { loading.flag with variants := store.db.variantsOf loading.flag.id }
    variantsAt := store.history.length }

inductive Collection
  | rules
  | variants
  deriving DecidableEq

def Collection.other : Collection → Collection
  | .rules => .variants
  | .variants => .rules

def Loading.load (store : Store) (loading : Loading) : Collection → Loading
  | .rules => loading.withRules store
  | .variants => loading.withVariants store

/-- `get_flag` or `list_flags` between its statements: `selectin` loads one collection of the rows read, some rows
    at a time, and then the other. -/
inductive Reader
  | idle
  | loading (current : Collection) (next : Option Collection) (done pending : List Loading)
  | loaded (flags : List Loading)

def Reader.flags : Reader → List Loading
  | .loaded flags => flags
  | _ => []

/-- Which collection comes first is the loader's affair. -/
inductive ReaderAct
  | get (key : Str) (first : Collection)
  | list (first : Collection)
  | select (count : Nat)

def Reader.begin (store : Store) (first : Collection) (rows : List Flag) : Reader :=
  if rows = [] then .loaded []
  else .loading first (some first.other) [] (rows.map (Loading.select store.history.length))

def readerStep (store : Store) (reader : Reader) : ReaderAct → Option Reader
  | .get key first =>
    match reader with
    | .idle => some (.begin store first (store.db.row? key).toList)
    | _ => none
  | .list first =>
    match reader with
    | .idle => some (.begin store first (sortOn Flag.key store.db.flags))
    | _ => none
  | .select count =>
    match reader with
    | .loading current next done pending =>
      let done := done ++ (pending.take count).map fun loading => loading.load store current
      if pending.drop count = [] then
        match next with
        | some following => some (.loading following none [] done)
        | none => some (.loaded done)
      else some (.loading current next done (pending.drop count))
    | _ => none

structure Session where
  call : Call
  reader : Reader

inductive SessionAct
  | write (act : StoreAct)
  | read (act : ReaderAct)

def sessionStep (store : Store) (session : Session) : SessionAct → Option (Store × Session)
  | .write act => (storeStep store session.call act).map fun (after, call) => (after, { session with call })
  | .read act => (readerStep store session.reader act).map fun reader => (store, { session with reader })

abbrev SessionWorld := World Store Session

def SessionWorld.start : SessionWorld := ⟨⟨.empty, []⟩, fun _ => ⟨.idle, .idle⟩⟩

section Committed

variable {store : Store} {db : Database} {n : Nat}

theorem Serially.committed {first final : Database} {history : List Success} (serial : Serially first history final) :
    (first :: history.map Success.after)[history.length]? = some final := by
  induction history generalizing first with
  | nil =>
    cases serial
    rfl
  | cons success rest ih => simpa using ih serial.2

theorem Store.Sound.committed_now (sound : store.Sound) : store.committed store.history.length = some store.db :=
  sound.serial.committed

theorem Serially.commits {first final : Database} {history : List Success} (serial : Serially first history final)
    {success : Success} (next : history[n]? = some success)
    (before : (first :: history.map Success.after)[n]? = some db) :
    (first :: history.map Success.after)[n + 1]? = some success.after ∧
      ∃ held, success.request.commit db success.supply = some (success.after, held) := by
  induction history generalizing first n with
  | nil => cases next
  | cons head rest ih =>
    cases n with
    | zero =>
      cases next
      cases before
      exact ⟨rfl, serial.1⟩
    | succ n => simpa using ih serial.2 (by simpa using next) (by simpa using before)

theorem Store.Sound.kept_between (sound : store.Sound) {β : Type} {view : Database → β} {keeps : Request → Prop}
    (kept : ∀ (db after : Database) (request : Request) (supply : Supply) (held : Option Flag), keeps request →
      request.commit db supply = some (after, held) → view after = view db)
    {m : Nat} (order : m ≤ n) {earlier later : Database} (first : store.committed m = some earlier)
    (second : store.committed n = some later)
    (between : ∀ success ∈ store.between m n, keeps success.request) : view later = view earlier := by
  replace between : ∀ i success, m ≤ i → i < n → store.history[i]? = some success → keeps success.request := by
    intro i success least less at_
    apply between
    rw [Store.between, List.mem_iff_getElem?]
    refine ⟨i - m, ?_⟩
    rw [List.getElem?_drop, Nat.add_sub_cancel' least, List.getElem?_take_of_lt less, at_]
  induction n, order using Nat.le_induction generalizing later with
  | base =>
    rw [first] at second
    cases second
    rfl
  | succ n order ih =>
    have inside : n < store.history.length := by
      obtain ⟨short, _⟩ := List.getElem?_eq_some_iff.mp second
      simpa [Store.states] using short
    have next : store.history[n]? = some store.history[n] := List.getElem?_eq_getElem inside
    obtain ⟨mid, before⟩ : ∃ mid, store.committed n = some mid := by
      apply Option.isSome_iff_exists.mp
      simp only [Store.committed, Store.states, isSome_getElem?, List.length_cons, List.length_map]
      omega
    obtain ⟨after, held, commits⟩ := sound.serial.commits next before
    rw [Store.committed, Store.states, after] at second
    cases second
    have last := kept _ _ _ _ _ (between n _ order (Nat.lt_succ_self n) next) commits
    exact last.trans (ih before fun i success least less => between i success least (Nat.lt_succ_of_lt less))

theorem Database.rulesOf_row {row : Flag} (stored : row ∈ db.flags) : db.rulesOf row.id = row.load.rules := by
  have found : (db.flags.find? fun other => other.id = row.id) = some row :=
    (find?_key_eq_some db.valid.idsDistinct).mpr ⟨stored, rfl⟩
  simp [Database.rulesOf, found, Flag.load]

theorem Database.variantsOf_row {row : Flag} (stored : row ∈ db.flags) : db.variantsOf row.id = row.load.variants := by
  have found : (db.flags.find? fun other => other.id = row.id) = some row :=
    (find?_key_eq_some db.valid.idsDistinct).mpr ⟨stored, rfl⟩
  simp [Database.variantsOf, found, Flag.load]

end Committed

/-! What the statements of one read have to do with each other. -/

structure Loading.RowRead (store : Store) (loading : Loading) : Prop where
  order : loading.rowAt ≤ store.history.length
  row : ∃ db, store.committed loading.rowAt = some db ∧ ∃ row ∈ db.flags, loading.flag.columns = row.columns

def Loading.Has (store : Store) (loading : Loading) : Collection → Prop
  | .rules => loading.rowAt ≤ loading.rulesAt ∧ loading.rulesAt ≤ store.history.length ∧
      ∃ db, store.committed loading.rulesAt = some db ∧ loading.flag.rules = db.rulesOf loading.flag.id
  | .variants => loading.rowAt ≤ loading.variantsAt ∧ loading.variantsAt ≤ store.history.length ∧
      ∃ db, store.committed loading.variantsAt = some db ∧ loading.flag.variants = db.variantsOf loading.flag.id

structure Loading.Read (store : Store) (loading : Loading) : Prop extends loading.RowRead store where
  rules : loading.Has store .rules
  variants : loading.Has store .variants

def Loading.Lacks (store : Store) (loading : Loading) (missing : Collection → Prop) : Prop :=
  loading.RowRead store ∧ ∀ collection, ¬ missing collection → loading.Has store collection

def Reader.Sound (store : Store) : Reader → Prop
  | .idle => True
  | .loading current next done pending =>
    (∀ loading ∈ done, loading.Lacks store fun collection => next = some collection) ∧
      ∀ loading ∈ pending, loading.Lacks store fun collection => collection = current ∨ next = some collection
  | .loaded flags => ∀ loading ∈ flags, loading.Read store

section Readers

variable {store : Store} {loading : Loading}

theorem Loading.RowRead.select (sound : store.Sound) {row : Flag} (stored : row ∈ store.db.flags) :
    (Loading.select store.history.length row).RowRead store :=
  ⟨le_refl _, store.db, sound.committed_now, row, stored, rfl⟩

theorem Loading.Lacks.read {missing : Collection → Prop} (lacks : loading.Lacks store missing)
    (all : ∀ collection, ¬ missing collection) : loading.Read store :=
  ⟨lacks.1, lacks.2 .rules (all .rules), lacks.2 .variants (all .variants)⟩

theorem Loading.Lacks.load (sound : store.Sound) {current : Collection} {missing : Collection → Prop}
    (lacks : loading.Lacks store fun collection => collection = current ∨ missing collection) :
    (loading.load store current).Lacks store missing := by
  obtain ⟨row, others⟩ := lacks
  cases current with
  | rules =>
    refine ⟨⟨row.order, row.row⟩, fun collection here => ?_⟩
    cases collection with
    | rules => exact ⟨row.order, le_rfl, store.db, sound.committed_now, rfl⟩
    | variants => exact others .variants (not_or.mpr ⟨by decide, here⟩)
  | variants =>
    refine ⟨⟨row.order, row.row⟩, fun collection here => ?_⟩
    cases collection with
    | rules => exact others .rules (not_or.mpr ⟨by decide, here⟩)
    | variants => exact ⟨row.order, le_rfl, store.db, sound.committed_now, rfl⟩

theorem Reader.Sound.begin (sound : store.Sound) (first : Collection) {rows : List Flag}
    (stored : ∀ row ∈ rows, row ∈ store.db.flags) : (Reader.begin store first rows).Sound store := by
  unfold Reader.begin
  split
  · intro loading none
    cases none
  · refine ⟨fun loading none => (by cases none), fun loading member => ?_⟩
    obtain ⟨row, read, rfl⟩ := List.mem_map.mp member
    refine ⟨.select sound (stored row read), fun collection here => ?_⟩
    cases first <;> cases collection <;> simp [Collection.other] at here

theorem Reader.Sound.flags {reader : Reader} (own : reader.Sound store) :
    ∀ loading ∈ reader.flags, loading.Read store := by
  cases reader with
  | loaded flags => exact own
  | _ => simp [Reader.flags]

theorem forall_mem_batch {done pending : List Loading} (count : Nat) {load : Loading → Loading}
    {before after : Loading → Prop} (loads : ∀ loading, before loading → after (load loading))
    (finished : ∀ loading ∈ done, after loading) (waiting : ∀ loading ∈ pending, before loading) :
    ∀ loading ∈ done ++ (pending.take count).map load, after loading := by
  intro loading member
  rcases List.mem_append.mp member with earlier | now
  · exact finished loading earlier
  · obtain ⟨taken, batch, rfl⟩ := List.mem_map.mp now
    exact loads taken (waiting taken (List.mem_of_mem_take batch))

theorem readerStep_sound {reader next : Reader} {act : ReaderAct} (sound : store.Sound) (own : reader.Sound store)
    (steps : readerStep store reader act = some next) : next.Sound store := by
  cases act with
  | get key first =>
    simp only [readerStep] at steps
    split at steps <;> cases steps
    refine .begin sound first fun row found => ?_
    exact (Database.row?_eq_some.mp (Option.mem_toList.mp found)).1
  | list first =>
    simp only [readerStep] at steps
    split at steps <;> cases steps
    exact .begin sound first fun row listed => mem_sortOn.mp listed
  | select count =>
    simp only [readerStep] at steps
    split at steps
    · rename_i current following done pending
      have batch := @forall_mem_batch done pending count (fun loading => loading.load store current) _ _
        (fun _ lacks => lacks.load sound) own.1 own.2
      split at steps
      · split at steps <;> cases steps
        · refine ⟨fun loading none => (by cases none), fun loading member => ?_⟩
          obtain ⟨row, others⟩ := batch loading member
          exact ⟨row, fun collection here => others collection fun same => here (.inl (Option.some.inj same).symm)⟩
        · exact fun loading member => (batch loading member).read fun collection same => by cases same
      · cases steps
        exact ⟨batch, fun loading member => own.2 loading (List.mem_of_mem_drop member)⟩
    · cases steps

theorem committed_of_prefix {before after : Store} (grows : before.history <+: after.history) {n : Nat} {db : Database}
    (reached : before.committed n = some db) : after.committed n = some db := by
  obtain ⟨later, history⟩ := grows
  have states : after.states = before.states ++ later.map Success.after := by simp [Store.states, ← history]
  obtain ⟨inside, _⟩ := List.getElem?_eq_some_iff.mp reached
  rw [Store.committed, states, List.getElem?_append_left inside]
  exact reached

theorem Loading.RowRead.grows {after : Store} (read : loading.RowRead store)
    (grows : store.history <+: after.history) : loading.RowRead after := by
  obtain ⟨db, reached, row⟩ := read.row
  exact ⟨read.order.trans grows.length_le, db, committed_of_prefix grows reached, row⟩

theorem Loading.Has.grows {after : Store} {collection : Collection} (has : loading.Has store collection)
    (grows : store.history <+: after.history) : loading.Has after collection := by
  cases collection <;>
  · obtain ⟨order, past, db, reached, part⟩ := has
    exact ⟨order, past.trans grows.length_le, db, committed_of_prefix grows reached, part⟩

theorem Loading.Read.grows {after : Store} (read : loading.Read store)
    (grows : store.history <+: after.history) : loading.Read after :=
  ⟨read.toRowRead.grows grows, read.rules.grows grows, read.variants.grows grows⟩

theorem Loading.Lacks.grows {after : Store} {missing : Collection → Prop} (lacks : loading.Lacks store missing)
    (grows : store.history <+: after.history) : loading.Lacks after missing :=
  ⟨lacks.1.grows grows, fun collection here => (lacks.2 collection here).grows grows⟩

theorem Reader.Sound.grows {after : Store} {reader : Reader} (own : reader.Sound store)
    (grows : store.history <+: after.history) : reader.Sound after := by
  cases reader with
  | idle => trivial
  | loading current next done pending =>
    exact ⟨fun loading member => (own.1 loading member).grows grows,
      fun loading member => (own.2 loading member).grows grows⟩
  | loaded flags => exact fun loading member => (own loading member).grows grows

theorem storeStep_history {after : Store} {call next : Call} {act : StoreAct}
    (steps : storeStep store call act = some (after, next)) : store.history <+: after.history := by
  cases storeStep_moves steps with
  | reads => exact List.prefix_refl _
  | commits => exact List.prefix_append _ _
  | fails => exact List.prefix_refl _

end Readers

section Runs

structure Session.Sound (store : Store) (session : Session) : Prop where
  call : session.call.Sound store
  reader : session.reader.Sound store

theorem sessionStep_sound {store after : Store} {session next : Session} {act : SessionAct} (sound : store.Sound)
    (own : session.Sound store) (steps : sessionStep store session act = some (after, next)) :
    after.Sound ∧ next.Sound after ∧ ∀ other : Session, other.Sound store → other.Sound after := by
  cases act with
  | write act =>
    obtain ⟨⟨committed, call⟩, writes, same⟩ := Option.map_eq_some_iff.mp steps
    cases same
    obtain ⟨soundAfter, callSound, grows⟩ := storeStep_sound sound own.call writes
    have history := storeStep_history writes
    exact ⟨soundAfter, ⟨callSound, own.reader.grows history⟩,
      fun other known => ⟨known.call.grows grows, known.reader.grows history⟩⟩
  | read act =>
    obtain ⟨reader, reads, same⟩ := Option.map_eq_some_iff.mp steps
    cases same
    exact ⟨sound, ⟨own.call, readerStep_sound sound own.reader reads⟩, fun _ other => other⟩

theorem SessionWorld.sound_of_run {world : SessionWorld} {acts : List (Nat × SessionAct)}
    (runs : run (World.act sessionStep) SessionWorld.start acts = some world) :
    world.shared.Sound ∧ ∀ who, (world.parties who).Sound world.shared := by
  refine run_invariant (fun world : SessionWorld =>
    world.shared.Sound ∧ ∀ who, (world.parties who).Sound world.shared) ?_ runs ?_
  · intro world ⟨who, act⟩ next ⟨sound, each⟩ acts
    apply World.act_invariant _ (fun store session => session.Sound store) acts each
    exact fun store session steps => sessionStep_sound sound (each who) steps
  · refine ⟨⟨rfl, rfl, fun key row stored => ?_⟩, fun _ => ⟨trivial, trivial⟩⟩
    cases stored

/-- What is loaded is the flag of one committed state, and is evaluated and serialised as such. -/
structure Loading.IsVersion (loading : Loading) (db : Database) : Prop where
  flag : getFlag db loading.flag.key = some loading.flag
  evaluated : ∀ userId context,
    evaluate (toSpec loading.flag) userId context = evaluateFlag db loading.flag.key userId context
  serialised : rowPayload db loading.flag.key = some (flagPayload loading.flag)

def Request.KeepsRules (key : Str) : Request → Prop
  | .update updated data _ => updated = key → data.rules.get? = none
  | request => request.key ≠ key

def Request.KeepsVariants (key : Str) : Request → Prop
  | .update updated data _ => updated = key → data.variants.get? = none
  | request => request.key ≠ key

instance (key : Str) : DecidablePred (Request.KeepsRules key)
  | .create data _ => inferInstanceAs (Decidable (data.key ≠ key))
  | .update updated data _ => inferInstanceAs (Decidable (updated = key → data.rules.get? = none))
  | .delete deleted _ => inferInstanceAs (Decidable (deleted ≠ key))

instance (key : Str) : DecidablePred (Request.KeepsVariants key)
  | .create data _ => inferInstanceAs (Decidable (data.key ≠ key))
  | .update updated data _ => inferInstanceAs (Decidable (updated = key → data.variants.get? = none))
  | .delete deleted _ => inferInstanceAs (Decidable (deleted ≠ key))

/-- No commit between its statements deletes the flag or replaces the rules or the variants that its read
    has still to load. -/
def Loading.Undisturbed (store : Store) (loading : Loading) : Prop :=
  (∀ success ∈ store.between loading.rowAt loading.rulesAt, success.request.KeepsRules loading.flag.key) ∧
    ∀ success ∈ store.between loading.rowAt loading.variantsAt, success.request.KeepsVariants loading.flag.key
  deriving Decidable

section Kept

variable {db after : Database} {request : Request} {supply : Supply} {held : Option Flag} {key : Str}

theorem getFlag_other (other : request.key ≠ key) (commits : request.commit db supply = some (after, held)) :
    getFlag after key = getFlag db key := by
  rw [getFlag, getFlag, (Request.commit_ok commits).others key other.symm]

theorem getFlag_update {data : FlagUpdate} {actor : Str}
    (commits : (Request.update key data actor).commit db supply = some (after, held)) :
    ∃ row : Flag, getFlag db key = some row.load ∧
      getFlag after key = some (patchedFlag supply row.load data).load := by
  cases Request.commit_cases commits with
  | @updated data actor held row updated stored =>
    refine ⟨row, getFlag_stored updated.stored rfl, ?_⟩
    rw [getFlag, stored, updated.holds, Option.map_some]

theorem getFlag_kept {β : Type} (part : Flag → β) {updated : Str} {data : FlagUpdate} {actor : Str}
    (unset : updated = key → ∀ row : Flag, part (patchedFlag supply row.load data).load = part row.load)
    (commits : (Request.update updated data actor).commit db supply = some (after, held)) :
    (getFlag after key).map part = (getFlag db key).map part := by
  by_cases same : updated = key
  · subst same
    obtain ⟨row, before, later⟩ := getFlag_update commits
    rw [before, later, Option.map_some, Option.map_some, unset rfl row]
  · have other : (Request.update updated data actor).key ≠ key := same
    rw [getFlag_other other commits]

theorem KeepsRules.kept (keeps : request.KeepsRules key) (commits : request.commit db supply = some (after, held)) :
    (getFlag after key).map (fun flag => (flag.id, flag.rules)) =
      (getFlag db key).map fun flag => (flag.id, flag.rules) := by
  cases request with
  | update updated data actor =>
    apply getFlag_kept _ _ commits
    intro same row
    have unset := keeps same
    simp [patchedFlag, assignCollections, assignFields, unset, Flag.load]
  | create => rw [getFlag_other keeps commits]
  | delete => rw [getFlag_other keeps commits]

theorem KeepsVariants.kept (keeps : request.KeepsVariants key)
    (commits : request.commit db supply = some (after, held)) :
    (getFlag after key).map (fun flag => (flag.id, flag.variants)) =
      (getFlag db key).map fun flag => (flag.id, flag.variants) := by
  cases request with
  | update updated data actor =>
    apply getFlag_kept _ _ commits
    intro same row
    have unset := keeps same
    simp [patchedFlag, assignCollections, assignFields, unset, Flag.load]
  | create => rw [getFlag_other keeps commits]
  | delete => rw [getFlag_other keeps commits]

theorem select_kept {β : Type} {first second : Database} {row : Flag} {part : Flag → β} {select : Nat → β}
    (selects : ∀ other ∈ second.flags, select other.id = part other.load)
    (kept : (getFlag second key).map (fun flag => (flag.id, part flag)) =
      (getFlag first key).map fun flag => (flag.id, part flag))
    (found : getFlag first key = some row.load) : select row.id = part row.load := by
  rw [found] at kept
  obtain ⟨flag, reads, same⟩ := Option.map_eq_some_iff.mp kept
  obtain ⟨other, member, _, _, rfl⟩ := getFlag_spec reads
  injection same with ids parts
  have sameId : other.id = row.id := ids
  rw [← sameId, selects other member, parts]

end Kept

theorem Loading.Read.isVersion {store : Store} {loading : Loading} (sound : store.Sound) (read : loading.Read store)
    (undisturbed : loading.Undisturbed store) :
    ∃ db, store.committed loading.rowAt = some db ∧ loading.IsVersion db := by
  obtain ⟨first, rowAt, row, stored, columns⟩ := read.row
  obtain ⟨rulesOrder, _, second, rulesAt, rules⟩ := read.rules
  obtain ⟨variantsOrder, _, third, variantsAt, variants⟩ := read.variants
  have key : loading.flag.key = row.key := by simpa [Flag.columns] using congrArg Flag.key columns
  have id : loading.flag.id = row.id := by simpa [Flag.columns] using congrArg Flag.id columns
  have found := getFlag_stored stored key.symm
  have sameRules : second.rulesOf row.id = row.load.rules := by
    have kept := sound.kept_between (fun _ _ _ _ _ => KeepsRules.kept) rulesOrder rowAt rulesAt
      undisturbed.1
    exact select_kept (fun _ member => Database.rulesOf_row member) kept found
  have sameVariants : third.variantsOf row.id = row.load.variants := by
    have kept := sound.kept_between (fun _ _ _ _ _ => KeepsVariants.kept) variantsOrder rowAt variantsAt
      undisturbed.2
    exact select_kept (fun _ member => Database.variantsOf_row member) kept found
  have whole : row.load = loading.flag := by
    calc
      row.load = { row.columns with rules := row.load.rules, variants := row.load.variants } := rfl
      _ = { loading.flag.columns with rules := loading.flag.rules, variants := loading.flag.variants } := by
        rw [columns, rules, variants, id, sameRules, sameVariants]
      _ = loading.flag := rfl
  rw [whole] at found
  refine ⟨first, rowAt, found, fun userId context => ?_, ?_⟩
  · rw [evaluateFlag, found]
  · rw [rowPayload, found, Option.map_some]

/-- The columns, the rules and the variants that a read loads are each of one committed state, the columns' being
    the earliest, and of one and the same if no commit disturbs the read. -/
theorem loaded_flags_committed {world : SessionWorld} {acts : List (Nat × SessionAct)}
    (runs : run (World.act sessionStep) SessionWorld.start acts = some world) (who : Nat) :
    ∀ loading ∈ (world.parties who).reader.flags, loading.Read world.shared ∧
      (loading.Undisturbed world.shared →
        ∃ db, world.shared.committed loading.rowAt = some db ∧ loading.IsVersion db) := by
  obtain ⟨sound, each⟩ := SessionWorld.sound_of_run runs
  intro loading member
  have read := (each who).reader.flags loading member
  exact ⟨read, read.isVersion sound⟩

def launchCreate : FlagCreate := ⟨{ key := str "launch", name := str "Launch", enabled := true }, by decide +kernel⟩

/-- Switches the flag off and, for when it is on again, lets one plan in. -/
def launchStop : FlagUpdate :=
  ⟨{ enabled := .value false,
     rules := .value [{ attr := str "plan", operator := .eq, values := [str "pro"] }], version := 1 },
    by decide +kernel⟩

def launchContext : Context := AList.singleton (str "plan") (str "pro")

def launched : List (Nat × SessionAct) :=
  [(0, .write (.read (.create launchCreate (str "ops")))), (0, .write (.commit (supplyOf 1)))]

def stopped : List (Nat × SessionAct) :=
  [(1, .write (.read (.update (str "launch") launchStop (str "ops")))), (1, .write (.commit (supplyOf 2)))]

def launchRename : FlagUpdate := ⟨{ name := .value (str "Launch day"), version := 1 }, by decide +kernel⟩

def renamed : List (Nat × SessionAct) :=
  [(1, .write (.read (.update (str "launch") launchRename (str "ops")))), (1, .write (.commit (supplyOf 2)))]

def calmRead : List (Nat × SessionAct) :=
  launched ++ [(2, .read (.list .variants))] ++ renamed ++ [(2, .read (.select 500)), (2, .read (.select 500))]

theorem loaded_flags_committed_launch :
    ∃ world : SessionWorld, run (World.act sessionStep) SessionWorld.start calmRead = some world ∧
      ∃ loading ∈ (world.parties 2).reader.flags,
        (loading.rowAt < loading.variantsAt ∧ loading.rowAt < loading.rulesAt) ∧ loading.Read world.shared ∧
        ∃ db, world.shared.committed loading.rowAt = some db ∧ loading.IsVersion db := by
  obtain ⟨world, runs, loading, member, later, undisturbed⟩ := run_reaches (World.act sessionStep)
    SessionWorld.start calmRead (fun world => ∃ loading ∈ (world.parties 2).reader.flags,
      (loading.rowAt < loading.variantsAt ∧ loading.rowAt < loading.rulesAt) ∧ loading.Undisturbed world.shared)
    (by decide +kernel)
  obtain ⟨read, version⟩ := loaded_flags_committed runs 2 loading member
  exact ⟨world, runs, loading, member, later, read, version undisturbed⟩

/-- The update commits after the row is read and before its variants and its rules are. -/
def tornRead : List (Nat × SessionAct) :=
  launched ++ [(2, .read (.get (str "launch") .variants))] ++ stopped ++
    [(2, .read (.select 1)), (2, .read (.select 1))]

/-- The kill switch was thrown in the commit that added the rule, and the user is let in by the rule. -/
theorem torn_evaluation :
    ∃ world : SessionWorld, run (World.act sessionStep) SessionWorld.start tornRead = some world ∧
      ∃ loading ∈ (world.parties 2).reader.flags, ∀ db ∈ world.shared.states,
        evaluate (toSpec loading.flag) (str "ada") (some launchContext) ≠
            evaluateFlag db (str "launch") (str "ada") (some launchContext) ∧
          rowPayload db (str "launch") ≠ some (flagPayload loading.flag) :=
  run_reaches (World.act sessionStep) SessionWorld.start tornRead _ (by decide +kernel)

end Runs

end Ripcord
