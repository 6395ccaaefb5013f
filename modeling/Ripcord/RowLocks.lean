import Ripcord.Foundation.Transition
import Ripcord.Requests
import Ripcord.RulePriority
import Mathlib.Data.Prod.Lex

namespace Ripcord

open Foundation

inductive Row
  | rule (flagId id : Nat)
  | variant (flagId id : Nat)
  | flag (id : Nat)
  deriving DecidableEq

/-- A deletion's statements: its rules, its variants and last the flag, each by primary key. -/
def Row.place : Row → ℕ ×ₗ ℕ ×ₗ ℕ
  | .rule flagId id => toLex (0, toLex (flagId, id))
  | .variant flagId id => toLex (1, toLex (flagId, id))
  | .flag id => toLex (2, toLex (id, 0))

theorem Row.place_injective : Function.Injective Row.place := by
  intro a b same
  cases a <;> cases b <;> simp_all [Row.place]

def Flag.ruleRows (flag : Flag) : List Row := flag.rules.map fun rule => .rule flag.id rule.id

def Flag.variantRows (flag : Flag) : List Row := flag.variants.map fun v => .variant flag.id v.id

/-- Without passive deletes the session deletes the loaded children, then the flag. -/
def deleteRows (flag : Flag) : List Row :=
  sortOn Row.place (flag.ruleRows ++ flag.variantRows) ++ [.flag flag.id]

/-- The child rows an update may write: the rules that it replaces are deleted, and of the variants that it
    merges some are updated and some deleted. -/
def touchedRows (flag : Flag) (data : FlagUpdate) : List Row :=
  (if data.rules.get? = none then [] else flag.ruleRows) ++
    if data.variants.get? = none then [] else flag.variantRows

/-- A transaction that has loaded its flag: the row locks it holds, and the rows its statements have still to
    lock, in their order. -/
structure Tx where
  request : Request
  read : Flag
  held : List Row
  todo : List Row

def Tx.updates (tx : Tx) : Bool := tx.request.action = .updated

/-- The committed database and the transactions on it; one that has ended leaves its place empty. -/
structure LockState where
  db : Database
  txs : List (Option Tx)

def LockState.start (db : Database) : LockState := ⟨db, []⟩

def LockState.tx? (state : LockState) (i : Nat) : Option Tx := state.txs[i]?.join

def LockState.put (state : LockState) (i : Nat) (tx : Option Tx) : LockState :=
  { state with txs := state.txs.set i tx }

/-- The row is there for a statement to match; the flag's row is matched at the version read. -/
def Database.hasRow (db : Database) (read : Flag) : Row → Bool
  | .rule flagId id => db.flags.any fun row => row.id = flagId ∧ id ∈ row.rules.map TargetingRule.id
  | .variant flagId id => db.flags.any fun row => row.id = flagId ∧ id ∈ row.variants.map Variant.id
  | .flag _ => (db.guarded? read).isSome

def LockState.Free (state : LockState) (i : Nat) (row : Row) : Prop :=
  ∀ j < state.txs.length, j ≠ i → ∀ other ∈ state.tx? j, row ∉ other.held

instance (state : LockState) (i : Nat) (row : Row) : Decidable (state.Free i row) :=
  inferInstanceAs (Decidable (∀ j < state.txs.length, j ≠ i → ∀ other ∈ state.tx? j, row ∉ other.held))

/-- The rows of an update that passes its checks, the flag's first, or of a deletion. -/
def lockOrder (flag : Flag) (children : List Row) : Request → Option (List Row)
  | .update _ data _ =>
    if flag.version = data.version ∧ checkReferences flag data = .ok () ∧
        ∀ row ∈ children, row ∈ touchedRows flag data then
      some (.flag flag.id :: children)
    else none
  | .delete .. => some (deleteRows flag)
  | .create .. => none

inductive LockAct
  /-- A transaction loads its flag; `children` are the child rows that an update will write, in its order. -/
  | begin (request : Request) (children : List Row)
  | lock (i : Nat)
  | commit (i : Nat) (supply : Supply)
  | rollback (i : Nat)

def lockStep (state : LockState) : LockAct → Option LockState
  | .begin request children =>
    match request.read state.db with
    | none => none
    | some flag =>
      (lockOrder flag children request).map fun todo =>
        { state with txs := state.txs ++ [some ⟨request, flag, [], todo⟩] }
  | .lock i =>
    match state.tx? i with
    | none => none
    | some tx =>
      match tx.todo with
      | [] => none
      | row :: rest =>
        if ¬ state.Free i row then none
        else if state.db.hasRow tx.read row then
          some (state.put i (some { tx with held := row :: tx.held, todo := rest }))
        else if row = .flag tx.read.id then some (state.put i none)
        else some (state.put i (some { tx with todo := rest }))
  | .commit i supply =>
    match state.tx? i with
    | none => none
    | some tx =>
      if tx.todo ≠ [] then none
      else
        match tx.request.commitFrom (some tx.read) state.db supply with
        | some (after, _) => some { state.put i none with db := after }
        | none => some (state.put i none)
  | .rollback i => if (state.tx? i).isSome then some (state.put i none) else none

def LockState.Waits (state : LockState) (i j : Nat) : Prop :=
  i ≠ j ∧ ∃ tx ∈ state.tx? i, ∃ row ∈ tx.todo.head?, ∃ other ∈ state.tx? j, row ∈ other.held

instance (state : LockState) (i j : Nat) : Decidable (state.Waits i j) :=
  inferInstanceAs (Decidable (i ≠ j ∧ ∃ tx ∈ state.tx? i, ∃ row ∈ tx.todo.head?, ∃ other ∈ state.tx? j,
    row ∈ other.held))

/-- The transaction's next lock crosses no lock of the other: an update does not lock its flag while the other
    holds a child row that it will write, and no row is locked that an update holding its flag has still to
    write. -/
def Tx.KeepsClear (tx other : Tx) : Prop :=
  (tx.updates → tx.held = [] → ∀ row ∈ tx.todo.tail, row ∉ other.held) ∧
    (other.updates → other.held ≠ [] → ∀ row ∈ tx.todo.head?, row ∉ other.todo)
  deriving Decidable

def LocksClear (state : LockState) : LockAct → Prop
  | .lock i => ∀ j < state.txs.length, j ≠ i → ∀ tx ∈ state.tx? i, ∀ other ∈ state.tx? j, tx.KeepsClear other
  | _ => True

instance (state : LockState) : DecidablePred (LocksClear state)
  | .lock i => inferInstanceAs (Decidable (∀ j < state.txs.length, j ≠ i → ∀ tx ∈ state.tx? i,
      ∀ other ∈ state.tx? j, tx.KeepsClear other))
  | .begin .. | .commit .. | .rollback _ => inferInstanceAs (Decidable True)

def Tx.Ordered (tx : Tx) : Prop :=
  tx.updates = false → (tx.todo.Pairwise fun a b => a.place ≤ b.place) ∧
    ∀ row ∈ tx.held, ∀ next ∈ tx.todo, row.place ≤ next.place

structure Tx.Compatible (tx other : Tx) : Prop where
  exclusive : ∀ row ∈ tx.held, row ∉ other.held
  unwaiting : tx.updates → tx.held ≠ [] → ∀ row ∈ tx.todo, row ∉ other.held

structure LockState.Sound (state : LockState) : Prop where
  ordered : ∀ i tx, state.tx? i = some tx → tx.Ordered
  compatible : ∀ i j tx other, i ≠ j → state.tx? i = some tx → state.tx? j = some other → tx.Compatible other

section Places

variable {state after : LockState} {i : Nat}

theorem tx?_lt {tx : Tx} (here : state.tx? i = some tx) : i < state.txs.length := by
  obtain ⟨inside, _⟩ := List.getElem?_eq_some_iff.mp (Option.join_eq_some_iff.mp here)
  exact inside

theorem tx?_put {tx : Tx} (here : state.tx? i = some tx) (next : Option Tx) (j : Nat) :
    (state.put i next).tx? j = if j = i then next else state.tx? j := by
  have inside := tx?_lt here
  by_cases same : j = i
  · subst same
    simp [LockState.tx?, LockState.put, inside]
  · simp [LockState.tx?, LockState.put, same, List.getElem?_set_ne (Ne.symm same)]

theorem tx?_append (tx : Tx) (j : Nat) :
    LockState.tx? { state with txs := state.txs ++ [some tx] } j =
      if j = state.txs.length then some tx else state.tx? j := by
  by_cases same : j = state.txs.length
  · subst same
    simp [LockState.tx?]
  · by_cases inside : j < state.txs.length
    · simp [LockState.tx?, same, List.getElem?_append_left inside]
    · have beyond : (state.txs ++ [some tx]).length ≤ j := by
        rw [List.length_append, List.length_singleton]
        omega
      simp only [LockState.tx?, if_neg same, List.getElem?_eq_none beyond, List.getElem?_eq_none (not_lt.mp inside)]

theorem LockState.Sound.place (sound : state.Sound) {next : Option Tx}
    (places : ∀ j, after.tx? j = if j = i then next else state.tx? j) (ordered : ∀ tx ∈ next, tx.Ordered)
    (fits : ∀ tx ∈ next, ∀ j other, j ≠ i → state.tx? j = some other →
      tx.Compatible other ∧ other.Compatible tx) : after.Sound := by
  constructor
  · intro j tx here
    rw [places] at here
    split at here
    · exact ordered tx here
    · exact sound.ordered j tx here
  · intro j k tx other apart here there
    rw [places] at here there
    split at here
    · rename_i first
      subst first
      rw [if_neg apart.symm] at there
      exact (fits tx here k other apart.symm there).1
    · rename_i different
      split at there
      · exact (fits other there j tx different here).2
      · exact sound.compatible j k tx other apart here there

end Places

section Steps

variable {state after : LockState} {i : Nat}

theorem LockState.Sound.ends (sound : state.Sound) {tx : Tx} (here : state.tx? i = some tx) :
    (state.put i none).Sound :=
  sound.place (tx?_put here none) (fun _ none => by cases none) fun _ none => by cases none

theorem deleteRows_ordered (flag : Flag) : (deleteRows flag).Pairwise fun a b => a.place ≤ b.place := by
  refine List.pairwise_append.mpr ⟨sortOn_pairwise _ _, List.pairwise_singleton _ _, ?_⟩
  intro child member last only
  rw [List.mem_singleton.mp only]
  have kinds : child.place.1 < (Row.flag flag.id).place.1 := by
    rcases List.mem_append.mp (mem_sortOn.mp member) with rule | variant
    · obtain ⟨_, _, rfl⟩ := List.mem_map.mp rule
      exact Nat.zero_lt_two
    · obtain ⟨_, _, rfl⟩ := List.mem_map.mp variant
      exact Nat.one_lt_two
  exact (Prod.Lex.lt_iff.mpr (.inl kinds)).le

theorem LockState.Sound.begin (sound : state.Sound) {request : Request} {flag : Flag} {children todo : List Row}
    (order : lockOrder flag children request = some todo) :
    LockState.Sound { state with txs := state.txs ++ [some ⟨request, flag, [], todo⟩] } := by
  refine sound.place (tx?_append _) (fun tx new => ?_) fun tx new j other _ _ => ?_
  · cases new
    intro deletes
    cases request with
    | create => cases order
    | update => cases deletes
    | delete =>
      cases order
      exact ⟨deleteRows_ordered flag, fun row none => (by cases none)⟩
  · cases new
    exact ⟨⟨fun row none => (by cases none), fun _ some => absurd rfl some⟩,
      fun row _ none => (by cases none), fun _ _ row _ none => (by cases none)⟩

theorem LockState.Sound.skip (sound : state.Sound) {tx : Tx} {row : Row} {rest : List Row}
    (here : state.tx? i = some tx) (todo : tx.todo = row :: rest) :
    (state.put i (some { tx with todo := rest })).Sound := by
  have fewer : ∀ next ∈ rest, next ∈ tx.todo := fun next member => todo ▸ List.mem_cons_of_mem _ member
  refine sound.place (tx?_put here _) (fun next new => ?_) fun next new j other apart there => ?_
  · cases new
    intro deletes
    obtain ⟨sorted, below⟩ := sound.ordered i tx here deletes
    rw [todo] at sorted
    exact ⟨(List.pairwise_cons.mp sorted).2, fun held member next later => below held member next (fewer next later)⟩
  · cases new
    have mine := sound.compatible i j tx other apart.symm here there
    have its := sound.compatible j i other tx apart there here
    exact ⟨⟨mine.exclusive, fun updates holds next later => mine.unwaiting updates holds next (fewer next later)⟩,
      its.exclusive, its.unwaiting⟩

theorem LockState.Sound.lock (sound : state.Sound) {tx : Tx} {row : Row} {rest : List Row}
    (here : state.tx? i = some tx) (todo : tx.todo = row :: rest) (free : state.Free i row)
    (clear : LocksClear state (.lock i)) :
    (state.put i (some { tx with held := row :: tx.held, todo := rest })).Sound := by
  have fewer : ∀ next ∈ rest, next ∈ tx.todo := fun next member => todo ▸ List.mem_cons_of_mem _ member
  refine sound.place (tx?_put here _) (fun next new => ?_) fun next new j other apart there => ?_
  · cases new
    intro deletes
    obtain ⟨sorted, below⟩ := sound.ordered i tx here deletes
    rw [todo] at sorted
    obtain ⟨first, sorted⟩ := List.pairwise_cons.mp sorted
    refine ⟨sorted, fun held member next later => ?_⟩
    rcases List.mem_cons.mp member with rfl | member
    · exact first next later
    · exact below held member next (fewer next later)
  · cases new
    have unlocked : row ∉ other.held := free j (tx?_lt there) apart other there
    obtain ⟨crossing, crossed⟩ := clear j (tx?_lt there) apart tx here other there
    have mine := sound.compatible i j tx other apart.symm here there
    have its := sound.compatible j i other tx apart there here
    refine ⟨⟨fun held member => ?_, fun updates _ next later => ?_⟩, fun held member => ?_,
      fun updates holds next later => ?_⟩
    · rcases List.mem_cons.mp member with rfl | member
      · exact unlocked
      · exact mine.exclusive held member
    · by_cases first : tx.held = []
      · exact crossing updates first next (by simpa [todo] using later)
      · exact mine.unwaiting updates first next (fewer next later)
    · intro locked
      rcases List.mem_cons.mp locked with rfl | locked
      · exact unlocked member
      · exact its.exclusive held member locked
    · intro locked
      rcases List.mem_cons.mp locked with rfl | locked
      · exact crossed updates holds next (by simp [todo]) later
      · exact its.unwaiting updates holds next later locked

theorem lockStep_sound {action : LockAct} (sound : state.Sound) (clear : LocksClear state action)
    (steps : lockStep state action = some after) : after.Sound := by
  cases action with
  | begin request children =>
    simp only [lockStep] at steps
    split at steps
    · cases steps
    · obtain ⟨todo, order, rfl⟩ := Option.map_eq_some_iff.mp steps
      exact sound.begin order
  | lock i =>
    simp only [lockStep] at steps
    split at steps
    · cases steps
    · rename_i tx here
      split at steps
      · cases steps
      · rename_i row rest todo
        split at steps
        · cases steps
        · rename_i free
          split at steps
          · cases steps
            exact sound.lock here todo (not_not.mp free) clear
          · split at steps <;> cases steps
            · exact sound.ends here
            · exact sound.skip here todo
  | commit i supply =>
    simp only [lockStep] at steps
    split at steps
    · cases steps
    · rename_i tx here
      split at steps
      · cases steps
      · have ended := sound.ends here
        split at steps <;> cases steps
        · exact ⟨ended.ordered, ended.compatible⟩
        · exact ended
  | rollback i =>
    simp only [lockStep] at steps
    split at steps <;> cases steps
    rename_i running
    obtain ⟨tx, here⟩ := Option.isSome_iff_exists.mp running
    exact sound.ends here

def LockState.rank (state : LockState) (i : Nat) : ℕ ×ₗ ℕ ×ₗ ℕ :=
  ((state.tx? i).bind fun tx => tx.todo.head?).elim (toLex (0, toLex (0, 0))) Row.place

/-- Only deletions are waited for by what waits itself, and they wait for ever later rows. -/
theorem LockState.Sound.not_deadlocked (sound : state.Sound) : ¬ Deadlocked state.Waits := by
  apply not_deadlocked_of_rank state.rank
  intro i j k ⟨_, tx, here, row, next, other, there, held⟩ ⟨apart, same, again, row', next', last, beyond, held'⟩
  obtain rfl : other = same := Option.some.inj (there.symm.trans again)
  have compatible := sound.compatible j k other last apart there beyond
  have pending := List.mem_of_head? next'
  have deletes : other.updates = false := by
    by_contra updates
    have holds : other.held ≠ [] := List.ne_nil_of_mem held
    exact compatible.unwaiting (by simpa using updates) holds row' pending held'
  have different : row ≠ row' := by
    intro equal
    subst equal
    exact compatible.exclusive row held held'
  have rising := (sound.ordered j other there deletes).2 row held row' pending
  have less : row.place < row'.place := lt_of_le_of_ne rising fun equal => different (Row.place_injective equal)
  have first : state.rank i = row.place := by simp [LockState.rank, Option.mem_def.mp here, Option.mem_def.mp next]
  have second : state.rank j = row'.place := by simp [LockState.rank, Option.mem_def.mp there, Option.mem_def.mp next']
  rw [first, second]
  exact less

end Steps

/-- While no lock crosses another no transactions wait for each other in a cycle. -/
theorem never_deadlocked {db : Database} {state : LockState} {acts : List LockAct}
    (runs : RunWhere lockStep LocksClear (LockState.start db) acts state) : ¬ Deadlocked state.Waits := by
  have sound : state.Sound := by
    refine runs.invariant LockState.Sound (fun _ _ _ clear sound steps => lockStep_sound sound clear steps) ?_
    exact ⟨fun i tx none => by simp [LockState.tx?, LockState.start] at none,
      fun i j tx other _ none => by simp [LockState.tx?, LockState.start] at none⟩
  exact sound.not_deadlocked

def replaceRules : LockAct := .begin (.update (str "banner") bannerUpdate (str "ops")) [.rule 7 1]

def deleteBanner : LockAct := .begin (.delete (str "banner") (str "ops")) []

def clearLocks : List LockAct := [replaceRules, deleteBanner, .lock 0, .lock 0]

theorem never_deadlocked_banner :
    ∃ state, RunWhere lockStep LocksClear (LockState.start bannerDatabase) clearLocks state ∧ state.Waits 1 0 ∧
      ¬ Deadlocked state.Waits := by
  obtain ⟨state, runs, waits⟩ := runWhere_reaches lockStep LocksClear (LockState.start bannerDatabase) clearLocks
    (fun state => state.Waits 1 0) (by decide +kernel)
  exact ⟨state, runs, waits, never_deadlocked runs⟩

def crossingLocks : List LockAct := [replaceRules, deleteBanner, .lock 0, .lock 1, .lock 1, .lock 1]

theorem crossingLocks_deadlock :
    ∃ state, run lockStep (LockState.start bannerDatabase) crossingLocks = some state ∧ Deadlocked state.Waits := by
  obtain ⟨state, runs, update, deletion⟩ := run_reaches lockStep (LockState.start bannerDatabase) crossingLocks
    (fun state => state.Waits 0 1 ∧ state.Waits 1 0) (by decide +kernel)
  exact ⟨state, runs, 0, .tail (.single update) deletion⟩

end Ripcord
