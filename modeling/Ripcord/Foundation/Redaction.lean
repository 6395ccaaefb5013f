import Mathlib.Data.List.Basic
import Mathlib.Data.List.Infix

namespace Foundation

/-! Replacing the runs that follow a keyword, as a substitution of `(key)[run]+` does. A text may carry more
than its characters, such as a tag on each; `code` reads the characters. -/

section Definitions

variable {α β : Type*} [DecidableEq β] (code : α → β) (key : List β) (inRun : β → Bool) (mark : List α)

def startsMatch (text : List β) : Bool := key.isPrefixOf text && (text.drop key.length).head?.any inRun

theorem dropWhile_lt_of_startsMatch {text : List α} (starts : startsMatch key inRun (text.map code)) :
    ((text.drop key.length).dropWhile fun c => inRun (code c)).length < text.length := by
  rw [startsMatch, Bool.and_eq_true, ← List.map_drop] at starts
  cases later : text.drop key.length with
  | nil => simp [later] at starts
  | cons c rest =>
    have first : inRun (code c) := by simpa [later] using starts.2
    have shorter : (text.drop key.length).length ≤ text.length := by simp
    rw [later, List.length_cons] at shorter
    rw [List.dropWhile_cons_of_pos (p := fun c => inRun (code c)) first]
    have within := (rest.dropWhile_sublist fun c => inRun (code c)).length_le
    omega

/-- The leftmost match first; behind it the search goes on at the end of its run. -/
def redact (text : List α) : List α :=
  match text with
  | [] => []
  | c :: rest =>
    if _starts : startsMatch key inRun ((c :: rest).map code) then
      (c :: rest).take key.length ++ mark ++ redact (((c :: rest).drop key.length).dropWhile fun c => inRun (code c))
    else c :: redact rest
termination_by text.length
decreasing_by
  · exact dropWhile_lt_of_startsMatch code key inRun _starts
  · simp

/-- The same from left to right: `seen` is what has been read, the last of it first, and `inside` tells
    whether a run is being left out. -/
def scan : List β → Bool → List α → List α
  | _, _, [] => []
  | seen, true, c :: rest =>
    if inRun (code c) then scan (code c :: seen) true rest else c :: scan (code c :: seen) false rest
  | seen, false, c :: rest =>
    if inRun (code c) && key.reverse.isPrefixOf seen then mark ++ scan (code c :: seen) true rest
    else c :: scan (code c :: seen) false rest

def insideAfter : List β → Bool → List β → Bool
  | _, inside, [] => inside
  | seen, true, c :: rest => insideAfter (c :: seen) (inRun c) rest
  | seen, false, c :: rest => insideAfter (c :: seen) (inRun c && key.reverse.isPrefixOf seen) rest

end Definitions

section Scanning

variable {α β : Type*} [DecidableEq β] {code : α → β} {key : List β} {inRun : β → Bool} {mark : List α}

/-- No match that is still to be completed has begun in what has been read. -/
def Fresh (key : List β) (inRun : β → Bool) (seen text : List β) : Prop :=
  ∀ x, x ≠ [] → x.length ≤ key.length → x <:+ seen.reverse → startsMatch key inRun (x ++ text) = false

theorem startsMatch_iff {text : List β} :
    startsMatch key inRun text = true ↔ ∃ c rest, text = key ++ c :: rest ∧ inRun c = true := by
  rw [startsMatch, Bool.and_eq_true, List.isPrefixOf_iff_prefix]
  constructor
  · rintro ⟨⟨rest, rfl⟩, first⟩
    rw [List.drop_left] at first
    cases rest with
    | nil => simp at first
    | cons c rest => exact ⟨c, rest, rfl, by simpa using first⟩
  · rintro ⟨c, rest, rfl, first⟩
    exact ⟨List.prefix_append _ _, by simpa using first⟩

theorem prefix_reverse_iff {seen : List β} : key.reverse.isPrefixOf seen = true ↔ key <:+ seen.reverse := by
  rw [List.isPrefixOf_iff_prefix, ← List.reverse_suffix, List.reverse_reverse]

theorem Fresh.not_fires {seen : List β} {c : β} {rest : List β} (given : key ≠ [])
    (fresh : Fresh key inRun seen (c :: rest)) :
    (inRun c && key.reverse.isPrefixOf seen) = false := by
  by_contra fires
  rw [Bool.not_eq_false, Bool.and_eq_true, prefix_reverse_iff] at fires
  have matched := fresh key given le_rfl fires.2
  rw [startsMatch_iff.mpr ⟨c, rest, rfl, fires.1⟩] at matched
  cases matched

theorem Fresh.cons {seen : List β} {c : β} {rest : List β} (fresh : Fresh key inRun seen (c :: rest))
    (here : startsMatch key inRun (c :: rest) = false) : Fresh key inRun (c :: seen) rest := by
  intro x long short ends
  rw [List.reverse_cons, List.suffix_concat_iff] at ends
  rcases ends with rfl | ⟨x, rfl, earlier⟩
  · exact absurd rfl long
  · rw [List.append_assoc, List.singleton_append]
    by_cases empty : x = []
    · rwa [empty, List.nil_append]
    · have shorter : x.length ≤ key.length := by
        rw [List.length_append, List.length_singleton] at short
        omega
      exact fresh x empty shorter earlier

theorem Fresh.stop (within : ∀ c ∈ key, inRun c) {c : β} (stops : inRun c = false) (seen text : List β) :
    Fresh key inRun (c :: seen) text := by
  intro x long short ends
  rw [List.reverse_cons, List.suffix_concat_iff] at ends
  rcases ends with rfl | ⟨x, rfl, _⟩
  · exact absurd rfl long
  · by_contra starts
    rw [Bool.not_eq_false, startsMatch_iff] at starts
    obtain ⟨first, rest, whole, _⟩ := starts
    have front : x ++ [c] <+: x ++ [c] ++ text := List.prefix_append _ _
    have keyFirst : key <+: x ++ [c] ++ text := by
      rw [whole]
      exact List.prefix_append _ _
    have inKey : x ++ [c] <+: key := List.prefix_of_prefix_length_le front keyFirst short
    have member : c ∈ key := inKey.subset (by simp)
    rw [within c member] at stops
    cases stops

theorem redact_cons_of_not {c : α} {rest : List α} (no : startsMatch key inRun ((c :: rest).map code) = false) :
    redact code key inRun mark (c :: rest) = c :: redact code key inRun mark rest := by
  rw [redact, dif_neg (Bool.not_eq_true _ ▸ no)]

theorem startsMatch_false_of_stop (given : key ≠ []) (within : ∀ c ∈ key, inRun c) {c : β} (stops : inRun c = false)
    (rest : List β) : startsMatch key inRun (c :: rest) = false := by
  by_contra starts
  rw [Bool.not_eq_false, startsMatch_iff] at starts
  obtain ⟨_, _, whole, _⟩ := starts
  obtain ⟨first, others, rfl⟩ := List.exists_cons_of_ne_nil given
  cases whole
  rw [within c List.mem_cons_self] at stops
  cases stops

theorem scan_inside (given : key ≠ []) (within : ∀ c ∈ key, inRun c) {text : List α}
    (agrees : ∀ seen rest, rest.length < text.length → Fresh key inRun seen (rest.map code) →
      scan code key inRun mark seen false rest = redact code key inRun mark rest) (seen : List β) :
    scan code key inRun mark seen true text =
      redact code key inRun mark (text.dropWhile fun c => inRun (code c)) := by
  induction text generalizing seen with
  | nil => rw [scan, List.dropWhile_nil, redact]
  | cons c rest ih =>
    cases here : inRun (code c) with
    | true =>
      rw [scan, if_pos here, List.dropWhile_cons_of_pos (p := fun c => inRun (code c)) here]
      exact ih (fun seen shorter less => agrees seen shorter (less.trans (by simp))) _
    | false =>
      have stops := startsMatch_false_of_stop given within here (rest.map code)
      have later := agrees (code c :: seen) rest (by simp) (Fresh.stop within here _ _)
      rw [scan, if_neg (by simp [here]), later, List.dropWhile_cons_of_neg (by simp [here]), redact_cons_of_not stops]

theorem scan_through {seen : List β} {t : List α} (rest : List α)
    (quiet : ∀ t₁ c t₂, t = t₁ ++ c :: t₂ →
      (inRun (code c) && key.reverse.isPrefixOf ((t₁.map code).reverse ++ seen)) = false) :
    scan code key inRun mark seen false (t ++ rest) =
      t ++ scan code key inRun mark ((t.map code).reverse ++ seen) false rest := by
  induction t generalizing seen with
  | nil => rfl
  | cons c t ih =>
    have here := quiet [] c t rfl
    have later := @ih (code c :: seen) (by
      rintro t₁ d t₂ rfl
      simpa using quiet (c :: t₁) d t₂ rfl)
    simp only [List.map_nil, List.reverse_nil, List.nil_append] at here
    rw [List.cons_append, scan, if_neg (by simp [here]), later]
    simp

theorem Fresh.quiet {seen : List β} {t : List α} {c : α} {rest : List α}
    (fresh : Fresh key inRun seen ((t ++ c :: rest).map code)) (named : t.map code = key) :
    ∀ t₁ d t₂, t = t₁ ++ d :: t₂ →
      (inRun (code d) && key.reverse.isPrefixOf ((t₁.map code).reverse ++ seen)) = false := by
  rintro t₁ d t₂ rfl
  by_contra fires
  rw [Bool.not_eq_false, Bool.and_eq_true, prefix_reverse_iff, List.reverse_append, List.reverse_reverse] at fires
  obtain ⟨first, y, ends⟩ := fires
  -- the key would have begun in what was read before
  have longer : (t₁.map code).length < key.length := by
    rw [← named]
    simp
  have behind : t₁.map code <:+ seen.reverse ++ t₁.map code := List.suffix_append _ _
  obtain ⟨x, whole⟩ : t₁.map code <:+ key := List.suffix_of_suffix_length_le behind ⟨y, ends⟩ longer.le
  have begun : x ≠ [] := by
    rintro rfl
    rw [List.nil_append] at whole
    rw [whole] at longer
    exact lt_irrefl _ longer
  have earlier : x <:+ seen.reverse := by
    rw [← whole, ← List.append_assoc] at ends
    exact ⟨y, List.append_cancel_right ends⟩
  have short : x.length ≤ key.length := by
    rw [← whole]
    simp
  have matched := fresh x begun short earlier
  have starts : startsMatch key inRun (x ++ (t₁ ++ d :: t₂ ++ c :: rest).map code) = true := by
    rw [startsMatch_iff]
    refine ⟨code d, (t₂ ++ c :: rest).map code, ?_, first⟩
    rw [← whole]
    simp
  rw [starts] at matched
  cases matched

/-- Scanning from left to right finds what the search from match to match finds. -/
theorem scan_eq_redact (given : key ≠ []) (within : ∀ c ∈ key, inRun c) {seen : List β} {text : List α}
    (fresh : Fresh key inRun seen (text.map code)) :
    scan code key inRun mark seen false text = redact code key inRun mark text := by
  induction length : text.length using Nat.strong_induction_on generalizing seen text with
  | _ n ih =>
    cases text with
    | nil => rw [scan, redact]
    | cons c rest =>
      cases starts : startsMatch key inRun ((c :: rest).map code) with
      | false =>
        have later := @ih rest.length (by simp [← length]) (code c :: seen) rest (fresh.cons starts) rfl
        have quiet := fresh.not_fires given
        rw [scan, if_neg (by simp [quiet]), later, redact_cons_of_not starts]
      | true =>
        obtain ⟨d, more, whole, first⟩ := startsMatch_iff.mp starts
        obtain ⟨t, u, split, named, behind⟩ := List.map_eq_append_iff.mp whole
        obtain ⟨e, u, rfl, rfl, rfl⟩ := List.map_eq_cons_iff.mp behind
        have longer : u.length < n := by
          rw [← length, split]
          simp
          omega
        have fires : (inRun (code e) && key.reverse.isPrefixOf ((t.map code).reverse ++ seen)) = true := by
          rw [first, named, Bool.true_and, List.isPrefixOf_iff_prefix]
          exact List.prefix_append _ _
        have run := @scan_inside _ _ _ code key inRun mark given within u
          (fun seen rest less fresh => ih rest.length (less.trans longer) fresh rfl)
          (code e :: ((t.map code).reverse ++ seen))
        have keyed : t.length = key.length := by rw [← named, List.length_map]
        have found : redact code key inRun mark (c :: rest) = (c :: rest).take key.length ++ mark ++
            redact code key inRun mark (((c :: rest).drop key.length).dropWhile fun c => inRun (code c)) := by
          rw [redact, dif_pos starts]
        rw [split] at fresh
        rw [found, split, scan_through _ (fresh.quiet named), scan, if_pos fires, run, ← keyed, List.take_left,
          List.drop_left, List.dropWhile_cons_of_pos (p := fun c => inRun (code c)) first, List.append_assoc]

theorem redact_eq_scan (given : key ≠ []) (within : ∀ c ∈ key, inRun c) (text : List α) :
    redact code key inRun mark text = scan code key inRun mark [] false text := by
  refine (scan_eq_redact given within ?_).symm
  intro x long _ ends
  exact absurd (List.suffix_nil.mp ends) long

theorem scan_append (seen : List β) (inside : Bool) (s t : List α) :
    scan code key inRun mark seen inside (s ++ t) =
      scan code key inRun mark seen inside s ++
        scan code key inRun mark ((s.map code).reverse ++ seen) (insideAfter key inRun seen inside (s.map code)) t := by
  induction s generalizing seen inside with
  | nil => simp [scan, insideAfter]
  | cons c s ih =>
    cases inside with
    | true =>
      cases here : inRun (code c) <;> simp [scan, insideAfter, here, ih]
    | false =>
      cases fires : inRun (code c) && key.reverse.isPrefixOf seen <;> simp [scan, insideAfter, fires, ih]

theorem scan_map {γ : Type*} (f : γ → α) (mark : List γ) (seen : List β) (inside : Bool) (text : List γ) :
    (scan (code ∘ f) key inRun mark seen inside text).map f =
      scan code key inRun (mark.map f) seen inside (text.map f) := by
  induction text generalizing seen inside with
  | nil => rfl
  | cons c rest ih =>
    cases inside with
    | true =>
      cases here : inRun (code (f c)) <;> simp [scan, here, ih]
    | false =>
      cases fires : inRun (code (f c)) && key.reverse.isPrefixOf seen <;> simp [scan, fires, ih]

theorem mem_scan {seen : List β} {inside : Bool} {text : List α} {c : α}
    (member : c ∈ scan code key inRun mark seen inside text) : c ∈ text ∨ c ∈ mark := by
  induction text generalizing seen inside with
  | nil => cases member
  | cons d rest ih =>
    have later {seen : List β} {inside : Bool} (there : c ∈ scan code key inRun mark seen inside rest) :
        c ∈ d :: rest ∨ c ∈ mark := (ih there).imp_left fun listed => List.mem_cons_of_mem d listed
    cases inside with
    | true =>
      rw [scan] at member
      split at member
      · exact later member
      · rcases List.mem_cons.mp member with rfl | there
        · exact .inl List.mem_cons_self
        · exact later there
    | false =>
      rw [scan] at member
      split at member
      · rcases List.mem_append.mp member with marked | there
        · exact .inr marked
        · exact later there
      · rcases List.mem_cons.mp member with rfl | there
        · exact .inl List.mem_cons_self
        · exact later there

theorem stop_mem_scan {seen : List β} {inside : Bool} {text : List α} {c : α} (member : c ∈ text)
    (stops : inRun (code c) = false) : c ∈ scan code key inRun mark seen inside text := by
  induction text generalizing seen inside with
  | nil => cases member
  | cons d rest ih =>
    rcases List.mem_cons.mp member with rfl | there
    · cases inside <;> simp [scan, stops]
    · cases inside with
      | true =>
        rw [scan]
        split
        · exact ih there
        · exact List.mem_cons_of_mem _ (ih there)
      | false =>
        rw [scan]
        split
        · exact List.mem_append_right _ (ih there)
        · exact List.mem_cons_of_mem _ (ih there)

theorem insideAfter_true {seen : List β} {inside : Bool} {text : List β}
    (began : inside = true → ∃ y x, seen.reverse = y ++ key ++ x ∧ x ≠ [] ∧ ∀ c ∈ x, inRun c)
    (ends : insideAfter key inRun seen inside text = true) :
    ∃ y x, seen.reverse ++ text = y ++ key ++ x ∧ x ≠ [] ∧ ∀ c ∈ x, inRun c := by
  induction text generalizing seen inside with
  | nil =>
    rw [List.append_nil]
    exact began ends
  | cons c rest ih =>
    have moved : seen.reverse ++ c :: rest = (c :: seen).reverse ++ rest := by simp
    rw [moved]
    cases inside with
    | true =>
      refine ih ?_ ends
      intro here
      obtain ⟨y, x, split, long, clean⟩ := began rfl
      refine ⟨y, x ++ [c], by rw [List.reverse_cons, split, List.append_assoc], by simp, ?_⟩
      intro d member
      rcases List.mem_append.mp member with earlier | last
      · exact clean d earlier
      · rw [List.mem_singleton.mp last]
        exact here
    | false =>
      refine ih ?_ ends
      intro fires
      rw [Bool.and_eq_true, prefix_reverse_iff] at fires
      obtain ⟨here, y, split⟩ := fires
      refine ⟨y, [c], by rw [List.reverse_cons, split], by simp, ?_⟩
      intro d member
      rw [List.mem_singleton.mp member]
      exact here

theorem scan_run {seen : List β} {value : List α} (rest : List α) (keyed : key <:+ seen.reverse) (given : value ≠ [])
    (clean : ∀ c ∈ value, inRun (code c)) :
    scan code key inRun mark seen false (value ++ rest) =
      mark ++ scan code key inRun mark ((value.map code).reverse ++ seen) true rest := by
  have leaves {seen : List β} {value : List α} (clean : ∀ c ∈ value, inRun (code c)) :
      scan code key inRun mark seen true (value ++ rest) =
        scan code key inRun mark ((value.map code).reverse ++ seen) true rest := by
    induction value generalizing seen with
    | nil => rfl
    | cons c value ih =>
      rw [List.cons_append, scan, if_pos (clean c List.mem_cons_self)]
      simpa using @ih (code c :: seen) fun d member => clean d (List.mem_cons_of_mem _ member)
  obtain ⟨c, value, rfl⟩ := List.exists_cons_of_ne_nil given
  have fires : (inRun (code c) && key.reverse.isPrefixOf seen) = true := by
    rw [Bool.and_eq_true]
    exact ⟨clean c List.mem_cons_self, prefix_reverse_iff.mpr keyed⟩
  rw [List.cons_append, scan, if_pos fires, leaves fun d member => clean d (List.mem_cons_of_mem _ member)]
  simp

/-- What is marked secret is gone just where it stands behind the key and fits into a run. -/
theorem scan_hides_iff (secret : α → Prop) {before value after : List α} (given : value ≠ [])
    (outside : insideAfter key inRun [] false (before.map code) = false)
    (hidden : ∀ c ∈ value, secret c) (plain : ∀ c ∈ before ++ after ++ mark, ¬ secret c) :
    (∀ c ∈ scan code key inRun mark [] false (before ++ value ++ after), ¬ secret c) ↔
      key <:+ before.map code ∧ ∀ c ∈ value, inRun (code c) := by
  constructor
  · intro gone
    have clean : ∀ c ∈ value, inRun (code c) = true := by
      intro c member
      by_contra stops
      have listed : c ∈ before ++ value ++ after := List.mem_append_left after (List.mem_append_right before member)
      exact gone c (stop_mem_scan listed (Bool.not_eq_true _ ▸ stops)) (hidden c member)
    refine ⟨?_, clean⟩
    by_contra unkeyed
    obtain ⟨c, value, rfl⟩ := List.exists_cons_of_ne_nil given
    have quiet : (inRun (code c) && key.reverse.isPrefixOf (before.map code).reverse) = false := by
      rw [← Bool.not_eq_true, Bool.and_eq_true, prefix_reverse_iff, List.reverse_reverse]
      exact fun fires => unkeyed fires.2
    have stays : c ∈ scan code key inRun mark [] false (before ++ (c :: value) ++ after) := by
      rw [List.append_assoc, scan_append, outside, List.append_nil, List.cons_append, scan, quiet]
      simp
    exact gone c stays (hidden c List.mem_cons_self)
  · rintro ⟨keyed, clean⟩ c member
    rw [List.append_assoc, scan_append, outside, List.append_nil,
      scan_run after (by simpa using keyed) given clean] at member
    apply plain c
    simp only [List.mem_append] at member ⊢
    rcases member with early | marked | late
    · exact (mem_scan early).imp_left .inl
    · exact .inr marked
    · exact (mem_scan late).imp_left .inr

theorem scan_congr {c : β} (other : c ∉ key) (u : List β) {a b : List β} (inside : Bool) (text : List α) :
    scan code key inRun mark (u ++ c :: a) inside text = scan code key inRun mark (u ++ c :: b) inside text := by
  have recent (u a : List β) : key.reverse <+: u ++ c :: a ↔ key.reverse <+: u := by
    constructor
    · intro starts
      by_cases short : key.reverse.length ≤ u.length
      · exact List.prefix_of_prefix_length_le starts (List.prefix_append _ _) short
      · have longer : u ++ [c] <+: key.reverse := by
          apply List.prefix_of_prefix_length_le _ starts
          · simp only [List.length_append, List.length_singleton]
            omega
          · exact ⟨a, by simp⟩
        have member : c ∈ key.reverse := longer.subset (by simp)
        exact absurd (List.mem_reverse.mp member) other
    · exact fun starts => starts.trans (List.prefix_append _ _)
  induction text generalizing u inside with
  | nil => rfl
  | cons d rest ih =>
    have later := ih (code d :: u)
    simp only [List.cons_append] at later
    have same : key.reverse.isPrefixOf (u ++ c :: a) = key.reverse.isPrefixOf (u ++ c :: b) := by
      rw [Bool.eq_iff_iff, List.isPrefixOf_iff_prefix, List.isPrefixOf_iff_prefix, recent, recent]
    cases inside <;> simp only [scan, later, same]

end Scanning

end Foundation
