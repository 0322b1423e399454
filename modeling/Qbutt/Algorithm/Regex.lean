import Mathlib.Data.List.Forall2
import Mathlib.Tactic.Cases

/-!
# Regular expressions with priorities

`Regex.run` lists the ways to read an expression at a place of a text, the preferred one first, and
`Regex.search` takes the first way at the leftmost place that has one.  `Regex.Reads` is the meaning
without priorities: which words between which contexts an expression reads, and what its groups
capture.

* `mem_run_iff`: the ways are the readings.
* `isMatch_iff`: something is found if the text has a part that is read.
* `groups_of_search`: what is found captures what some part of the text does.
-/

namespace Qbutt

open List

variable {α : Type}

/-- A regular expression for texts with characters in `α`. -/
inductive Regex (α : Type) where
  | empty
  | set (p : α → Bool)
  /-- An assertion about the text before, the nearest character first, and the text behind. -/
  | look (p : List α → List α → Bool)
  | seq (first second : Regex α)
  | alt (first second : Regex α)
  | opt (re : Regex α)
  | many (p : α → Bool)
  | group (i : ℕ) (re : Regex α)

/-- How far a text has been read: what is before, the nearest character first, what is behind, and
what was captured, the last group first. -/
structure Reading (α : Type) where
  before : List α
  after : List α
  groups : List (ℕ × List α)

namespace Reading

/-- The text of a group, empty if it did not take part. -/
def captured (s : Reading α) (i : ℕ) : List α :=
  (s.groups.lookup i).getD []

/-- The reading of one character more. -/
def step (s : Reading α) (c : α) (rest : List α) : Reading α :=
  { s with before := c :: s.before, after := rest }

def since (s t : Reading α) : List α := s.after.take (s.after.length - t.after.length)

end Reading

namespace Regex

/-- As many characters of a set as there are, then fewer. -/
def manyRun (p : α → Bool) (groups : List (ℕ × List α)) :
    List α → List α → List (Reading α)
  | before, [] => [⟨before, [], groups⟩]
  | before, c :: rest =>
    if p c then manyRun p groups (c :: before) rest ++ [⟨before, c :: rest, groups⟩]
    else [⟨before, c :: rest, groups⟩]

/-- The ways to read an expression, the preferred one first. -/
def run : Regex α → Reading α → List (Reading α)
  | empty, s => [s]
  | set p, s =>
    match s.after with
    | [] => []
    | c :: rest => if p c then [s.step c rest] else []
  | look p, s => if p s.before s.after then [s] else []
  | seq first second, s => (first.run s).flatMap second.run
  | alt first second, s => first.run s ++ second.run s
  | opt re, s => re.run s ++ [s]
  | many p, s => manyRun p s.groups s.before s.after
  | group i re, s => (re.run s).map fun t => { t with groups := (i, s.since t) :: t.groups }

/-- The first way at the leftmost place that has one. -/
def searchFrom (re : Regex α) : List α → List α → Option (Reading α)
  | before, after =>
    match re.run ⟨before, after, []⟩ with
    | t :: _ => some t
    | [] =>
      match after with
      | [] => none
      | c :: rest => searchFrom re (c :: before) rest

def search (re : Regex α) (text : List α) : Option (Reading α) := searchFrom re [] text

def isMatch (re : Regex α) (text : List α) : Bool := (re.search text).isSome

/-- One after the other. -/
def concat : List (Regex α) → Regex α
  | [] => empty
  | [re] => re
  | re :: rest => seq re (concat rest)

/-- Up to `n` characters of a set, as many as possible. -/
def upTo (p : α → Bool) : ℕ → Regex α
  | 0 => empty
  | n + 1 => opt (seq (set p) (upTo p n))

/-- Between one and `n + 1` characters of a set. -/
def someUpTo (p : α → Bool) (n : ℕ) : Regex α := seq (set p) (upTo p n)

/-- The characters of a text, each as the set of those that are the same to the expression. -/
def literal (same : α → α → Bool) : List α → Regex α
  | [] => empty
  | c :: text => seq (set (same c)) (literal same text)

def boundary (word : α → Bool) : Regex α :=
  look fun before after => before.head?.any word != after.head?.any word

/-! ### The meaning -/

/-- An expression reads a word behind `before`, the nearest character first, and in front of
`after`, with these captures. -/
def Reads : Regex α → List α → List α → List α → List (ℕ × List α) → Prop
  | empty, _, word, _, groups => word = [] ∧ groups = []
  | set p, _, word, _, groups => (∃ c, p c ∧ word = [c]) ∧ groups = []
  | look p, before, word, after, groups => p before after ∧ word = [] ∧ groups = []
  | seq first second, before, word, after, groups =>
    ∃ word₁ word₂ groups₁ groups₂, word = word₁ ++ word₂ ∧ groups = groups₂ ++ groups₁ ∧
      Reads first before word₁ (word₂ ++ after) groups₁ ∧
      Reads second (word₁.reverse ++ before) word₂ after groups₂
  | alt first second, before, word, after, groups =>
    Reads first before word after groups ∨ Reads second before word after groups
  | opt re, before, word, after, groups =>
    Reads re before word after groups ∨ word = [] ∧ groups = []
  | many p, _, word, _, groups => (∀ c ∈ word, p c) ∧ groups = []
  | group i re, before, word, after, groups =>
    ∃ inner, groups = (i, word) :: inner ∧ Reads re before word after inner

variable {look : List α → List α → Bool} {i n : ℕ}

section Equations

variable {re second : Regex α} {p : α → Bool} {before w after : List α} {groups : List (ℕ × List α)}

theorem reads_empty : Reads empty before w after groups ↔ w = [] ∧ groups = [] := Iff.rfl

theorem reads_set :
    Reads (set p) before w after groups ↔ (∃ c, p c = true ∧ w = [c]) ∧ groups = [] := Iff.rfl

theorem reads_look :
    Reads (.look look) before w after groups ↔
      look before after = true ∧ w = [] ∧ groups = [] := Iff.rfl

theorem reads_seq :
    Reads (seq re second) before w after groups ↔
      ∃ w₁ w₂ groups₁ groups₂, w = w₁ ++ w₂ ∧ groups = groups₂ ++ groups₁ ∧
        Reads re before w₁ (w₂ ++ after) groups₁ ∧
        Reads second (w₁.reverse ++ before) w₂ after groups₂ := Iff.rfl

theorem reads_alt :
    Reads (alt re second) before w after groups ↔
      Reads re before w after groups ∨ Reads second before w after groups := Iff.rfl

theorem reads_opt :
    Reads (opt re) before w after groups ↔
      Reads re before w after groups ∨ w = [] ∧ groups = [] := Iff.rfl

theorem reads_many :
    Reads (many p) before w after groups ↔ (∀ c ∈ w, p c = true) ∧ groups = [] := Iff.rfl

theorem reads_group :
    Reads (group i re) before w after groups ↔
      ∃ inner, groups = (i, w) :: inner ∧ Reads re before w after inner := Iff.rfl

end Equations

variable {groups : List (ℕ × List α)} {before after text w : List α}
  {p word : α → Bool} {t : Reading α} {re : Regex α} {same : α → α → Bool}

theorem mem_manyRun_iff :
    t ∈ manyRun p groups before after ↔
      ∃ word rest, after = word ++ rest ∧ (∀ c ∈ word, p c) ∧
        t = ⟨word.reverse ++ before, rest, groups⟩ := by
  induction after generalizing before with
  | nil =>
    simp only [manyRun, mem_singleton, nil_eq, append_eq_nil_iff]
    constructor
    · rintro rfl
      exact ⟨[], [], ⟨rfl, rfl⟩, by simp, rfl⟩
    · rintro ⟨word, rest, ⟨rfl, rfl⟩, -, rfl⟩
      rfl
  | cons c after ih =>
    constructor
    · intro ht
      rw [manyRun] at ht
      split_ifs at ht with hc
      · rcases mem_append.mp ht with ht | ht
        · obtain ⟨word, rest, rfl, hword, rfl⟩ := ih.mp ht
          exact ⟨c :: word, rest, rfl, forall_mem_cons.mpr ⟨hc, hword⟩, by simp⟩
        · exact ⟨[], c :: after, rfl, by simp, mem_singleton.mp ht⟩
      · exact ⟨[], c :: after, rfl, by simp, mem_singleton.mp ht⟩
    · rintro ⟨word, rest, hsplit, hword, rfl⟩
      rw [manyRun]
      cases word with
      | nil =>
        rw [nil_append] at hsplit
        subst hsplit
        split_ifs <;> simp
      | cons d word =>
        cases hsplit
        obtain ⟨hd, hword⟩ := forall_mem_cons.mp hword
        rw [if_pos hd]
        exact mem_append_left _ (ih.mpr ⟨word, rest, rfl, hword, by simp⟩)

theorem mem_run_iff {s : Reading α} :
    t ∈ re.run s ↔
      ∃ word groups, s.after = word ++ t.after ∧ t.before = word.reverse ++ s.before ∧
        t.groups = groups ++ s.groups ∧ Reads re s.before word t.after groups := by
  induction re generalizing s t with
  | empty =>
    simp only [run, reads_empty, mem_singleton]
    constructor
    · rintro rfl
      exact ⟨[], [], rfl, rfl, rfl, rfl, rfl⟩
    · rintro ⟨word, groups, hafter, hbefore, hgroups, rfl, rfl⟩
      cases s; cases t
      simp_all
  | set p =>
    constructor
    · intro ht
      rw [run] at ht
      split at ht
      · cases ht
      · next c rest hsafter =>
        split_ifs at ht with hc
        · rw [mem_singleton] at ht
          subst ht
          exact ⟨[c], [], hsafter, rfl, rfl, ⟨c, hc, rfl⟩, rfl⟩
        · cases ht
    · rintro ⟨word, groups, hafter, hbefore, hgroups, ⟨c, hc, rfl⟩, rfl⟩
      rw [run, hafter]
      simp only [cons_append, nil_append, hc, if_true, mem_singleton]
      cases t
      simp_all [Reading.step]
  | look p =>
    simp only [run, reads_look]
    constructor
    · intro ht
      split_ifs at ht with hp
      · rw [mem_singleton] at ht
        subst ht
        exact ⟨[], [], rfl, rfl, rfl, hp, rfl, rfl⟩
      · cases ht
    · rintro ⟨word, groups, hafter, hbefore, hgroups, hp, rfl, rfl⟩
      rw [nil_append] at hafter
      rw [← hafter] at hp
      rw [if_pos hp, mem_singleton]
      cases s; cases t
      simp_all
  | seq first second ihf ihs =>
    simp only [run, reads_seq, mem_flatMap]
    constructor
    · rintro ⟨m, hm, ht⟩
      obtain ⟨word₁, groups₁, hafter₁, hbefore₁, hgroups₁, hreads₁⟩ := ihf.mp hm
      obtain ⟨word₂, groups₂, hafter₂, hbefore₂, hgroups₂, hreads₂⟩ := ihs.mp ht
      rw [hafter₂] at hreads₁ hafter₁
      rw [hbefore₁] at hreads₂ hbefore₂
      refine ⟨word₁ ++ word₂, groups₂ ++ groups₁, ?_, ?_, ?_, word₁, word₂, groups₁, groups₂, rfl,
        rfl, hreads₁, hreads₂⟩
      · rw [hafter₁, append_assoc]
      · rw [hbefore₂, reverse_append, append_assoc]
      · rw [hgroups₂, hgroups₁, append_assoc]
    · rintro ⟨word, groups, hafter, hbefore, hgroups, word₁, word₂, groups₁, groups₂, rfl, rfl,
        hreads₁, hreads₂⟩
      refine ⟨⟨word₁.reverse ++ s.before, word₂ ++ t.after, groups₁ ++ s.groups⟩,
        ihf.mpr ⟨word₁, groups₁, ?_, rfl, rfl, hreads₁⟩,
        ihs.mpr ⟨word₂, groups₂, rfl, ?_, ?_, hreads₂⟩⟩
      · rw [hafter, append_assoc]
      · rw [hbefore, reverse_append, append_assoc]
      · rw [hgroups, append_assoc]
  | alt first second ihf ihs =>
    simp only [run, reads_alt, mem_append, ihf, ihs]
    constructor
    · rintro (⟨word, groups, h₁, h₂, h₃, h⟩ | ⟨word, groups, h₁, h₂, h₃, h⟩)
      · exact ⟨word, groups, h₁, h₂, h₃, .inl h⟩
      · exact ⟨word, groups, h₁, h₂, h₃, .inr h⟩
    · rintro ⟨word, groups, h₁, h₂, h₃, h | h⟩
      · exact .inl ⟨word, groups, h₁, h₂, h₃, h⟩
      · exact .inr ⟨word, groups, h₁, h₂, h₃, h⟩
  | opt re ih =>
    simp only [run, reads_opt, mem_append, mem_singleton, ih]
    constructor
    · rintro (⟨word, groups, h₁, h₂, h₃, h⟩ | rfl)
      · exact ⟨word, groups, h₁, h₂, h₃, .inl h⟩
      · exact ⟨[], [], rfl, rfl, rfl, .inr ⟨rfl, rfl⟩⟩
    · rintro ⟨word, groups, h₁, h₂, h₃, h | ⟨rfl, rfl⟩⟩
      · exact .inl ⟨word, groups, h₁, h₂, h₃, h⟩
      · right
        cases s; cases t
        simp_all
  | many p =>
    simp only [run, reads_many, mem_manyRun_iff]
    constructor
    · rintro ⟨word, rest, hafter, hword, rfl⟩
      exact ⟨word, [], hafter, rfl, rfl, hword, rfl⟩
    · rintro ⟨word, groups, hafter, hbefore, hgroups, hword, rfl⟩
      refine ⟨word, t.after, hafter, hword, ?_⟩
      cases t
      simp_all
  | group i re ih =>
    simp only [run, reads_group, mem_map]
    constructor
    · rintro ⟨m, hm, rfl⟩
      obtain ⟨word, groups, hafter, hbefore, hgroups, hreads⟩ := ih.mp hm
      refine ⟨word, (i, word) :: groups, hafter, hbefore, ?_, groups, rfl, hreads⟩
      rw [hgroups, Reading.since, hafter]
      simp
    · rintro ⟨word, groups, hafter, hbefore, hgroups, inner, rfl, hreads⟩
      refine ⟨⟨t.before, t.after, inner ++ s.groups⟩,
        ih.mpr ⟨word, inner, hafter, hbefore, rfl, hreads⟩, ?_⟩
      rw [Reading.since, hafter]
      cases t
      simp_all

/-! ### Searching -/

/-- What is found is a reading of a part of the text. -/
theorem reads_of_searchFrom (h : searchFrom re before after = some t) :
    ∃ skipped word, after = skipped ++ word ++ t.after ∧
      Reads re (skipped.reverse ++ before) word t.after t.groups := by
  induction after generalizing before with
  | nil =>
    rw [searchFrom] at h
    split at h
    · next t' ts hrun =>
      obtain rfl := Option.some.inj h
      have hmem : t' ∈ re.run ⟨before, [], []⟩ := hrun ▸ mem_cons_self
      obtain ⟨word, groups, hafter, -, hgroups, hreads⟩ := mem_run_iff.mp hmem
      rw [append_nil] at hgroups
      exact ⟨[], word, hafter, hgroups ▸ hreads⟩
    · cases h
  | cons c rest ih =>
    rw [searchFrom] at h
    split at h
    · next t' ts hrun =>
      obtain rfl := Option.some.inj h
      have hmem : t' ∈ re.run ⟨before, c :: rest, []⟩ := hrun ▸ mem_cons_self
      obtain ⟨word, groups, hafter, -, hgroups, hreads⟩ := mem_run_iff.mp hmem
      rw [append_nil] at hgroups
      exact ⟨[], word, hafter, hgroups ▸ hreads⟩
    · obtain ⟨skipped, word, hsplit, hreads⟩ := ih h
      refine ⟨c :: skipped, word, by rw [hsplit]; rfl, ?_⟩
      rwa [reverse_cons, append_assoc]

theorem run_eq_nil_of_searchFrom (h : searchFrom re before after = none) :
    re.run ⟨before, after, []⟩ = [] := by
  cases after with
  | nil =>
    rw [searchFrom] at h
    split at h
    · cases h
    · next hrun => exact hrun
  | cons c rest =>
    rw [searchFrom] at h
    split at h
    · cases h
    · next hrun => exact hrun

/-- A search that finds nothing leaves no part of the text that could be read. -/
theorem not_reads_of_searchFrom (h : searchFrom re before after = none) (skipped word rest : List α)
    (groups : List (ℕ × List α)) (hsplit : after = skipped ++ word ++ rest) :
    ¬ Reads re (skipped.reverse ++ before) word rest groups := by
  intro hreads
  induction skipped generalizing before after with
  | nil =>
    have hmem : (⟨word.reverse ++ before, rest, groups⟩ : Reading α) ∈
        re.run ⟨before, after, []⟩ :=
      mem_run_iff.mpr ⟨word, groups, hsplit, rfl, (append_nil groups).symm, hreads⟩
    rw [run_eq_nil_of_searchFrom h] at hmem
    cases hmem
  | cons c skipped ih =>
    subst hsplit
    rw [cons_append, cons_append, searchFrom] at h
    split at h
    · cases h
    · refine ih h rfl ?_
      rwa [reverse_cons, append_assoc] at hreads

/-- What is found captures what a part of the text does. -/
theorem groups_of_search (h : re.search text = some t) :
    ∃ before word, text = before ++ word ++ t.after ∧
      Reads re before.reverse word t.after t.groups := by
  obtain ⟨before, word, hsplit, hreads⟩ := reads_of_searchFrom h
  rw [append_nil] at hreads
  exact ⟨before, word, hsplit, hreads⟩

theorem isMatch_iff :
    re.isMatch text ↔
      ∃ before word after groups, text = before ++ word ++ after ∧
        Reads re before.reverse word after groups := by
  constructor
  · intro h
    obtain ⟨t, ht⟩ := Option.isSome_iff_exists.mp h
    obtain ⟨before, word, hsplit, hreads⟩ := groups_of_search ht
    exact ⟨before, word, t.after, t.groups, hsplit, hreads⟩
  · rintro ⟨before, word, after, groups, hsplit, hreads⟩
    by_contra hnone
    rw [isMatch, Bool.not_eq_true, Option.isSome_eq_false_iff, Option.isNone_iff_eq_none] at hnone
    rw [← append_nil before.reverse] at hreads
    exact not_reads_of_searchFrom hnone before word after groups hsplit hreads

/-! ### Readings of some expressions -/

section Readings

variable {re : Regex α} {p : α → Bool} {before w after : List α} {groups : List (ℕ × List α)}

theorem reads_boundary :
    Reads (boundary word) before w after groups ↔
      before.head?.any word ≠ after.head?.any word ∧ w = [] ∧ groups = [] := by
  rw [boundary, reads_look, bne_iff_ne]

theorem reads_seq_set :
    Reads (seq (set p) re) before w after groups ↔
      ∃ c rest, p c = true ∧ w = c :: rest ∧ Reads re (c :: before) rest after groups := by
  simp only [reads_seq, reads_set]
  constructor
  · rintro ⟨_, rest, _, g, rfl, rfl, ⟨⟨c, hc, rfl⟩, rfl⟩, h⟩
    rw [append_nil]
    exact ⟨c, rest, hc, rfl, h⟩
  · rintro ⟨c, rest, hc, rfl, h⟩
    exact ⟨[c], rest, [], groups, rfl, (append_nil _).symm, ⟨⟨c, hc, rfl⟩, rfl⟩, h⟩

theorem reads_seq_look :
    Reads (seq (.look look) re) before w after groups ↔
      look before (w ++ after) = true ∧ Reads re before w after groups := by
  simp only [reads_seq, reads_look]
  constructor
  · rintro ⟨_, rest, _, g, rfl, rfl, ⟨hlook, rfl, rfl⟩, h⟩
    rw [append_nil]
    exact ⟨hlook, h⟩
  · rintro ⟨hlook, h⟩
    exact ⟨[], w, [], groups, rfl, (append_nil _).symm, ⟨hlook, rfl, rfl⟩, h⟩

theorem reads_seq_boundary :
    Reads (seq (boundary word) re) before w after groups ↔
      before.head?.any word ≠ (w ++ after).head?.any word ∧ Reads re before w after groups := by
  rw [boundary, reads_seq_look, bne_iff_ne]

/-- At most one character of a set. -/
def AtMostOne (p : α → Bool) (w : List α) : Prop := w = [] ∨ ∃ c, p c = true ∧ w = [c]

theorem reads_seq_opt_set :
    Reads (seq (opt (set p)) re) before w after groups ↔
      ∃ front rest, AtMostOne p front ∧ w = front ++ rest ∧
        Reads re (front.reverse ++ before) rest after groups := by
  simp only [reads_seq, reads_opt, reads_set]
  constructor
  · rintro ⟨front, rest, g₁, g₂, rfl, rfl, ⟨⟨c, hc, rfl⟩, rfl⟩ | ⟨rfl, rfl⟩, h⟩
    · rw [append_nil]
      exact ⟨[c], rest, .inr ⟨c, hc, rfl⟩, rfl, h⟩
    · rw [append_nil]
      exact ⟨[], rest, .inl rfl, rfl, h⟩
  · rintro ⟨front, rest, rfl | ⟨c, hc, rfl⟩, rfl, h⟩
    · exact ⟨[], _, [], groups, rfl, (append_nil _).symm, .inr ⟨rfl, rfl⟩, h⟩
    · exact ⟨[c], rest, [], groups, rfl, (append_nil _).symm, .inl ⟨⟨c, hc, rfl⟩, rfl⟩, h⟩

theorem reads_seq_many :
    Reads (seq (many p) re) before w after groups ↔
      ∃ front rest, (∀ c ∈ front, p c = true) ∧ w = front ++ rest ∧
        Reads re (front.reverse ++ before) rest after groups := by
  simp only [reads_seq, reads_many]
  constructor
  · rintro ⟨front, rest, _, g, rfl, rfl, ⟨hfront, rfl⟩, h⟩
    rw [append_nil]
    exact ⟨front, rest, hfront, rfl, h⟩
  · rintro ⟨front, rest, hfront, rfl, h⟩
    exact ⟨front, rest, [], groups, rfl, (append_nil _).symm, ⟨hfront, rfl⟩, h⟩

theorem reads_seq_group {inner : Regex α} :
    Reads (seq (group i inner) re) before w after groups ↔
      ∃ front rest groups₁ groups₂, w = front ++ rest ∧
        groups = groups₂ ++ (i, front) :: groups₁ ∧
        Reads inner before front (rest ++ after) groups₁ ∧
        Reads re (front.reverse ++ before) rest after groups₂ := by
  simp only [reads_seq, reads_group]
  constructor
  · rintro ⟨front, rest, _, groups₂, rfl, rfl, ⟨groups₁, rfl, hinner⟩, h⟩
    exact ⟨front, rest, groups₁, groups₂, rfl, rfl, hinner, h⟩
  · rintro ⟨front, rest, groups₁, groups₂, rfl, rfl, hinner, h⟩
    exact ⟨front, rest, _, groups₂, rfl, rfl, ⟨groups₁, rfl, hinner⟩, h⟩

end Readings

theorem reads_literal :
    Reads (literal same text) before w after groups ↔
      List.Forall₂ (fun c d => same c d) text w ∧ groups = [] := by
  induction text generalizing before w groups with
  | nil => rw [literal, reads_empty, forall₂_nil_left_iff]
  | cons c text ih =>
    simp only [literal, reads_seq, reads_set, ih, forall₂_cons_left_iff]
    constructor
    · rintro ⟨_, w₂, _, _, rfl, rfl, ⟨⟨d, hd, rfl⟩, rfl⟩, hw, rfl⟩
      exact ⟨⟨d, w₂, hd, hw, rfl⟩, rfl⟩
    · rintro ⟨⟨d, w₂, hd, hw, rfl⟩, rfl⟩
      exact ⟨[d], w₂, [], [], rfl, rfl, ⟨⟨d, hd, rfl⟩, rfl⟩, hw, rfl⟩

theorem reads_seq_literal :
    Reads (seq (literal same text) re) before w after groups ↔
      ∃ front rest, List.Forall₂ (fun c d => same c d) text front ∧ w = front ++ rest ∧
        Reads re (front.reverse ++ before) rest after groups := by
  simp only [reads_seq, reads_literal]
  constructor
  · rintro ⟨front, rest, _, g, rfl, rfl, ⟨hfront, rfl⟩, h⟩
    rw [append_nil]
    exact ⟨front, rest, hfront, rfl, h⟩
  · rintro ⟨front, rest, hfront, rfl, h⟩
    exact ⟨front, rest, [], groups, rfl, (append_nil _).symm, ⟨hfront, rfl⟩, h⟩

theorem reads_upTo :
    Reads (upTo p n) before w after groups ↔
      w.length ≤ n ∧ (∀ c ∈ w, p c) ∧ groups = [] := by
  induction n generalizing before w groups with
  | zero =>
    rw [upTo, reads_empty, Nat.le_zero, length_eq_zero_iff]
    constructor
    · rintro ⟨rfl, rfl⟩
      exact ⟨rfl, by simp, rfl⟩
    · rintro ⟨rfl, -, rfl⟩
      exact ⟨rfl, rfl⟩
  | succ n ih =>
    simp only [upTo, reads_opt, reads_seq, reads_set, ih]
    constructor
    · rintro (⟨_, w₂, _, _, rfl, rfl, ⟨⟨d, hd, rfl⟩, rfl⟩, hlength, hw, rfl⟩ | ⟨rfl, rfl⟩)
      · refine ⟨?_, forall_mem_cons.mpr ⟨hd, hw⟩, rfl⟩
        rw [length_append, length_singleton]
        omega
      · exact ⟨Nat.zero_le _, by simp, rfl⟩
    · rintro ⟨hlength, hw, rfl⟩
      cases w with
      | nil => exact .inr ⟨rfl, rfl⟩
      | cons d w =>
        obtain ⟨hd, hw⟩ := forall_mem_cons.mp hw
        rw [length_cons] at hlength
        exact .inl ⟨[d], w, [], [], rfl, rfl, ⟨⟨d, hd, rfl⟩, rfl⟩, by omega, hw, rfl⟩

theorem reads_someUpTo :
    Reads (someUpTo p n) before w after groups ↔
      w ≠ [] ∧ w.length ≤ n + 1 ∧ (∀ c ∈ w, p c) ∧ groups = [] := by
  simp only [someUpTo, reads_seq, reads_set, reads_upTo]
  constructor
  · rintro ⟨_, w₂, _, _, rfl, rfl, ⟨⟨d, hd, rfl⟩, rfl⟩, hlength, hw, rfl⟩
    refine ⟨cons_ne_nil d w₂, ?_, forall_mem_cons.mpr ⟨hd, hw⟩, rfl⟩
    rw [length_append, length_singleton]
    omega
  · rintro ⟨hne, hlength, hw, rfl⟩
    cases w with
    | nil => exact absurd rfl hne
    | cons d w =>
      obtain ⟨hd, hw⟩ := forall_mem_cons.mp hw
      rw [length_cons] at hlength
      exact ⟨[d], w, [], [], rfl, rfl, ⟨⟨d, hd, rfl⟩, rfl⟩, by omega, hw, rfl⟩

end Regex

end Qbutt
