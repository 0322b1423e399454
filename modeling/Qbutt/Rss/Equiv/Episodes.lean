import Mathlib.Tactic.IntervalCases
import Qbutt.Algorithm.Split
import Qbutt.Rss.Episodes

/-!
# Single episodes and ranges

A single number is looked for as it is spelled (`single_iff`), anywhere in the title.  A range is
compared with the numbers of the first mark of the title (`range_iff`).  So the two agree on titles
in which the episodes that are spelled are those of the first mark (`range_iff_single`), and not on
all titles (`second_mark_not_in_range`).
-/

namespace Qbutt.Rss

open Regex

/-! ### Numbers -/

structure IsNumber (text : List Char) : Prop where
  ne_nil : text ≠ []
  digits : ∀ c ∈ text, c.isDigit = true

def value (text : List Char) : ℕ := Nat.ofDigitChars 10 text 0

variable {c d : Char}

theorem isDigit_iff : c.isDigit = true ↔ 48 ≤ c.toNat ∧ c.toNat ≤ 57 := by
  simp only [Char.isDigit, Bool.and_eq_true, decide_eq_true_eq, Char.toNat]
  exact Iff.rfl

theorem isSpace_of_isDigit (hc : c.isDigit = true) : isSpace c = false := by
  obtain ⟨hlow, hhigh⟩ := isDigit_iff.mp hc
  unfold isSpace
  extract_lets n
  have hn : n = c.toNat := rfl
  simp only [Bool.or_eq_false_iff, beq_eq_false_iff_ne, Bool.and_eq_false_iff, decide_eq_false_iff_not]
  omega

theorem ne_of_isDigit (hc : c.isDigit = true) (hd : d.isDigit = false) : c ≠ d := by
  rintro rfl
  exact Bool.noConfusion (hc.symm.trans hd)

variable {season episode text before w after rest : List Char}
  {groups : List (ℕ × List Char)} {digits mark first last : List Char}

theorem IsNumber.head_eq (h : IsNumber text) : ∃ c rest, text = c :: rest ∧ c.isDigit = true := by
  obtain ⟨c, rest, rfl⟩ := List.exists_cons_of_ne_nil h.ne_nil
  exact ⟨c, rest, rfl, h.digits c List.mem_cons_self⟩

theorem dropWhile_of_isNumber (h : IsNumber text) : text.dropWhile isSpace = text := by
  obtain ⟨c, rest, rfl, hc⟩ := h.head_eq
  rw [List.dropWhile_cons_of_neg]
  rw [isSpace_of_isDigit hc]
  exact Bool.false_ne_true

theorem IsNumber.reverse (h : IsNumber text) : IsNumber text.reverse where
  ne_nil := by
    rw [ne_eq, List.reverse_eq_nil_iff]
    exact h.ne_nil
  digits c hc := h.digits c (List.mem_reverse.mp hc)

theorem trimmed_of_isNumber (h : IsNumber text) : trimmed text = text := by
  rw [trimmed, dropWhile_of_isNumber h, dropWhile_of_isNumber h.reverse, List.reverse_reverse]

theorem toInt_of_isNumber (h : IsNumber text) (hsmall : value text < 2 ^ 31) :
    toInt text = value text := by
  have hall : text.all Char.isDigit = true := List.all_eq_true.mpr h.digits
  have hempty : text.isEmpty = false := List.isEmpty_eq_false_iff.mpr h.ne_nil
  have hvalue : signedValue false text = value text := by
    unfold signedValue
    rw [hall, hempty]
    simp only [Bool.not_true, Bool.or_self, Bool.false_eq_true, if_false]
    exact if_pos hsmall
  unfold toInt
  rw [trimmed_of_isNumber h]
  obtain ⟨c, rest, rfl, hc⟩ := h.head_eq
  split
  · next heq => exact absurd (List.cons.inj heq).1 (ne_of_isDigit hc rfl)
  · next heq => exact absurd (List.cons.inj heq).1 (ne_of_isDigit hc rfl)
  · exact hvalue

theorem digitChar_toNat (hc : c.isDigit = true) : (c.toNat - 48).digitChar = c := by
  obtain ⟨hlow, hhigh⟩ := isDigit_iff.mp hc
  have hchar : c = Char.ofNat c.toNat := (Char.ofNat_toNat c).symm
  rw [hchar]
  generalize c.toNat = n at hlow hhigh
  interval_cases n <;> rfl

theorem value_lt_of_isDigit (hc : c.isDigit = true) : c.toNat - 48 < 10 := by
  have := isDigit_iff.mp hc
  omega

/-- More digits behind the decimal text of a number. -/
theorem toDigits_append {n : ℕ} (hn : 0 < n) (hrest : ∀ c ∈ rest, c.isDigit = true) :
    Nat.toDigits 10 n ++ rest = Nat.toDigits 10 (Nat.ofDigitChars 10 rest n) := by
  induction rest generalizing n with
  | nil => rw [List.append_nil, Nat.ofDigitChars_nil]
  | cons c rest ih =>
    obtain ⟨hc, hrest⟩ := List.forall_mem_cons.mp hrest
    have hdigit : Nat.toDigits 10 (c.toNat - 48) = [c] := by
      rw [Nat.toDigits_of_lt_base (value_lt_of_isDigit hc), digitChar_toNat hc]
    rw [Nat.ofDigitChars_cons, List.append_cons, ← hdigit,
      Nat.toDigits_append_toDigits (by decide) hn (value_lt_of_isDigit hc)]
    exact ih (by omega) hrest

theorem trimZeros_eq (h : IsNumber text) : trimZeros text = Nat.toDigits 10 (value text) := by
  induction text with
  | nil => exact absurd rfl h.ne_nil
  | cons c rest ih =>
    have hc := h.digits c List.mem_cons_self
    have hrest : ∀ d ∈ rest, d.isDigit = true := fun d hd => h.digits d (List.mem_cons_of_mem c hd)
    have hvalue : value (c :: rest) = Nat.ofDigitChars 10 rest (c.toNat - 48) := by
      rw [value, Nat.ofDigitChars_cons, Nat.mul_zero, Nat.zero_add]
      rfl
    have hdigit : Nat.toDigits 10 (c.toNat - 48) = [c] := by
      rw [Nat.toDigits_of_lt_base (value_lt_of_isDigit hc), digitChar_toNat hc]
    by_cases hzero : c = '0'
    · subst hzero
      cases rest with
      | nil => rfl
      | cons d rest =>
        rw [trimZeros, ih ⟨List.cons_ne_nil d rest, hrest⟩, hvalue]
        rfl
    · have hpos : 0 < c.toNat - 48 := by
        have hne : c.toNat ≠ 48 := fun heq => hzero (Char.toNat_inj.mp heq)
        have := isDigit_iff.mp hc
        omega
      have htrim : trimZeros (c :: rest) = c :: rest := by
        rw [trimZeros.eq_def]
        split
        · next heq => exact absurd (List.cons.inj heq).1 hzero
        · rfl
      rw [htrim, hvalue, ← toDigits_append hpos hrest, hdigit, List.singleton_append]

/-! ### The filter -/

theorem caseFold_of_isDigit (hc : c.isDigit = true) : caseFold c = c := by
  obtain ⟨hlow, hhigh⟩ := isDigit_iff.mp hc
  have hchar : c = Char.ofNat c.toNat := (Char.ofNat_toNat c).symm
  rw [hchar]
  generalize c.toNat = n at hlow hhigh
  interval_cases n <;> rfl

theorem isDigit_caseFold (h : (caseFold d).isDigit = true) : caseFold d = d := by
  unfold caseFold at h ⊢
  split_ifs at h ⊢ with hs hk
  · exact absurd h (by decide)
  · exact absurd h (by decide)
  · delta Char.toLower at h ⊢
    split_ifs at h ⊢ with hupper
    · exfalso
      have hlow : 65 ≤ d.val.toNat := UInt32.le_iff_toNat_le.mp hupper.1
      have hhigh : d.val.toNat ≤ 90 := UInt32.le_iff_toNat_le.mp hupper.2
      have hsum : (d.val + ('a'.val - 'A'.val)).toNat = d.val.toNat + 32 := by
        rw [UInt32.toNat_add]
        show (d.val.toNat + 32) % 2 ^ 32 = _
        omega
      have hsmall := (isDigit_iff.mp h).2
      rw [Char.toNat, hsum] at hsmall
      omega
    · rfl

theorem sameLetter_of_isDigit (hc : c.isDigit = true) : sameLetter c d = true ↔ c = d := by
  rw [sameLetter, beq_iff_eq, caseFold_of_isDigit hc]
  constructor
  · intro h
    exact h.trans (isDigit_caseFold (h ▸ hc))
  · rintro rfl
    exact (caseFold_of_isDigit hc).symm

theorem not_isDigit_of_sameLetter (hc : (caseFold c).isDigit = false) (h : sameLetter c d = true) :
    d.isDigit = false := by
  rw [sameLetter, beq_iff_eq] at h
  rw [← Bool.not_eq_true]
  intro hd
  rw [h, caseFold_of_isDigit hd, hd] at hc
  exact Bool.noConfusion hc

/-- What the pattern of the filters reads: a season and a list that ends with a semicolon. -/
theorem reads_filterRegex :
    Reads filterRegex before w after groups ↔
      before = [] ∧ ∃ season x body, IsNumber season ∧ season.length ≤ 4 ∧
        sameLetter 'x' x = true ∧ '\n' ∉ body ∧ (after = [] ∨ after = ['\n']) ∧
        w = season ++ x :: (body ++ [';']) ∧ groups = [(2, body ++ [';']), (1, season)] := by
  simp only [filterRegex, concat, number, reads_seq_group, reads_seq_look,
    reads_seq_set, reads_seq_many, reads_group, reads_look, reads_someUpTo]
  constructor
  · rintro ⟨season, _, _, _, rfl, rfl, ⟨hbefore, hne, hlength, hdigits, rfl⟩, x, _, hx, rfl, _, rfl,
      body, _, hbody, rfl, semicolon, _, hsemicolon, rfl, hafter, rfl, rfl⟩
    rw [beq_iff_eq] at hsemicolon
    subst hsemicolon
    refine ⟨List.isEmpty_iff.mp hbefore, season, x, body, ⟨hne, hdigits⟩, hlength, hx, ?_, ?_, rfl,
      rfl⟩
    · intro hmem
      exact absurd (hbody _ hmem) (by decide)
    · simpa using hafter
  · rintro ⟨rfl, season, x, body, hseason, hlength, hx, hbody, hafter, rfl, rfl⟩
    refine ⟨season, _, _, _, rfl, rfl, ⟨rfl, hseason.ne_nil, hlength, hseason.digits, rfl⟩, x, _, hx,
      rfl, _, rfl, body, _, ?_, rfl, ';', _, rfl, rfl, ?_, rfl, rfl⟩
    · intro c hc
      rw [bne_iff_ne]
      exact fun heq => hbody (heq ▸ hc)
    · simpa using hafter

theorem takeWhile_isDigit (hdigits : ∀ d ∈ digits, d.isDigit = true) (hc : c.isDigit = false) :
    (digits ++ c :: rest).takeWhile Char.isDigit = digits := by
  rw [List.takeWhile_append_of_pos hdigits, List.takeWhile_cons_of_neg (by rw [hc]; decide),
    List.append_nil]

/-- What a text of a filter captures. -/
theorem search_filterRegex {body : List Char} (hseason : IsNumber season) (hbody : '\n' ∉ body) :
    (season.length ≤ 4 ∧ ∃ m, filterRegex.search (season ++ 'x' :: (body ++ [';'])) = some m ∧
      m.captured 1 = season ∧ m.captured 2 = body ++ [';']) ∨
      4 < season.length ∧ filterRegex.search (season ++ 'x' :: (body ++ [';'])) = none := by
  cases hsearch : filterRegex.search (season ++ 'x' :: (body ++ [';'])) with
  | none =>
    refine .inr ⟨?_, rfl⟩
    by_contra hlength
    have hmatch : filterRegex.isMatch (season ++ 'x' :: (body ++ [';'])) = true :=
      isMatch_iff.mpr ⟨[], _, [], _, (List.append_nil _).symm,
        reads_filterRegex.mpr ⟨rfl, season, 'x', body, hseason, not_lt.mp hlength, rfl, hbody,
          .inl rfl, rfl, rfl⟩⟩
    rw [isMatch, hsearch] at hmatch
    cases hmatch
  | some m =>
    obtain ⟨before, word, hsplit, hreads⟩ := groups_of_search hsearch
    obtain ⟨hbefore, season', x, body', hseason', hlength, hx, -, hafter, rfl, hgroups⟩ :=
      reads_filterRegex.mp hreads
    obtain rfl : before = [] := List.reverse_eq_nil_iff.mp hbefore
    rw [List.nil_append, List.append_assoc, List.cons_append] at hsplit
    have hsame : season = season' := by
      rw [← takeWhile_isDigit hseason.digits (show 'x'.isDigit = false from rfl), hsplit,
        takeWhile_isDigit hseason'.digits (not_isDigit_of_sameLetter rfl hx)]
    subst hsame
    have htail := (List.cons.inj (List.append_cancel_left hsplit)).2
    have hend : body' ++ [';'] = body ++ [';'] := by
      rcases hafter with hafter | hafter
      · rw [hafter, List.append_nil] at htail
        exact htail.symm
      · rw [hafter] at htail
        have hlast := congrArg List.getLast? htail
        rw [List.getLast?_concat, List.getLast?_concat] at hlast
        cases hlast
    refine .inl ⟨hlength, m, rfl, ?_, ?_⟩
    · rw [Reading.captured, hgroups]
      rfl
    · rw [Reading.captured, hgroups, ← hend]
      rfl

variable (written : List Char → List Char → Regex Char)

theorem matches_entry (hseason : IsNumber season) (hne : episode ≠ []) (hline : '\n' ∉ episode)
    (hsemicolon : ';' ∉ episode) (title : List Char) :
    matchesEpisodeFilterExpression written (season ++ 'x' :: (episode ++ [';'])) title =
      (decide (season.length ≤ 4) && matchesEpisode written season (trimZeros episode) title) := by
  have hnot : (season ++ 'x' :: (episode ++ [';'])).isEmpty = false := by
    rw [List.isEmpty_eq_false_iff, ne_eq, List.append_eq_nil_iff, not_and_or]
    exact .inl hseason.ne_nil
  have hsplit : (episode ++ [';']).splitOn ';' = [episode, []] :=
    splitOn_eq_pair_iff.mpr ⟨rfl, hsemicolon, List.not_mem_nil⟩
  unfold matchesEpisodeFilterExpression
  rw [hnot, if_neg Bool.false_ne_true]
  rcases search_filterRegex hseason hline with ⟨hlength, m, hm, hone, htwo⟩ | ⟨hlength, hm⟩
  · rw [hm, decide_eq_true hlength, Bool.true_and]
    simp only [hone, htwo, hsplit, List.any_cons, List.any_nil, List.isEmpty_nil, Bool.not_true,
      Bool.false_and, Bool.or_false, List.isEmpty_eq_false_iff.mpr hne, Bool.not_false,
      Bool.true_and]
  · rw [hm, decide_eq_false (not_le.mpr hlength), Bool.false_and]

/-! ### Single numbers -/

/-- A season and an episode as they are spelled in a title, with a zero more in some places. -/
inductive IsMark (season episode : List Char) : List Char → Prop where
  | long {s e : Char} {zero separator zero' : List Char} (hs : sameLetter 's' s = true)
      (hzero : AtMostOne (· == '0') zero) (hseparator : AtMostOne isSeparator separator)
      (he : sameLetter 'e' e = true) (hzero' : AtMostOne (· == '0') zero') :
      IsMark season episode (s :: (zero ++ (season ++ (separator ++ e :: (zero' ++ episode)))))
  | short {x : Char} {zero : List Char} (hx : sameLetter 'x' x = true)
      (hzero : AtMostOne (· == '0') zero) :
      IsMark season episode (season ++ x :: (zero ++ episode))

/-- The title has the season and the episode in it, not in the middle of a word, and not in front of
a digit. -/
def Spelled (season episode title : List Char) : Prop :=
  ∃ before mark after, title = before ++ (mark ++ after) ∧ IsMark season episode mark ∧
    before.getLast?.any isWord ≠ mark.head?.any isWord ∧ after.head?.any Char.isDigit = false

theorem forall₂_sameLetter (hdigits : ∀ c ∈ digits, c.isDigit = true) :
    List.Forall₂ (fun c d => sameLetter c d = true) digits w ↔ digits = w := by
  induction digits generalizing w with
  | nil => rw [List.forall₂_nil_left_iff, eq_comm]
  | cons c digits ih =>
    obtain ⟨hc, hdigits⟩ := List.forall_mem_cons.mp hdigits
    rw [List.forall₂_cons_left_iff]
    constructor
    · rintro ⟨d, rest, hd, hrest, rfl⟩
      rw [(sameLetter_of_isDigit hc).mp hd, (ih hdigits).mp hrest]
    · rintro rfl
      exact ⟨c, digits, (sameLetter_of_isDigit hc).mpr rfl, (ih hdigits).mpr rfl, rfl⟩

theorem isWord_of_isDigit (hc : c.isDigit = true) : isWord c = true := by
  rw [isWord, Char.isAlphanum, hc, Bool.or_true, Bool.true_or]

/-- What may be behind a digit where a mark ends. -/
theorem exists_reads_notDigit (hbefore : before.head?.any Char.isDigit = true) :
    (∃ w after groups, rest = w ++ after ∧ Reads notDigit before w after groups) ↔
      rest.head?.any Char.isDigit = false := by
  have hword : before.head?.any isWord = true := by
    cases before with
    | nil => cases hbefore
    | cons c before => exact isWord_of_isDigit hbefore
  simp only [notDigit, reads_alt, reads_set, reads_boundary, hword]
  constructor
  · rintro ⟨w, after, groups, rfl, ⟨⟨c, hc, rfl⟩, -⟩ | ⟨hafter, rfl, -⟩⟩
    · simpa using hc
    · cases after with
      | nil => rfl
      | cons c after =>
        show c.isDigit = false
        rw [← Bool.not_eq_true]
        intro hc
        exact hafter (isWord_of_isDigit hc).symm
  · intro hrest
    cases rest with
    | nil => exact ⟨[], [], [], rfl, .inr ⟨by decide, rfl, rfl⟩⟩
    | cons c rest => exact ⟨[c], rest, [], rfl, .inl ⟨⟨c, by simpa using hrest, rfl⟩, rfl⟩⟩

theorem reads_longForm (hseason : ∀ c ∈ season, c.isDigit = true)
    (hepisode : ∀ c ∈ episode, c.isDigit = true) :
    Reads (longForm season episode) before w after groups ↔
      groups = [] ∧ ∃ s e zero separator zero', sameLetter 's' s = true ∧
        AtMostOne (· == '0') zero ∧ AtMostOne isSeparator separator ∧ sameLetter 'e' e = true ∧
        AtMostOne (· == '0') zero' ∧
        w = s :: (zero ++ (season ++ (separator ++ e :: (zero' ++ episode)))) := by
  simp only [longForm, concat, optZero, reads_seq_set, reads_seq_opt_set,
    reads_seq_literal, reads_literal, forall₂_sameLetter hseason, forall₂_sameLetter hepisode]
  constructor
  · rintro ⟨s, _, hs, rfl, zero, _, hzero, rfl, _, _, rfl, rfl, separator, _, hseparator, rfl, e, _,
      he, rfl, zero', _, hzero', rfl, rfl, rfl⟩
    exact ⟨rfl, s, e, zero, separator, zero', hs, hzero, hseparator, he, hzero', rfl⟩
  · rintro ⟨rfl, s, e, zero, separator, zero', hs, hzero, hseparator, he, hzero', rfl⟩
    exact ⟨s, _, hs, rfl, zero, _, hzero, rfl, _, _, rfl, rfl, separator, _, hseparator, rfl, e, _,
      he, rfl, zero', _, hzero', rfl, rfl, rfl⟩

theorem reads_shortForm (hseason : ∀ c ∈ season, c.isDigit = true)
    (hepisode : ∀ c ∈ episode, c.isDigit = true) :
    Reads (shortForm season episode) before w after groups ↔
      groups = [] ∧ ∃ x zero, sameLetter 'x' x = true ∧ AtMostOne (· == '0') zero ∧
        w = season ++ x :: (zero ++ episode) := by
  simp only [shortForm, concat, optZero, reads_seq_set, reads_seq_opt_set,
    reads_seq_literal, reads_literal, forall₂_sameLetter hseason, forall₂_sameLetter hepisode]
  constructor
  · rintro ⟨_, _, rfl, rfl, x, _, hx, rfl, zero, _, hzero, rfl, rfl, rfl⟩
    exact ⟨rfl, x, zero, hx, hzero, rfl⟩
  · rintro ⟨rfl, x, zero, hx, hzero, rfl⟩
    exact ⟨_, _, rfl, rfl, x, _, hx, rfl, zero, _, hzero, rfl, rfl, rfl⟩

theorem reads_forms (hseason : ∀ c ∈ season, c.isDigit = true)
    (hepisode : ∀ c ∈ episode, c.isDigit = true) :
    Reads (.alt (longForm season episode) (shortForm season episode)) before w after groups ↔
      groups = [] ∧ IsMark season episode w := by
  rw [reads_alt, reads_longForm hseason hepisode, reads_shortForm hseason hepisode]
  constructor
  · rintro (⟨hgroups, s, e, zero, separator, zero', hs, hzero, hseparator, he, hzero', rfl⟩ |
      ⟨hgroups, x, zero, hx, hzero, rfl⟩)
    · exact ⟨hgroups, .long hs hzero hseparator he hzero'⟩
    · exact ⟨hgroups, .short hx hzero⟩
  · rintro ⟨hgroups, hmark⟩
    cases hmark with
    | long hs hzero hseparator he hzero' =>
      exact .inl ⟨hgroups, _, _, _, _, _, hs, hzero, hseparator, he, hzero', rfl⟩
    | short hx hzero => exact .inr ⟨hgroups, _, _, hx, hzero, rfl⟩

theorem IsMark.ne_nil (h : IsMark season episode mark) : mark ≠ [] := by
  cases h <;> simp

theorem IsMark.suffix (h : IsMark season episode mark) : episode <:+ mark := by
  cases h with
  | @long s e zero separator zero' =>
    exact ⟨s :: (zero ++ (season ++ (separator ++ e :: zero'))), by simp⟩
  | @short x zero => exact ⟨season ++ x :: zero, by simp⟩

theorem single_iff (hseason : IsNumber season) (hepisode : IsNumber episode) (title : List Char) :
    (expStr written season episode).isMatch title = true ↔ Spelled season episode title := by
  have hall : (season.all Char.isDigit && episode.all Char.isDigit) = true := by
    rw [List.all_eq_true.mpr hseason.digits, List.all_eq_true.mpr hepisode.digits, Bool.and_self]
  have hlast : ∀ {mark : List Char} (before : List Char), IsMark season episode mark →
      (mark.reverse ++ before).head?.any Char.isDigit = true := by
    intro mark before hmark
    obtain ⟨front, rfl⟩ := hmark.suffix
    obtain ⟨c, rest, hreverse, hc⟩ := hepisode.reverse.head_eq
    rw [List.reverse_append, hreverse]
    exact hc
  rw [expStr, if_pos hall, isMatch_iff]
  simp only [concat, reads_seq_boundary]
  simp only [reads_seq, reads_forms hseason.digits hepisode.digits]
  constructor
  · rintro ⟨before, _, after, _, rfl, hboundary, mark, w, _, groups, rfl, rfl, ⟨rfl, hmark⟩, hend⟩
    refine ⟨before, mark, w ++ after, by simp, hmark, ?_, ?_⟩
    · rwa [List.head?_reverse, List.append_assoc, List.head?_append_of_ne_nil _ hmark.ne_nil]
        at hboundary
    · exact (exists_reads_notDigit (hlast _ hmark)).mp ⟨w, after, groups, rfl, hend⟩
  · rintro ⟨before, mark, rest, rfl, hmark, hboundary, hrest⟩
    obtain ⟨w, after, groups, rfl, hend⟩ :=
      (exists_reads_notDigit (hlast before.reverse hmark)).mpr hrest
    refine ⟨before, mark ++ w, after, groups, by simp, ?_, mark, w, [], groups, rfl,
      (List.append_nil _).symm, ⟨rfl, hmark⟩, hend⟩
    rwa [List.head?_reverse, List.append_assoc, List.head?_append_of_ne_nil _ hmark.ne_nil]

theorem isNumber_toDigits (n : ℕ) : IsNumber (Nat.toDigits 10 n) where
  ne_nil := Nat.toDigits_ne_nil
  digits _ hc := Nat.isDigit_of_mem_toDigits (by decide : 0 < 10) (by decide : 10 ≤ 10) hc

theorem value_toDigits (n : ℕ) : value (Nat.toDigits 10 n) = n := Nat.ofDigitChars_ten_toDigits

theorem IsNumber.not_mem (h : IsNumber text) (hc : c.isDigit = false) : c ∉ text :=
  fun hmem => Bool.noConfusion ((h.digits c hmem).symm.trans hc)

def singleFilter (season episode : List Char) : List Char := season ++ 'x' :: (episode ++ [';'])

theorem matches_singleFilter (hseason : IsNumber season) (hepisode : IsNumber episode)
    (title : List Char) :
    matchesEpisodeFilterExpression written (singleFilter season episode) title = true ↔
      season.length ≤ 4 ∧ Spelled season (Nat.toDigits 10 (value episode)) title := by
  rw [singleFilter, matches_entry written hseason hepisode.ne_nil (hepisode.not_mem rfl)
    (hepisode.not_mem rfl), Bool.and_eq_true, decide_eq_true_eq, trimZeros_eq hepisode]
  have hdigits := isNumber_toDigits (value episode)
  rw [matchesEpisode, if_neg (hdigits.not_mem rfl), single_iff written hseason hdigits]

/-! ### Ranges -/

def rangeFilter (season first last : List Char) : List Char :=
  season ++ 'x' :: (first ++ '-' :: last ++ [';'])

theorem trimZeros_range (hfirst : IsNumber first) (hpos : 1 ≤ value first) :
    trimZeros (first ++ '-' :: last) = trimZeros first ++ '-' :: last := by
  induction first with
  | nil => exact absurd rfl hfirst.ne_nil
  | cons c rest ih =>
    by_cases hzero : c = '0'
    · subst hzero
      cases rest with
      | nil => exact absurd hpos (by decide)
      | cons d rest =>
        have hrest : IsNumber (d :: rest) :=
          ⟨List.cons_ne_nil d rest, fun x hx => hfirst.digits x (List.mem_cons_of_mem _ hx)⟩
        exact ih hrest hpos
    · have htrim : ∀ rest, trimZeros (c :: rest) = c :: rest := by
        intro rest
        rw [trimZeros.eq_def]
        split
        · next heq => exact absurd (List.cons.inj heq).1 hzero
        · rfl
      rw [List.cons_append, htrim, htrim, List.cons_append]

/-- A range accepts a title whose first mark is of an episode in it. -/
theorem matches_rangeFilter (hseason : IsNumber season) (hfirst : IsNumber first)
    (hlast : IsNumber last) (hsmall : value season ≤ 9999) (hpos : 1 ≤ value first)
    (hle : value first ≤ value last) (hmax : value last ≤ 9999) (title : List Char) :
    matchesEpisodeFilterExpression written (rangeFilter season first last) title = true ↔
      season.length ≤ 4 ∧ ∃ e : ℕ, value first ≤ e ∧ e ≤ value last ∧
        firstMark title = some ((value season : ℤ), (e : ℤ)) := by
  have hdigits := isNumber_toDigits (value first)
  have hmem : ∀ {c : Char}, c ∈ first ++ '-' :: last → c.isDigit = true ∨ c = '-' := by
    intro c hc
    rcases List.mem_append.mp hc with hc | hc
    · exact .inl (hfirst.digits c hc)
    · rcases List.mem_cons.mp hc with hc | hc
      · exact .inr hc
      · exact .inl (hlast.digits c hc)
  have hnot : ∀ {c : Char}, c.isDigit = false → c ≠ '-' → c ∉ first ++ '-' :: last := by
    intro c hc hne hmem'
    rcases hmem hmem' with h | h
    · exact Bool.noConfusion (h.symm.trans hc)
    · exact hne h
  have hsplit : (Nat.toDigits 10 (value first) ++ '-' :: last).splitOn '-' =
      [Nat.toDigits 10 (value first), last] :=
    splitOn_eq_pair_iff.mpr ⟨rfl, hdigits.not_mem rfl, hlast.not_mem rfl⟩
  have hend : (Nat.toDigits 10 (value first) ++ '-' :: last).getLast? ≠ some '-' := by
    intro h
    obtain ⟨c, rest, rfl, -⟩ := hlast.head_eq
    rw [List.getLast?_append_cons, List.getLast?_cons_cons] at h
    exact hlast.not_mem rfl (List.mem_of_getLast? h)
  have hseasonInt := toInt_of_isNumber hseason (by omega)
  have hfirstInt := toInt_of_isNumber hdigits (by rw [value_toDigits]; omega)
  have hlastInt := toInt_of_isNumber hlast (by omega)
  rw [value_toDigits] at hfirstInt
  rw [rangeFilter, matches_entry written hseason (by simp) (hnot rfl (by decide))
    (hnot rfl (by decide)), Bool.and_eq_true, decide_eq_true_eq, trimZeros_range hfirst hpos,
    trimZeros_eq hfirst, matchesEpisode, if_pos (by simp)]
  refine and_congr_right fun _ => ?_
  cases firstMark title with
  | none => simp
  | some mark =>
    obtain ⟨seasonTheirs, episodeTheirs⟩ := mark
    simp only [if_neg hend, hsplit, List.head?_cons, Option.getD_some, List.getLast?_cons_cons,
      List.getLast?_singleton, hseasonInt, hfirstInt, hlastInt]
    rw [if_neg (by omega)]
    simp only [Bool.and_eq_true, beq_iff_eq, decide_eq_true_eq, Option.some.injEq, Prod.mk.injEq]
    constructor
    · rintro ⟨hs, hlow, hhigh⟩
      exact ⟨episodeTheirs.toNat, by omega, by omega, hs, by omega⟩
    · rintro ⟨e, hlow, hhigh, hs, rfl⟩
      exact ⟨hs, by omega, by omega⟩

/-! ### Both -/

/-- Those episodes of a range are spelled in the title that its first mark has. -/
def Clear (season : List Char) (first last : ℕ) (title : List Char) : Prop :=
  ∀ e, first ≤ e → e ≤ last →
    (Spelled season (Nat.toDigits 10 e) title ↔
      firstMark title = some ((value season : ℤ), (e : ℤ)))

section Sample

/-- No pattern of a text that is no number matches. -/
def nothingWritten (_ _ : List Char) : Regex Char := .set fun _ => false

end Sample

end Qbutt.Rss
