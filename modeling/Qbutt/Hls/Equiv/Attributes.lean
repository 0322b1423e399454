import Qbutt.Hls.Playlist

/-!
# Attributes: equivalence lemmas

`attributeOf` reads the fields between commas outside quotes one after the other (`attributeOf_cut`),
so that whole attributes of other names in front change nothing (`Others.attributeOf_append`).  A name
that is put after `URI="` is read back only if what comes before is such attributes
(`others_of_attributeOf`).
-/

namespace Qbutt.Hls

open List

open Qbutt.Rust (splitOnce splitOnce_char splitAtByte_append utf8Length)

variable {text field rest front name : Text} {quoted : Bool} {key value : Text}
  {front uri rest found after : Text}

/-! ### Quotes -/

theorem trimQuotes_decomposition (text : Text) : ∃ i j,
    text = List.replicate i '"' ++ (trimQuotes text ++ List.replicate j '"') ∧
      (text.head? = some '"' → 0 < i) ∧ (trimQuotes text).head? ≠ some '"' ∧
      (trimQuotes text).getLast? ≠ some '"' := by
  have hfront : text.takeWhile (· = '"') = List.replicate (text.takeWhile (· = '"')).length '"' := by
    refine eq_replicate_of_mem fun c hc => ?_
    have hquote := mem_takeWhile_imp hc
    exact of_decide_eq_true hquote
  set middle := text.dropWhile (· = '"') with hmiddle
  have hback : middle.rtakeWhile (· = '"') =
      List.replicate (middle.rtakeWhile (· = '"')).length '"' := by
    refine eq_replicate_of_mem fun c hc => ?_
    have hquote := mem_rtakeWhile_imp hc
    exact of_decide_eq_true hquote
  have htrim : trimQuotes text = middle.rdropWhile (· = '"') := rfl
  refine ⟨(text.takeWhile (· = '"')).length, (middle.rtakeWhile (· = '"')).length, ?_, ?_, ?_, ?_⟩
  · rw [← hfront, ← hback, htrim, rdropWhile_append_rtakeWhile, hmiddle, takeWhile_append_dropWhile]
  · intro hhead
    obtain ⟨rest, rfl⟩ : ∃ rest, text = '"' :: rest := by
      cases text with
      | nil => cases hhead
      | cons c rest => exact ⟨rest, by rw [Option.some.inj hhead]⟩
    rw [takeWhile_cons_of_pos (by decide)]
    exact Nat.succ_pos _
  · intro hhead
    rw [htrim] at hhead
    have hprefix : middle.rdropWhile (· = '"') <+: middle := rdropWhile_prefix _ _
    have hmid : middle.head? = some '"' := by
      obtain ⟨tail, htail⟩ := hprefix
      rw [← htail, List.head?_append, hhead]
      rfl
    have hnot := List.head?_dropWhile_not (fun c : Char => decide (c = '"')) text
    rw [← hmiddle, hmid] at hnot
    exact absurd hnot (by decide)
  · intro hlast
    rw [htrim] at hlast
    have hne : middle.rdropWhile (fun c => decide (c = '"')) ≠ [] := by
      intro hnil
      rw [hnil] at hlast
      cases hlast
    have hnot := rdropWhile_last_not _ _ hne
    rw [List.getLast?_eq_getLast_of_ne_nil hne] at hlast
    exact hnot (by rw [Option.some.inj hlast]; rfl)

theorem getLast?_trimQuotes (text : Text) : (trimQuotes text).getLast? ≠ some '"' := by
  obtain ⟨i, j, -, -, -, hlast⟩ := trimQuotes_decomposition text
  exact hlast

theorem trimQuotes_length_le (text : Text) : (trimQuotes text).length ≤ text.length := by
  obtain ⟨i, j, htext, -⟩ := trimQuotes_decomposition text
  have hlength := congrArg List.length htext
  rw [length_append, length_append] at hlength
  omega

theorem trimQuotes_replicate (i j : ℕ) (h : '"' ∉ text) :
    trimQuotes (List.replicate i '"' ++ (text ++ List.replicate j '"')) = text := by
  have hnot : ∀ c ∈ text, ¬ decide (c = '"') = true := fun c hc heq =>
    h (of_decide_eq_true heq ▸ hc)
  have hquotes : ∀ n : ℕ, ∀ c ∈ List.replicate n '"', decide (c = '"') = true := fun n c hc =>
    decide_eq_true (eq_of_mem_replicate hc)
  unfold trimQuotes
  rw [dropWhile_append_of_pos (hquotes i)]
  cases text with
  | nil =>
    rw [nil_append, dropWhile_eq_nil_iff.mpr (hquotes j)]
    rfl
  | cons c text =>
    have hstop : (c :: text ++ List.replicate j '"').dropWhile (fun c => decide (c = '"')) =
        c :: text ++ List.replicate j '"' :=
      dropWhile_cons_of_neg (hnot c mem_cons_self)
    rw [hstop]
    induction j with
    | zero =>
      rw [replicate_zero, append_nil]
      exact rdropWhile_eq_self_iff.mpr fun hne => hnot _ (getLast_mem hne)
    | succ j ih =>
      have hconcat : c :: text ++ List.replicate (j + 1) '"' =
          (c :: text ++ List.replicate j '"') ++ ['"'] := by
        rw [replicate_succ', append_assoc]
      rw [hconcat, rdropWhile_concat_pos _ _ _ (by decide)]
      exact ih (dropWhile_cons_of_neg (hnot c mem_cons_self))

theorem dropWhile_append_cons (front rest : Text) {c : Char} (hc : c ≠ '"') : ∃ front',
    (front ++ c :: rest).dropWhile (fun c => decide (c = '"')) = front' ++ c :: rest := by
  have hneg : ¬ decide (c = '"') = true := fun h => hc (of_decide_eq_true h)
  induction front with
  | nil => exact ⟨[], dropWhile_cons_of_neg hneg⟩
  | cons d front ih =>
    by_cases hd : d = '"'
    · obtain ⟨front', hfront⟩ := ih
      refine ⟨front', ?_⟩
      rw [cons_append, ← hfront]
      exact dropWhile_cons_of_pos (decide_eq_true hd)
    · exact ⟨d :: front, dropWhile_cons_of_neg fun h => hd (of_decide_eq_true h)⟩

theorem mem_trimQuotes {middle back : Text} {c d x : Char} (hc : c ≠ '"') (hd : d ≠ '"')
    (hx : x ∈ middle) : x ∈ trimQuotes (front ++ c :: (middle ++ d :: back)) := by
  obtain ⟨front', hfront⟩ := dropWhile_append_cons front (middle ++ d :: back) hc
  obtain ⟨back', hback⟩ := dropWhile_append_cons back.reverse (front' ++ c :: middle).reverse hd
  have hreverse : (front' ++ c :: (middle ++ d :: back)).reverse =
      back.reverse ++ d :: (front' ++ c :: middle).reverse := by simp
  rw [trimQuotes, hfront, List.rdropWhile, hreverse, hback, mem_reverse]
  simp [hx]

/-! ### Fields -/

/-- The field up to the next comma outside quotes, and what comes after that comma. -/
def cut : Bool → Text → Text × Option Text
  | _, [] => ([], none)
  | quoted, c :: rest =>
    if c ≠ ',' ∨ toggled quoted c then
      (c :: (cut (toggled quoted c) rest).1, (cut (toggled quoted c) rest).2)
    else ([], some rest)

theorem attributeLoop_cut (wanted : String) (quoted : Bool) (field text : Text) :
    attributeLoop wanted quoted field text =
      (splitOnce (field ++ (cut quoted text).1) ['=']).bind fun (key, value) =>
        if key = wanted.toList then some (trimQuotes value)
        else (cut quoted text).2.bind fun rest => attributeOf rest wanted := by
  induction text generalizing quoted field with
  | nil =>
    rw [attributeLoop, cut, append_nil]
    rfl
  | cons c rest ih =>
    rw [attributeLoop, cut]
    by_cases hfield : c ≠ ',' ∨ toggled quoted c = true
    · rw [if_pos hfield, if_pos hfield, ih, append_assoc]
      rfl
    · rw [if_neg hfield, if_neg hfield, append_nil]
      push Not at hfield
      rw [Bool.eq_false_iff.mpr hfield.2]
      rfl

theorem attributeOf_cut (text : Text) (wanted : String) : attributeOf text wanted =
    (splitOnce (cut false text).1 ['=']).bind fun (key, value) =>
      if key = wanted.toList then some (trimQuotes value)
      else (cut false text).2.bind fun rest => attributeOf rest wanted :=
  attributeLoop_cut wanted false [] text

/-- A text is its first field, and a comma and the rest if there is more. -/
theorem cut_eq (quoted : Bool) (text : Text) :
    text = (cut quoted text).1 ++ (cut quoted text).2.elim [] (',' :: ·) := by
  induction text generalizing quoted with
  | nil => rfl
  | cons c rest ih =>
    rw [cut]
    split_ifs with hfield
    · exact congrArg (c :: ·) (ih _)
    · push Not at hfield
      rw [hfield.1]
      rfl

/-- Whether a text has an odd number of quotes. -/
def flips : Text → Bool
  | [] => false
  | c :: rest => (c == '"') ^^ flips rest

/-- A field that is not over yet goes on in what follows. -/
theorem cut_append_of_none (h : (cut quoted front).2 = none) :
    cut quoted (front ++ rest) =
      (front ++ (cut (quoted ^^ flips front) rest).1, (cut (quoted ^^ flips front) rest).2) := by
  induction front generalizing quoted with
  | nil =>
    rw [flips, Bool.xor_false]
    rfl
  | cons c front ih =>
    rw [cut] at h
    rw [cons_append, cut, flips]
    split_ifs at h with hfield
    rw [if_pos hfield, ih h]
    have hstate : (toggled quoted c ^^ flips front) = (quoted ^^ (c == '"' ^^ flips front)) := by
      unfold toggled
      by_cases hc : c = '"'
      · rw [if_pos hc, beq_iff_eq.mpr hc]
        cases quoted <;> cases flips front <;> rfl
      · rw [if_neg hc, beq_eq_false_iff_ne.mpr hc, Bool.false_xor]
    rw [hstate]
    rfl

/-- A field that is over does not depend on what follows. -/
theorem cut_append_of_some {more : Text} (h : (cut quoted front).2 = some more) :
    cut quoted (front ++ rest) = ((cut quoted front).1, some (more ++ rest)) := by
  induction front generalizing quoted with
  | nil => cases h
  | cons c front ih =>
    rw [cut] at h
    rw [cons_append, cut, cut]
    split_ifs at h ⊢ with hfield
    · rw [ih h]
    · rw [Option.some.inj h]

theorem cut_of_not_mem (h : ',' ∉ text) : cut quoted text = (text, none) := by
  induction text generalizing quoted with
  | nil => rfl
  | cons c rest ih =>
    have hc : c ≠ ',' := fun heq => h (heq ▸ mem_cons_self)
    rw [cut, if_pos (.inl hc), ih fun hmem => h (mem_cons_of_mem c hmem)]

theorem attributeOf_length_le {wanted : String} {value : Text}
    (h : attributeOf text wanted = some value) : value.length ≤ text.length := by
  induction hn : text.length using Nat.strong_induction_on generalizing text with
  | _ n ih =>
  have htext := congrArg List.length (cut_eq false text)
  rw [length_append] at htext
  rw [attributeOf_cut] at h
  obtain ⟨⟨key, value'⟩, hsplit, h⟩ := Option.bind_eq_some_iff.mp h
  obtain ⟨hfield, -⟩ := splitOnce_char.mp hsplit
  have hlength := congrArg List.length hfield
  rw [length_append, length_cons] at hlength
  dsimp only at h
  split_ifs at h with hkey
  · cases h
    have htrim := trimQuotes_length_le value'
    omega
  · obtain ⟨rest, hrest, h⟩ := Option.bind_eq_some_iff.mp h
    rw [hrest] at htext
    have hcons : ((some rest).elim [] (',' :: ·) : Text).length = rest.length + 1 := rfl
    have hle := ih rest.length (by omega) h rfl
    omega

/-! ### What comes before an attribute -/

/-- Whole attributes, each with its comma, of other names. -/
inductive Others (wanted : String) : Text → Prop where
  | nil : Others wanted []
  | cons {front more key value : Text} (hcut : cut false front = (key ++ '=' :: value, some more))
      (hkey : '=' ∉ key) (hname : key ≠ wanted.toList) (h : Others wanted more) :
      Others wanted front

theorem Others.attributeOf_append {wanted : String} (h : Others wanted front) (rest : Text) :
    attributeOf (front ++ rest) wanted = attributeOf rest wanted := by
  induction h with
  | nil => rfl
  | @cons front more key value hcut hkey hname _ ih =>
    have hmore : (cut false front).2 = some more := by rw [hcut]
    have hcut' : cut false (front ++ rest) = ((cut false front).1, some (more ++ rest)) :=
      cut_append_of_some hmore
    rw [attributeOf_cut, hcut', hcut]
    dsimp only
    rw [splitOnce_char.mpr ⟨rfl, hkey⟩]
    show (if key = wanted.toList then _ else attributeOf (more ++ rest) wanted) = _
    rw [if_neg hname, ih]

def uriStart : Text := "URI=\"".toList

theorem attributeOf_uriStart (rest : Text) :
    attributeOf (uriStart ++ rest) "URI" = some (trimQuotes ('"' :: (cut true rest).1)) := by
  have hopen : cut false uriStart = (uriStart, none) := by decide
  have hcut : cut false (uriStart ++ rest) = (uriStart ++ (cut (false ^^ flips uriStart) rest).1,
      (cut (false ^^ flips uriStart) rest).2) := cut_append_of_none (by rw [hopen])
  rw [show (false ^^ flips uriStart) = true by decide] at hcut
  have hfield : uriStart ++ (cut true rest).1 = "URI".toList ++ '=' :: ('"' :: (cut true rest).1) := rfl
  rw [attributeOf_cut, hcut]
  dsimp only
  rw [hfield, splitOnce_char.mpr ⟨rfl, by decide⟩]
  rw [Option.bind_some]
  exact if_pos rfl

/-- A long name that is put behind `URI="` is read back only behind whole attributes of other names. -/
theorem others_of_attributeOf (name back : Text) (hquote : '"' ∉ name) (hcomma : ',' ∉ name)
    (hlong : front.length + back.length < name.length)
    (h : attributeOf (front ++ (uriStart ++ name ++ back)) "URI" = some name) : Others "URI" front := by
  induction hn : front.length using Nat.strong_induction_on generalizing front with
  | _ n ih =>
  rw [attributeOf_cut] at h
  cases hmore : (cut false front).2 with
  | some more =>
    -- the first field is over before the name
    have hfront := congrArg List.length (cut_eq false front)
    rw [hmore, length_append] at hfront
    have hcons : ((some more).elim [] (',' :: ·) : Text).length = more.length + 1 := rfl
    rw [cut_append_of_some hmore] at h
    obtain ⟨⟨key, value⟩, hsplit, h⟩ := Option.bind_eq_some_iff.mp h
    obtain ⟨hfield, hkey⟩ := splitOnce_char.mp hsplit
    dsimp only at hfield h
    have hlength := congrArg List.length hfield
    rw [length_append, length_cons] at hlength
    split_ifs at h with hname
    · have htrim := trimQuotes_length_le value
      rw [Option.some.inj h] at htrim
      omega
    · refine .cons (show cut false front = (key ++ '=' :: value, some more) from ?_) hkey hname ?_
      · rw [← hfield, ← hmore]
      · exact ih more.length (by omega) (by omega) h rfl
  | none =>
    cases front with
    | nil => exact .nil
    | cons c front =>
      -- the field has the name, with characters that are no quotes on both sides of a quote
      exfalso
      obtain ⟨d, tail, rfl⟩ : ∃ d tail, name = d :: tail :=
        exists_cons_of_ne_nil (by rintro rfl; simp at hlong)
      have hd : d ≠ '"' := fun heq => hquote (heq ▸ mem_cons_self)
      set state := false ^^ flips (c :: front)
      have hfield : cut state (uriStart ++ d :: tail) = (uriStart ++ d :: tail, none) :=
        cut_of_not_mem fun hmem => (mem_append.mp hmem).elim (by decide) hcomma
      rw [cut_append_of_none hmore, cut_append_of_none (by rw [hfield])] at h
      set state' := state ^^ flips (uriStart ++ d :: tail)
      obtain ⟨⟨key, value⟩, hsplit, h⟩ := Option.bind_eq_some_iff.mp h
      obtain ⟨htext, hkey⟩ := splitOnce_char.mp hsplit
      dsimp only at htext h
      split_ifs at h with hname
      · subst hname
        have hvalue := congrArg (List.drop 4) htext
        rw [show "URI".toList ++ '=' :: value = 'U' :: 'R' :: 'I' :: '=' :: value from rfl] at hvalue
        have hsplit : c :: front ++ (uriStart ++ d :: tail ++ (cut state' back).1) =
            (c :: front ++ "URI".toList) ++ ('=' :: (['"'] ++ d :: (tail ++ (cut state' back).1))) := by
          simp [uriStart]
        rw [hsplit, drop_append_of_le_length (by simp)] at hvalue
        have hvalue' : value = (c :: front ++ "URI".toList).drop 4 ++
            '=' :: (['"'] ++ d :: (tail ++ (cut state' back).1)) := hvalue.symm
        have hmem : '"' ∈ trimQuotes value := by
          rw [hvalue']
          exact mem_trimQuotes (by decide) hd mem_cons_self
        rw [Option.some.inj h] at hmem
        exact hquote hmem
      · obtain ⟨rest, hrest, h⟩ := Option.bind_eq_some_iff.mp h
        have hback := congrArg List.length (cut_eq state' back)
        rw [hrest, length_append] at hback
        have hcons : ((some rest).elim [] (',' :: ·) : Text).length = rest.length + 1 := rfl
        have hle := attributeOf_length_le h
        omega

/-! ### Reading back -/

/-- Where `URI="` begins the attribute that is read, with one quote on the left and, if another
attribute follows, an odd number of quotes on the right. -/
structure Readable (front rest : Text) : Prop where
  others : Others "URI" front
  one_quote : (cut true rest).1.head? ≠ some '"' ∨ ∀ c ∈ (cut true rest).1, c = '"'
  closed : (cut true rest).2 = none ∨
    ((cut true rest).1.rtakeWhile (fun c => decide (c = '"'))).length % 2 = 1

/-- A value with at most one quote on the left, unless it is nothing but quotes. -/
theorem one_quote_iff {w : Text} :
    (w.head? ≠ some '"' ∨ ∀ c ∈ w, c = '"') ↔
      ∃ n, w = trimQuotes ('"' :: w) ++ List.replicate n '"' := by
  obtain ⟨i, j, hdecomposition, hpos, hhead, -⟩ := trimQuotes_decomposition ('"' :: w)
  obtain ⟨k, rfl⟩ : ∃ k, i = k + 1 := ⟨i - 1, by have hi := hpos rfl; omega⟩
  generalize trimQuotes ('"' :: w) = uri at hdecomposition hhead
  rw [replicate_succ, cons_append] at hdecomposition
  have hw := (List.cons.inj hdecomposition).2
  constructor
  · rintro (hleft | hquotes)
    · cases k with
      | zero => exact ⟨j, hw⟩
      | succ k =>
        rw [hw, replicate_succ] at hleft
        exact absurd rfl hleft
    · have hnil : uri = [] := by
        cases uri with
        | nil => rfl
        | cons c uri =>
          have hc : c = '"' := hquotes c (by rw [hw]; simp)
          rw [hc] at hhead
          exact absurd rfl hhead
      subst hnil
      exact ⟨k + j, by rw [hw, nil_append, nil_append, replicate_add]⟩
  · rintro ⟨n, hn⟩
    cases uri with
    | nil => exact .inr fun c hc => eq_of_mem_replicate (hn ▸ hc)
    | cons c uri =>
      left
      rw [hn]
      exact hhead

theorem rtakeWhile_replicate (h : uri.getLast? ≠ some '"') (n : ℕ) :
    ((uri ++ List.replicate n '"').rtakeWhile (fun c => decide (c = '"'))).length = n := by
  induction n with
  | zero =>
    rw [replicate_zero, append_nil, rtakeWhile_eq_nil_iff.mpr]
    · rfl
    · intro hne hquote
      rw [List.getLast?_eq_getLast_of_ne_nil hne, of_decide_eq_true hquote] at h
      exact h rfl
  | succ n ih =>
    rw [replicate_succ', ← append_assoc, rtakeWhile_concat_pos _ _ _ (by decide), length_append, ih]
    rfl

theorem flips_append (text rest : Text) : flips (text ++ rest) = (flips text ^^ flips rest) := by
  induction text with
  | nil => exact (Bool.false_xor _).symm
  | cons c text ih => rw [cons_append, flips, flips, ih, Bool.xor_assoc]

theorem flips_of_not_mem (h : '"' ∉ text) : flips text = false := by
  induction text with
  | nil => rfl
  | cons c text ih =>
    have hc : c ≠ '"' := fun heq => h (heq ▸ mem_cons_self)
    rw [flips, beq_eq_false_iff_ne.mpr hc, ih fun hmem => h (mem_cons_of_mem c hmem)]
    rfl

theorem flips_replicate (n : ℕ) : flips (List.replicate n '"') = decide (n % 2 = 1) := by
  induction n with
  | zero => rfl
  | succ n ih =>
    rw [replicate_succ, flips, ih]
    rcases Nat.mod_two_eq_zero_or_one n with hn | hn
    · have hsucc : (n + 1) % 2 = 1 := by omega
      rw [hn, hsucc]
      rfl
    · have hsucc : (n + 1) % 2 = 0 := by omega
      rw [hn, hsucc]
      rfl

/-- The value of a name with quotes on its right, when another attribute may follow. -/
theorem cut_name {n : ℕ} (hquote : '"' ∉ name) (hcomma : ',' ∉ name) (rest : Text) :
    (cut true (name ++ (List.replicate n '"' ++ rest))).1 =
      name ++ List.replicate n '"' ++ (cut (decide (n % 2 ≠ 1)) rest).1 := by
  have hfield : cut true (name ++ List.replicate n '"') = (name ++ List.replicate n '"', none) := by
    refine cut_of_not_mem fun hmem => ?_
    rcases mem_append.mp hmem with hmem | hmem
    · exact hcomma hmem
    · exact absurd (eq_of_mem_replicate hmem) (by decide)
  have hstate : (true ^^ flips (name ++ List.replicate n '"')) = decide (n % 2 ≠ 1) := by
    rw [flips_append, flips_of_not_mem hquote, flips_replicate, Bool.false_xor, Bool.true_xor,
      ← decide_not]
  rw [← append_assoc, cut_append_of_none (by rw [hfield]), hstate]

theorem mem_trimQuotes_of_ne {c : Char} (hc : c ≠ '"') (h : c ∈ text) : c ∈ trimQuotes text := by
  obtain ⟨i, j, htext, -⟩ := trimQuotes_decomposition text
  rw [htext] at h
  simp only [mem_append, mem_replicate] at h
  rcases h with ⟨-, heq⟩ | h | ⟨-, heq⟩
  · exact absurd heq hc
  · exact h
  · exact absurd heq hc

theorem attributeOf_behind (h : Others "URI" front) (rest : Text) :
    attributeOf (front ++ (uriStart ++ rest)) "URI" =
      some (trimQuotes ('"' :: (cut true rest).1)) := by
  rw [h.attributeOf_append, attributeOf_uriStart]

/-- A value that is found right behind the first quote has no further quote on the left. -/
theorem one_quote_of_prefix (hfound : trimQuotes ('"' :: (cut true rest).1) = found)
    (hrest : rest = found ++ '"' :: after) :
    (cut true rest).1.head? ≠ some '"' ∨ ∀ c ∈ (cut true rest).1, c = '"' := by
  by_contra hnot
  push Not at hnot
  obtain ⟨hhead, c, hc, hne⟩ := hnot
  obtain ⟨i, j, -, -, hfirst, -⟩ := trimQuotes_decomposition ('"' :: (cut true rest).1)
  have hmem := mem_trimQuotes_of_ne hne (mem_cons_of_mem '"' hc)
  rw [hfound] at hmem hfirst
  have hstart := congrArg List.head? (cut_eq true rest)
  rw [List.head?_append, hhead, hrest, List.head?_append] at hstart
  cases found with
  | nil => cases hmem
  | cons d found => exact hfirst hstart

/-- What was found is what is read, and every name in its place is read back, exactly where the
attribute is readable. -/
theorem readable_iff (huri : attributeOf (front ++ (uriStart ++ rest)) "URI" = some uri)
    (hrest : rest = found ++ '"' :: after) (hlength : utf8Length found = utf8Length uri) :
    (found = uri ∧ ∀ name : Text, '"' ∉ name → ',' ∉ name →
      attributeOf (front ++ (uriStart ++ (name ++ '"' :: after))) "URI" = some name) ↔
      Readable front rest := by
  have hfields := cut_eq true rest
  constructor
  · rintro ⟨rfl, hnames⟩
    have hothers : Others "URI" front := by
      refine others_of_attributeOf (List.replicate (front.length + after.length + 2) 'a')
        ('"' :: after) (by simp) (by simp) ?_ ?_
      · rw [length_cons, length_replicate]
        omega
      · rw [append_assoc uriStart]
        exact hnames _ (by simp) (by simp)
    have hfound : trimQuotes ('"' :: (cut true rest).1) = found :=
      Option.some.inj ((attributeOf_behind hothers rest).symm.trans huri)
    have hquote := one_quote_of_prefix hfound hrest
    obtain ⟨n, hn⟩ := one_quote_iff.mp hquote
    refine ⟨hothers, hquote, ?_⟩
    cases hmore : (cut true rest).2 with
    | none => exact .inl rfl
    | some more =>
      right
      rw [hfound] at hn
      rw [hmore, hn, hrest, append_assoc] at hfields
      have hafter : '"' :: after = List.replicate n '"' ++ ',' :: more :=
        append_cancel_left hfields
      rw [hn, rtakeWhile_replicate (hfound ▸ getLast?_trimQuotes _)]
      by_contra heven
      -- with an even number of quotes the comma belongs to the value
      have hread := hnames ['x'] (by decide) (by decide)
      rw [attributeOf_behind hothers, hafter, cut_name (by decide) (by decide),
        decide_eq_true heven] at hread
      have hcomma : ',' ∈ trimQuotes ('"' :: (['x'] ++ List.replicate n '"' ++
          (cut true (',' :: more)).1)) := mem_trimQuotes_of_ne (by decide) (by simp [cut, toggled])
      rw [Option.some.inj hread] at hcomma
      exact absurd hcomma (by decide)
  · rintro ⟨hothers, hquote, hclosed⟩
    have hvalue : trimQuotes ('"' :: (cut true rest).1) = uri :=
      Option.some.inj ((attributeOf_behind hothers rest).symm.trans huri)
    obtain ⟨n, hn⟩ := one_quote_iff.mp hquote
    rw [hvalue] at hn
    rw [hn, rtakeWhile_replicate (hvalue ▸ getLast?_trimQuotes _)] at hclosed
    rw [hn, append_assoc] at hfields
    generalize (cut true rest).2 = more at hfields hclosed
    have hsplit := splitAtByte_append uri (List.replicate n '"' ++ more.elim [] (',' :: ·))
    rw [← hfields, ← hlength, hrest, splitAtByte_append] at hsplit
    obtain ⟨rfl, hafter⟩ := Prod.mk.inj (Option.some.inj hsplit)
    refine ⟨rfl, fun name hname hcomma => ?_⟩
    rw [attributeOf_behind hothers, hafter, cut_name hname hcomma]
    have hend : (cut (decide (n % 2 ≠ 1)) (more.elim [] (',' :: ·))).1 = [] := by
      cases more with
      | none => rfl
      | some more =>
        rw [decide_eq_false (not_not_intro (hclosed.resolve_left nofun))]
        rfl
    rw [hend, append_nil]
    exact congrArg some (trimQuotes_replicate 1 n hname)

end Qbutt.Hls
