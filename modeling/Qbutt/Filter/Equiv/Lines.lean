import Qbutt.Algorithm.Lines
import Qbutt.Filter.Equiv.Address

/-!
# Lines read in place

What the parsers of lines make of a line, as functions of the line alone (`datVerdict`,
`p2pVerdict`).  The parsers read it in a buffer, in which they only change bytes of the line, and
never go outside of the buffer (`parseDATLine_local`, `parseP2PLine_local`).
-/

namespace Qbutt.Filter

open QByteArray List Option

/-! ### Lines alone -/

def beforeNull (text : Bytes) : Bytes := text.takeWhile (· ≠ 0)

/-- A text without blanks around it.  The source leaves a text of one byte as it is. -/
def trimmedText (text : Bytes) : Bytes := if text.length ≤ 1 then text else trimmed text

/-- What two texts say as a range. -/
def rangeVerdict (makeAddress : Bytes → Option Address) (first last : Bytes) : Verdict :=
  match parseIPAddress makeAddress (beforeNull (trimmedText first)) with
  | none => .malformed " Start IP of the range is malformed."
  | some startAddr =>
    match parseIPAddress makeAddress (beforeNull (trimmedText last)) with
    | none => .malformed " End IP of the range is malformed."
    | some endAddr =>
      if startAddr.isV4 ≠ endAddr.isV4 ∨ startAddr.isV6 ≠ endAddr.isV6 then
        .malformed " One IP is IPv4 and the other is IPv6!"
      else .range startAddr endAddr

def datRangeVerdict (makeAddress : Bytes → Option Address) (range : Bytes) : Verdict :=
  match cutAt 45 range with
  | none => .malformed ""
  | some (first, last) =>
    match rangeVerdict makeAddress first last with
    | .range startAddr endAddr =>
      if endAddr.lt startAddr then .malformed " End IP is lower than Start IP!"
      else .range startAddr endAddr
    | verdict => verdict

/-- The access level of a DAT line, from what is behind its first comma. -/
def accessLevel (rest : Bytes) : ℤ :=
  match cutAt 44 rest with
  | none => (strtol (beforeNull rest)).1
  | some (access, _) => (strtol (beforeNull access)).1

def datVerdict (makeAddress : Bytes → Option Address) (line : Bytes) : Verdict :=
  match cutAt 44 line with
  | none => datRangeVerdict makeAddress line
  | some (range, rest) =>
    if accessLevel rest > 127 then .ignored else datRangeVerdict makeAddress range

/-- What a P2P line says that is no comment.  The zero byte that ends the line belongs to the last
text. -/
def p2pVerdict (makeAddress : Bytes → Option Address) (line : Bytes) : Verdict :=
  match cutLast 58 line with
  | none => .malformed ""
  | some (_, range) =>
    match cutAt 45 range with
    | none => .malformed ""
    | some (first, last) => rangeVerdict makeAddress first (last ++ [0])

/-- A comment starts with `#` or `//`. -/
def IsComment (line : Bytes) : Prop := line.head? = some 35 ∨ line.take 2 = [47, 47]

instance (line : Bytes) : Decidable (IsComment line) := by unfold IsComment; infer_instance

/-! ### Bytes of the buffer -/

theorem getElem?_at (front : Bytes) (b : UInt8) (back : Bytes) :
    (front ++ b :: back)[front.length]? = some b := by
  rw [List.getElem?_append_right (Nat.le_refl _), Nat.sub_self, List.getElem?_cons_zero]

theorem setNull_at (front : Bytes) (b : UInt8) (back : Bytes) :
    setNull (front ++ b :: back) front.length = some (front ++ 0 :: back) := by
  have hlength : front.length < (front ++ b :: back).length := by
    rw [length_append, length_cons]
    omega
  rw [setNull, if_pos hlength, set_append_right _ _ (Nat.le_refl _), Nat.sub_self, set_cons_zero]

theorem cString_at (front text back : Bytes) (hend : 0 ∈ text ∨ back.head? = some 0) :
    cString (front ++ (text ++ back)) front.length = some (beforeNull text) := by
  unfold cString beforeNull
  rw [drop_left]
  by_cases h : (0 : UInt8) ∈ text
  · obtain ⟨before, after, rfl, hbefore⟩ := eq_append_cons_of_mem h
    have hall : ∀ b ∈ before, decide (b ≠ 0) = true := by
      intro b hb
      rw [decide_eq_true_eq]
      rintro rfl
      exact hbefore hb
    rw [if_pos (mem_append_left _ h), append_assoc,
      takeWhile_append_of_pos hall, takeWhile_append_of_pos hall, cons_append,
      takeWhile_cons_of_neg (by simp), takeWhile_cons_of_neg (by simp)]
  · have hall : ∀ b ∈ text, decide (b ≠ 0) = true := by
      intro b hb
      rw [decide_eq_true_eq]
      rintro rfl
      exact h hb
    cases back with
    | nil => exact absurd (hend.resolve_left h) (by simp)
    | cons b back =>
      obtain rfl : b = 0 := by simpa using hend.resolve_left h
      rw [if_pos (mem_append_right _ mem_cons_self), takeWhile_append_of_pos hall,
        takeWhile_cons_of_neg (by simp), append_nil, takeWhile_eq_self_iff.mpr hall]

/-! ### Delimiters -/

variable {delimiter : UInt8} {seg before after : Bytes}

theorem findForward_none (front back : Bytes) (h : delimiter ∉ seg) :
    findForward (front ++ (seg ++ back)) delimiter front.length seg.length = some none := by
  induction seg generalizing front with
  | nil => rfl
  | cons b seg ih =>
    rw [mem_cons, not_or] at h
    have hrest := ih (front ++ [b]) h.2
    rw [append_assoc, singleton_append, length_append, length_singleton] at hrest
    rw [length_cons, findForward, cons_append, getElem?_at]
    simp only [bind_eq_bind, bind_some, if_neg (Ne.symm h.1)]
    exact hrest

theorem findForward_some (front after : Bytes) {n : ℕ} (h : delimiter ∉ before)
    (hn : before.length < n) :
    findForward (front ++ (before ++ delimiter :: after)) delimiter front.length n =
      some (some (front.length + before.length)) := by
  induction before generalizing front n with
  | nil =>
    cases n with
    | zero => exact absurd hn (Nat.not_lt_zero _)
    | succ n =>
      rw [findForward, nil_append, getElem?_at]
      simp
  | cons b before ih =>
    cases n with
    | zero => exact absurd hn (Nat.not_lt_zero _)
    | succ n =>
      rw [mem_cons, not_or] at h
      rw [length_cons] at hn
      have hrest := ih (front ++ [b]) h.2 (show before.length < n by omega)
      rw [append_assoc, singleton_append, length_append, length_singleton] at hrest
      rw [findForward, cons_append, getElem?_at]
      simp only [bind_eq_bind, bind_some, if_neg (Ne.symm h.1)]
      rw [hrest, length_cons, show front.length + 1 + before.length =
        front.length + (before.length + 1) by omega]

theorem findBackward_none (front back : Bytes) (h : delimiter ∉ seg) :
    findBackward (front ++ (seg ++ back)) delimiter front.length seg.length = some none := by
  induction seg using List.reverseRecOn generalizing back with
  | nil => rfl
  | append_singleton seg b ih =>
    rw [mem_append, mem_singleton, not_or] at h
    have hget : (front ++ (seg ++ [b] ++ back))[front.length + seg.length]? = some b := by
      have := getElem?_at (front ++ seg) b back
      rw [length_append] at this
      rw [← this]
      simp
    rw [length_append, length_singleton, findBackward, hget]
    simp only [bind_eq_bind, bind_some, if_neg (Ne.symm h.2)]
    have hrest := ih (b :: back) h.1
    rw [append_assoc, singleton_append]
    exact hrest

theorem findBackward_some (front before back : Bytes) (h : delimiter ∉ after) :
    findBackward (front ++ (before ++ delimiter :: (after ++ back))) delimiter front.length
      (before.length + 1 + after.length) = some (some (front.length + before.length)) := by
  induction after using List.reverseRecOn generalizing back with
  | nil =>
    have hget := getElem?_at (front ++ before) delimiter back
    rw [length_append, append_assoc] at hget
    rw [nil_append, length_nil, Nat.add_zero, findBackward, hget]
    simp
  | append_singleton after b ih =>
    rw [mem_append, mem_singleton, not_or] at h
    have hget : (front ++ (before ++ delimiter :: (after ++ [b] ++ back)))[front.length +
        (before.length + 1 + after.length)]? = some b := by
      have := getElem?_at (front ++ (before ++ delimiter :: after)) b back
      rw [length_append, length_append, length_cons,
        show before.length + (after.length + 1) = before.length + 1 + after.length by omega] at this
      rw [← this]
      simp
    rw [length_append, length_singleton,
      show before.length + 1 + (after.length + 1) = before.length + 1 + after.length + 1 by omega,
      findBackward, hget]
    simp only [bind_eq_bind, bind_some, if_neg (Ne.symm h.2)]
    have hrest := ih (b :: back) h.1
    rw [append_assoc, singleton_append]
    exact hrest

theorem findAndNullDelimiter_none (front back : Bytes) (stop : ℕ) (reverse : Bool)
    (h : delimiter ∉ seg) (hstop : stop = front.length + seg.length) :
    findAndNullDelimiter (front ++ (seg ++ back)) delimiter front.length stop reverse =
      some (front ++ (seg ++ back), none) := by
  rw [findAndNullDelimiter, hstop, Nat.add_sub_cancel_left, findForward_none _ _ h,
    findBackward_none _ _ h]
  cases reverse <;> rfl

theorem findAndNullDelimiter_first (front after : Bytes) (stop : ℕ) (h : delimiter ∉ before)
    (hstop : front.length + before.length < stop) :
    findAndNullDelimiter (front ++ (before ++ delimiter :: after)) delimiter front.length stop
        false =
      some (front ++ (before ++ 0 :: after), some (front.length + before.length)) := by
  have hset := setNull_at (front ++ before) delimiter after
  rw [length_append, append_assoc, append_assoc] at hset
  rw [findAndNullDelimiter, findForward_some _ _ h (by omega)]
  simp only [Bool.false_eq_true, if_false, bind_eq_bind, bind_some, hset,
    map_some]

theorem findAndNullDelimiter_last (front before back : Bytes) (stop : ℕ) (h : delimiter ∉ after)
    (hstop : stop = front.length + (before.length + 1 + after.length)) :
    findAndNullDelimiter (front ++ (before ++ delimiter :: (after ++ back))) delimiter front.length
        stop true =
      some (front ++ (before ++ 0 :: (after ++ back)), some (front.length + before.length)) := by
  have hset := setNull_at (front ++ before) delimiter (after ++ back)
  rw [length_append, append_assoc, append_assoc] at hset
  rw [findAndNullDelimiter, hstop, Nat.add_sub_cancel_left, findBackward_some _ _ _ h]
  simp only [if_true, bind_eq_bind, bind_some, hset, map_some]

/-! ### Blanks -/

/-- The zeros for the bytes that were overwritten. -/
abbrev nulls (n : ℕ) : Bytes := List.replicate n 0

theorem trimStart_eq (front seg back : Bytes) :
    trimStart (front ++ (seg ++ back)) front.length seg.length =
      some (front ++ (nulls (seg.takeWhile isSpace).length ++ (seg.dropWhile isSpace ++ back)),
        if seg.dropWhile isSpace = [] then none
        else some (front.length + (seg.takeWhile isSpace).length)) := by
  induction seg generalizing front with
  | nil => rfl
  | cons b seg ih =>
    rw [length_cons, trimStart, cons_append, getElem?_at]
    simp only [bind_eq_bind, bind_some]
    by_cases hb : isSpace b = true
    · have hrest := ih (front ++ [0])
      rw [append_assoc, singleton_append, length_append, length_singleton] at hrest
      rw [if_pos hb, setNull_at, bind_some, hrest, takeWhile_cons_of_pos hb,
        dropWhile_cons_of_pos hb, length_cons, append_assoc, singleton_append, nulls, nulls,
        replicate_succ, cons_append, Nat.add_assoc, Nat.add_comm 1 (seg.takeWhile isSpace).length]
    · rw [if_neg hb, takeWhile_cons_of_neg hb, dropWhile_cons_of_neg hb]
      rfl

theorem trimEnd_eq (front seg back : Bytes) :
    trimEnd (front ++ (seg ++ back)) front.length seg.length =
      some (front ++ (seg.rdropWhile isSpace ++
        (nulls (seg.length - (seg.rdropWhile isSpace).length) ++ back))) := by
  induction seg using List.reverseRecOn generalizing back with
  | nil => rfl
  | append_singleton seg b ih =>
    have hget := getElem?_at (front ++ seg) b back
    have hset := setNull_at (front ++ seg) b back
    rw [length_append, append_assoc] at hget hset
    rw [length_append, length_singleton, trimEnd, append_assoc, singleton_append, hget]
    simp only [bind_eq_bind, bind_some]
    by_cases hb : isSpace b = true
    · have hle : (seg.rdropWhile isSpace).length ≤ seg.length :=
        ( rdropWhile_prefix isSpace _).length_le
      rw [if_pos hb, hset, bind_some, append_assoc, ih,
        rdropWhile_concat_pos _ _ _ hb,
        show seg.length + 1 - (seg.rdropWhile isSpace).length =
          seg.length - (seg.rdropWhile isSpace).length + 1 by omega,
        nulls, nulls, replicate_succ', append_assoc, singleton_append]
    · rw [if_neg hb, rdropWhile_concat_neg _ _ _ hb, length_append,
        length_singleton, Nat.sub_self, append_assoc]
      rfl

/-- What precedes a byte that is not blank is not trimmed from the end. -/
theorem rdropWhile_append_of_ne {p : UInt8 → Bool} (xs ys : Bytes) (h : ys.rdropWhile p ≠ []) :
    (xs ++ ys).rdropWhile p = xs ++ ys.rdropWhile p := by
  induction ys using List.reverseRecOn with
  | nil => exact absurd rfl h
  | append_singleton ys y ih =>
    by_cases hy : p y = true
    · rw [rdropWhile_concat_pos _ _ _ hy] at h ⊢
      rw [← append_assoc, rdropWhile_concat_pos _ _ _ hy, ih h]
    · rw [rdropWhile_concat_neg _ _ _ hy, ← append_assoc, rdropWhile_concat_neg _ _ _ hy]

theorem rdropWhile_dropWhile_ne_nil {p : UInt8 → Bool} {xs : Bytes} (h : xs.dropWhile p ≠ []) :
    (xs.dropWhile p).rdropWhile p ≠ [] := by
  intro hnil
  have hall := rdropWhile_eq_nil_iff.mp hnil
  exact absurd (hall _ (head_mem h)) (by simp [head_dropWhile_not p h])

theorem rdropWhile_nulls (n : ℕ) : (nulls n).rdropWhile isSpace = nulls n := by
  rw [rdropWhile_eq_self_iff]
  intro hne
  rw [getLast_replicate]
  decide

/-- `trim` leaves the trimmed text, with zeros behind it, at the place it gives. -/
theorem trim_eq (front seg back : Bytes) :
    ∃ lead n, lead.length + (trimmedText seg).length + n = seg.length ∧
      trim (front ++ (seg ++ back)) front.length (front.length + seg.length) =
        some (front ++ (lead ++ (trimmedText seg ++ (nulls n ++ back))),
          front.length + lead.length) := by
  by_cases hshort : seg.length ≤ 1
  · refine ⟨[], 0, ?_, ?_⟩
    · rw [trimmedText, if_pos hshort, length_nil]
      omega
    · rw [trim, if_pos (by omega), trimmedText, if_pos hshort]
      rfl
  have htake : (seg.takeWhile isSpace).length + (seg.dropWhile isSpace).length = seg.length := by
    rw [← length_append, takeWhile_append_dropWhile]
  have hend := trimEnd_eq front (nulls (seg.takeWhile isSpace).length ++ seg.dropWhile isSpace) back
  rw [length_append, length_replicate, htake, append_assoc] at hend
  rw [trim, if_neg (by omega), Nat.add_sub_cancel_left, trimStart_eq, trimmedText, if_neg hshort,
    trimmed]
  simp only [bind_eq_bind, bind_some, hend]
  by_cases hall : seg.dropWhile isSpace = []
  · -- the text is blank, and all of it was overwritten
    have hlength : (seg.takeWhile isSpace).length = seg.length := by
      rw [hall, length_nil] at htake
      omega
    refine ⟨[], seg.length, ?_, ?_⟩
    · rw [hall, rdropWhile_nil, length_nil]
      omega
    · rw [hall, append_nil, rdropWhile_nulls, hlength, length_replicate, Nat.sub_self,
        rdropWhile_nil, if_pos rfl, getD_none]
      rfl
  · have hne := rdropWhile_dropWhile_ne_nil hall
    have hle : ((seg.dropWhile isSpace).rdropWhile isSpace).length ≤
        (seg.dropWhile isSpace).length := ( rdropWhile_prefix isSpace _).length_le
    refine ⟨nulls (seg.takeWhile isSpace).length,
      (seg.dropWhile isSpace).length - ((seg.dropWhile isSpace).rdropWhile isSpace).length, ?_, ?_⟩
    · rw [length_replicate]
      omega
    · rw [rdropWhile_append_of_ne _ _ hne, length_append, length_replicate, if_neg hall,
        getD_some, append_assoc, show seg.length - ((seg.takeWhile isSpace).length +
          ((seg.dropWhile isSpace).rdropWhile isSpace).length) = (seg.dropWhile isSpace).length -
            ((seg.dropWhile isSpace).rdropWhile isSpace).length by omega]

/-! ### Ranges -/

theorem trim_cString (front seg back : Bytes)
    (hend : 0 ∈ trimmedText seg ∨ back.head? = some 0) :
    ∃ seg' newStart, seg'.length = seg.length ∧
      trim (front ++ (seg ++ back)) front.length (front.length + seg.length) =
        some (front ++ (seg' ++ back), newStart) ∧
      cString (front ++ (seg' ++ back)) newStart = some (beforeNull (trimmedText seg)) := by
  obtain ⟨lead, n, hlength, htrim⟩ := trim_eq front seg back
  refine ⟨lead ++ (trimmedText seg ++ nulls n), front.length + lead.length, ?_, ?_, ?_⟩
  · rw [length_append, length_append, length_replicate]
    omega
  · rw [htrim]
    simp only [append_assoc]
  · have hnull : 0 ∈ trimmedText seg ∨ (nulls n ++ back).head? = some 0 := by
      refine hend.imp_right fun h => ?_
      cases n with
      | zero => exact h
      | succ n => rfl
    have hread := cString_at (front ++ lead) (trimmedText seg) (nulls n ++ back) hnull
    rw [length_append] at hread
    rw [← hread]
    simp only [append_assoc]

variable (makeAddress : Bytes → Option Address)

theorem parseRange_eq (front first last back : Bytes)
    (hend : 0 ∈ trimmedText last ∨ back.head? = some 0) :
    ∃ seg', seg'.length = first.length + 1 + last.length ∧
      parseRange makeAddress (front ++ (first ++ 0 :: (last ++ back))) front.length
          (front.length + first.length) (front.length + first.length + 1 + last.length) =
        some (front ++ (seg' ++ back), rangeVerdict makeAddress first last) := by
  obtain ⟨first', newStart, hfirst, htrim, htext⟩ :=
    trim_cString front first (0 :: (last ++ back)) (.inr rfl)
  obtain ⟨last', newStart', hlast, htrim', htext'⟩ :=
    trim_cString (front ++ (first' ++ [0])) last back hend
  have hfront : (front ++ (first' ++ [0])).length = front.length + first.length + 1 := by
    rw [length_append, length_append, length_singleton, hfirst, Nat.add_assoc]
  have hjoin : ∀ xs : Bytes, front ++ (first' ++ [0]) ++ (xs ++ back) =
      front ++ (first' ++ 0 :: (xs ++ back)) := by
    intro xs
    simp only [append_assoc, singleton_append]
  rw [hfront, hjoin, hjoin] at htrim'
  rw [hjoin] at htext'
  unfold parseRange rangeVerdict
  rw [htrim]
  simp only [bind_eq_bind, bind_some, htext]
  cases parseIPAddress makeAddress (beforeNull (trimmedText first)) with
  | none =>
    refine ⟨first' ++ 0 :: last, ?_, by simp⟩
    rw [length_append, length_cons, hfirst]
    omega
  | some startAddr =>
    refine ⟨first' ++ 0 :: last', ?_, ?_⟩
    · rw [length_append, length_cons, hfirst, hlast]
      omega
    · simp only [htrim', bind_some, htext']
      cases parseIPAddress makeAddress (beforeNull (trimmedText last)) with
      | none => simp
      | some endAddr => simp only; split_ifs <;> simp

/-! ### The two formats -/

/-- A parser makes of a line what it says alone, and changes no byte but those of the line and its
end. -/
def IsLocal (parseLine : LineParser) (verdict : Bytes → Verdict) : Prop :=
  ∀ front line back, ∃ line', line'.length = line.length + 1 ∧
    parseLine (front ++ (line ++ 0 :: back)) front.length (front.length + line.length) =
      some (front ++ (line' ++ back), verdict line)

theorem parseDATRange_eq (front range back : Bytes) (hend : back.head? = some 0) :
    ∃ range', range'.length = range.length ∧
      parseDATRange makeAddress (front ++ (range ++ back)) front.length
          (front.length + range.length) =
        some (front ++ (range' ++ back), datRangeVerdict makeAddress range) := by
  unfold parseDATRange datRangeVerdict
  obtain ⟨hnot, hcut⟩ | ⟨first, last, rfl, hfirst, hcut⟩ := cutAt_cases 45 range
  · rw [findAndNullDelimiter_none front back _ false hnot rfl, hcut]
    exact ⟨range, rfl, rfl⟩
  · have hlength : (first ++ 45 :: last).length = first.length + 1 + last.length := by
      rw [length_append, length_cons]
      omega
    obtain ⟨range', hrange, hparse⟩ := parseRange_eq makeAddress front first last back (.inr hend)
    rw [hlength, hcut, append_assoc, cons_append,
      findAndNullDelimiter_first front (last ++ back) _ hfirst (by omega)]
    simp only [bind_eq_bind, bind_some, ← Nat.add_assoc, hparse]
    refine ⟨range', hrange, ?_⟩
    cases rangeVerdict makeAddress first last with
    | ignored => rfl
    | malformed detail => rfl
    | range startAddr endAddr => simp only; split_ifs <;> rfl

/-- The access level of a line whose first comma was overwritten. -/
theorem findAndNullDelimiter_access (front rest back : Bytes) :
    ∃ rest' found text, rest'.length = rest.length ∧
      findAndNullDelimiter (front ++ (rest ++ 0 :: back)) 44 front.length
        (front.length + rest.length + 1) false = some (front ++ (rest' ++ 0 :: back), found) ∧
      cString (front ++ (rest' ++ 0 :: back)) front.length = some text ∧
      (strtol text).1 = accessLevel rest := by
  unfold accessLevel
  obtain ⟨hnot, hcut⟩ | ⟨access, more, rfl, haccess, hcut⟩ := cutAt_cases 44 rest
  · have hnot' : (44 : UInt8) ∉ rest ++ [0] := by
      rw [mem_append, mem_singleton, not_or]
      exact ⟨hnot, by decide⟩
    have hfind := findAndNullDelimiter_none front back (front.length + rest.length + 1) false
      hnot' (by rw [length_append, length_singleton, Nat.add_assoc])
    rw [append_assoc, singleton_append] at hfind
    refine ⟨rest, none, beforeNull rest, rfl, hfind, cString_at _ _ _ (.inr rfl), ?_⟩
    rw [hcut]
  · have hfind := findAndNullDelimiter_first front (more ++ 0 :: back)
      (front.length + (access ++ 44 :: more).length + 1) haccess
      (by rw [length_append, length_cons]; omega)
    refine ⟨access ++ 0 :: more, some (front.length + access.length), beforeNull access, ?_, ?_, ?_,
      ?_⟩
    · rw [length_append, length_append, length_cons, length_cons]
    · simpa only [append_assoc, cons_append] using hfind
    · rw [append_assoc, cons_append]
      exact cString_at _ _ _ (.inr rfl)
    · rw [hcut]

theorem parseDATLine_local : IsLocal (parseDATLine makeAddress) (datVerdict makeAddress) := by
  intro front line back
  unfold parseDATLine datVerdict
  obtain ⟨hnot, hcut⟩ | ⟨range, rest, rfl, hrange, hcut⟩ := cutAt_cases 44 line
  · have hnot' : (44 : UInt8) ∉ line ++ [0] := by
      rw [mem_append, mem_singleton, not_or]
      exact ⟨hnot, by decide⟩
    have hfind := findAndNullDelimiter_none front back (front.length + line.length + 1) false
      hnot' (by rw [length_append, length_singleton, Nat.add_assoc])
    rw [append_assoc, singleton_append] at hfind
    obtain ⟨line', hline, hparse⟩ := parseDATRange_eq makeAddress front line (0 :: back) rfl
    rw [hfind, hcut]
    refine ⟨line' ++ [0], by rw [length_append, length_singleton, hline], ?_⟩
    rw [append_assoc, singleton_append]
    exact hparse
  · have hlength : (range ++ 44 :: rest).length = range.length + 1 + rest.length := by
      rw [length_append, length_cons]
      omega
    have hfind := findAndNullDelimiter_first front (rest ++ 0 :: back)
      (front.length + (range.length + 1 + rest.length) + 1) hrange (by omega)
    obtain ⟨rest', found, text, hrest, hsecond, htext, haccess⟩ :=
      findAndNullDelimiter_access (front ++ (range ++ [0])) rest back
    have hfront : (front ++ (range ++ [0])).length = front.length + range.length + 1 := by
      rw [length_append, length_append, length_singleton, Nat.add_assoc]
    have hjoin : ∀ xs : Bytes, front ++ (range ++ [0]) ++ (xs ++ 0 :: back) =
        front ++ (range ++ 0 :: (xs ++ 0 :: back)) := by
      intro xs
      simp only [append_assoc, singleton_append]
    rw [hfront, hjoin, hjoin, show front.length + range.length + 1 + rest.length + 1 =
      front.length + (range.length + 1 + rest.length) + 1 by omega] at hsecond
    rw [hfront, hjoin] at htext
    rw [hlength, hcut, append_assoc, cons_append, hfind]
    simp only [bind_eq_bind, bind_some, hsecond, htext, haccess]
    by_cases hhigh : accessLevel rest > 127
    · rw [if_pos hhigh, if_pos hhigh]
      refine ⟨range ++ 0 :: (rest' ++ [0]), ?_, by simp⟩
      rw [length_append, length_cons, length_append, length_singleton, hrest]
      omega
    · obtain ⟨range', hrange', hparse⟩ :=
        parseDATRange_eq makeAddress front range (0 :: (rest' ++ 0 :: back)) rfl
      rw [if_neg hhigh, if_neg hhigh, hparse]
      refine ⟨range' ++ 0 :: (rest' ++ [0]), ?_, by simp⟩
      rw [length_append, length_cons, length_append, length_singleton, hrange', hrest]
      omega

theorem zero_mem_trimmedText (last : Bytes) : 0 ∈ trimmedText (last ++ [0]) := by
  unfold trimmedText
  split_ifs
  · exact mem_append_right _ (mem_singleton_self 0)
  · rw [trimmed, dropWhile_append_stop (by decide), rdropWhile_concat_neg _ _ _ (by decide)]
    exact mem_append_right _ (mem_singleton_self 0)

theorem parseP2PLine_local : IsLocal (parseP2PLine makeAddress) (p2pVerdict makeAddress) := by
  intro front line back
  unfold parseP2PLine p2pVerdict
  obtain ⟨hnot, hcut⟩ | ⟨name, range, rfl, hname, hcut⟩ := cutLast_cases 58 line
  · have hnot' : (58 : UInt8) ∉ line ++ [0] := by
      rw [mem_append, mem_singleton, not_or]
      exact ⟨hnot, by decide⟩
    have hfind := findAndNullDelimiter_none front back (front.length + line.length + 1) true
      hnot' (by rw [length_append, length_singleton, Nat.add_assoc])
    rw [append_assoc, singleton_append] at hfind
    rw [hfind, hcut]
    refine ⟨line ++ [0], by rw [length_append, length_singleton], ?_⟩
    rw [append_assoc, singleton_append]
    rfl
  · have hlength : (name ++ 58 :: range).length = name.length + 1 + range.length := by
      rw [length_append, length_cons]
      omega
    have hname' : (58 : UInt8) ∉ range ++ [0] := by
      rw [mem_append, mem_singleton, not_or]
      exact ⟨hname, by decide⟩
    have hfind := findAndNullDelimiter_last front name back
      (front.length + (name.length + 1 + range.length) + 1) hname'
      (by rw [length_append, length_singleton]; omega)
    rw [append_assoc, singleton_append] at hfind
    have hfront : (front ++ (name ++ [0])).length = front.length + name.length + 1 := by
      rw [length_append, length_append, length_singleton, Nat.add_assoc]
    have hjoin : ∀ xs : Bytes, front ++ (name ++ [0]) ++ xs = front ++ (name ++ 0 :: xs) := by
      intro xs
      simp only [append_assoc, singleton_append]
    rw [hlength, hcut, append_assoc, cons_append, hfind]
    simp only [bind_eq_bind, bind_some]
    obtain ⟨hnot, hcut'⟩ | ⟨first, last, rfl, hfirst, hcut'⟩ := cutAt_cases 45 range
    · have hnot' : (45 : UInt8) ∉ range ++ [0] := by
        rw [mem_append, mem_singleton, not_or]
        exact ⟨hnot, by decide⟩
      have hfind' := findAndNullDelimiter_none (front ++ (name ++ [0])) back
        (front.length + (name.length + 1 + range.length) + 1) false hnot'
        (by rw [hfront, length_append, length_singleton]; omega)
      rw [hfront, hjoin, append_assoc, singleton_append] at hfind'
      rw [hfind', hcut']
      refine ⟨name ++ 0 :: (range ++ [0]), ?_, by simp⟩
      rw [length_append, length_cons, length_append, length_singleton]
      omega
    · have hlength' : (first ++ 45 :: last).length = first.length + 1 + last.length := by
        rw [length_append, length_cons]
        omega
      have hfind' := findAndNullDelimiter_first (front ++ (name ++ [0])) (last ++ 0 :: back)
        (front.length + (name.length + 1 + (first.length + 1 + last.length)) + 1) hfirst
        (by rw [hfront]; omega)
      obtain ⟨seg', hseg, hparse⟩ := parseRange_eq makeAddress (front ++ (name ++ [0])) first
        (last ++ [0]) back (.inl (zero_mem_trimmedText last))
      rw [hfront, hjoin, hjoin] at hfind'
      rw [hfront, hjoin, hjoin, append_assoc, singleton_append, length_append,
        length_singleton, show front.length + name.length + 1 + first.length + 1 +
          (last.length + 1) =
            front.length + (name.length + 1 + (first.length + 1 + last.length)) + 1
          by omega] at hparse
      rw [hlength', hcut', append_assoc, cons_append, hfind']
      simp only [bind_some, hparse]
      refine ⟨name ++ 0 :: seg', ?_, by simp⟩
      rw [length_append, length_cons, hseg, length_append, length_singleton]
      omega

end Qbutt.Filter
