import Qbutt.Algorithm.Except
import Qbutt.Dash.Template

/-!
# Start times: equivalence lemmas

`Starts` says which start times the entries of a timeline stand for, and `Times` which ones a template
stands for, in exact arithmetic; with `checked` they keep to the limits of the downloader and to 64
bits.  What `timelineItems` and `plainItems` return is what the template stands for within these limits
(`timelineItems_eq_ok`, `plainItems_eq_ok`); the end of the presentation that does not fit into 64 bits
is the only difference (`Starts.length_lt`).
-/

namespace Qbutt.Dash

open List

/-- How many segments an entry stands for: `r` after the first one, or as many as fill the time up to
the next entry's `t` or, without one, up to the end of the presentation. -/
inductive Count (presentationEnd : Option ℕ) (entry : Entry) (rest : List Entry)
    (first duration : ℕ) : ℕ → Prop where
  | repeated {r : ℕ} (h : entry.repeats = some (r : ℤ)) :
      Count presentationEnd entry rest first duration (r + 1)
  | filled {stop count : ℕ} (h : entry.repeats = some (-1))
      (hstop : (rest.head?.bind Entry.start).or presentationEnd = some stop)
      (hlow : first + count * duration < stop) (hhigh : stop ≤ first + (count + 1) * duration) :
      Count presentationEnd entry rest first duration (count + 1)

/-- The start times of the segments of entries, whose time begins anew at every `t`. -/
inductive Starts (checked : Bool) (presentationEnd : Option ℕ) : ℕ → List Entry → List ℕ → Prop where
  | nil {time : ℕ} : Starts checked presentationEnd time [] []
  | cons {time duration count : ℕ} {entry : Entry} {rest : List Entry} {times : List ℕ}
      (hduration : u64Attribute entry.d = some duration) (hpos : 0 < duration)
      (hcount : Count presentationEnd entry rest (entry.start.getD time) duration count)
      (hchecked : checked →
        count ≤ maxResources ∧ entry.start.getD time + count * duration < 2 ^ 64)
      (hrest : Starts checked presentationEnd (entry.start.getD time + count * duration) rest times) :
      Starts checked presentationEnd time (entry :: rest)
        ((List.range count).map (fun i => entry.start.getD time + i * duration) ++ times)

inductive Times (checked : Bool) (presentationEnd : Option ℕ) (seconds : Option Duration)
    (template : SegmentTemplate) (timescale : ℕ) : List ℕ → Prop where
  | timeline {entries : List Entry} {times : List ℕ} (h : template.timeline = some entries)
      (hstarts : Starts checked presentationEnd 0 entries times) :
      Times checked presentationEnd seconds template timescale times
  | plain {D : Duration} {duration : ℕ} (h : template.timeline = none) (hseconds : seconds = some D)
      (hduration : u64Attribute template.duration = some duration) (hpos : 0 < duration)
      (hchecked : checked → 0 < ⌈D.val * timescale / duration⌉₊ ∧
        ⌈D.val * timescale / duration⌉₊ ≤ maxResources ∧
        (⌈D.val * timescale / duration⌉₊ - 1) * duration < 2 ^ 64) :
      Times checked presentationEnd seconds template timescale
        ((List.range ⌈D.val * timescale / duration⌉₊).map (· * duration))

inductive FillsToEnd : List Entry → Prop where
  | here {entry : Entry} {rest : List Entry} (h : entry.repeats = some (-1))
      (hnext : rest.head?.bind Entry.start = none) : FillsToEnd (entry :: rest)
  | there {entry : Entry} {rest : List Entry} (h : FillsToEnd rest) : FillsToEnd (entry :: rest)

variable {presentationEnd : Option ℕ} {entry : Entry} {entries rest : List Entry}
  {time first duration count stop : ℕ} {times items : List ℕ}

/-! ### Arithmetic -/

theorem okOr_eq_ok {α : Type} {value : Option α} {fault : Fault} {a : α} :
    okOr value fault = .ok a ↔ value = some a := by
  cases value with
  | none => exact ⟨nofun, nofun⟩
  | some b => exact ⟨fun h => congrArg some (Except.ok.inj h), fun h =>
      congrArg Except.ok (Option.some.inj h)⟩

theorem checkedAdd_eq_ok {a b c : ℕ} : checkedAdd a b = .ok c ↔ c = a + b ∧ a + b < 2 ^ 64 := by
  unfold checkedAdd
  split_ifs with h
  · exact ⟨fun heq => ⟨(Except.ok.inj heq).symm, h⟩, fun heq => congrArg Except.ok heq.1.symm⟩
  · exact ⟨nofun, fun heq => absurd heq.2 h⟩

/-- The quotient that is rounded up is the least number of parts that cover the whole. -/
theorem divCeil_eq_iff {a b n : ℕ} (hb : 0 < b) :
    divCeil a b = n + 1 ↔ n * b < a ∧ a ≤ (n + 1) * b := by
  unfold divCeil
  rw [Nat.div_eq_iff hb]
  have hstep : (n + 1) * b = n * b + b := Nat.succ_mul n b
  constructor
  · rintro ⟨hlow, hhigh⟩
    omega
  · rintro ⟨hlow, hhigh⟩
    omega

/-! ### The items of an entry -/

theorem pushItems_eq_ok : pushItems duration count time = .ok (items, stop) ↔
    items = (List.range count).map (fun i => time + i * duration) ∧
      stop = time + count * duration ∧ (0 < count → stop < 2 ^ 64) := by
  induction count generalizing time items with
  | zero =>
    constructor
    · intro h
      cases h
      exact ⟨rfl, by omega, nofun⟩
    · rintro ⟨rfl, rfl, -⟩
      rw [Nat.zero_mul, Nat.add_zero]
      rfl
  | succ count ih =>
    have hlist : (List.range (count + 1)).map (fun i => time + i * duration) =
        time :: (List.range count).map (fun i => time + duration + i * duration) := by
      rw [range_succ_eq_map, map_cons, map_map]
      refine congrArg₂ List.cons (by omega) (map_congr_left fun i _ => ?_)
      show time + (i + 1) * duration = time + duration + i * duration
      rw [Nat.succ_mul]
      omega
    have hstep : (count + 1) * duration = count * duration + duration := Nat.succ_mul count duration
    rw [hlist, pushItems]
    constructor
    · intro h
      obtain ⟨next, hnext, h⟩ := bind_eq_ok.mp h
      obtain ⟨rfl, hfit⟩ := checkedAdd_eq_ok.mp hnext
      obtain ⟨⟨others, stop'⟩, hothers, h⟩ := bind_eq_ok.mp h
      cases h
      obtain ⟨rfl, rfl, hstop⟩ := ih.mp hothers
      refine ⟨rfl, by omega, fun _ => ?_⟩
      rcases Nat.eq_zero_or_pos count with rfl | hcount
      · omega
      · exact hstop hcount
    · rintro ⟨rfl, rfl, hstop⟩
      have hfit := hstop (Nat.succ_pos count)
      refine bind_eq_ok.mpr ⟨time + duration, checkedAdd_eq_ok.mpr ⟨rfl, by omega⟩, ?_⟩
      refine bind_eq_ok.mpr ⟨(_, time + (count + 1) * duration), ih.mpr ⟨rfl, by omega, ?_⟩, rfl⟩
      intro _
      exact hfit

theorem count_eq_ok {r : ℤ} (hrepeats : entry.repeats = some r) (hlow : -1 ≤ r)
    (hpos : 0 < duration) :
    (entry.count rest presentationEnd r first duration = .ok count ∧ count ≠ 0) ↔
      Count presentationEnd entry rest first duration count := by
  unfold Entry.count
  split_ifs with hr
  · subst hr
    constructor
    · rintro ⟨h, hne⟩
      obtain ⟨stop, hstop, h⟩ := bind_eq_ok.mp h
      obtain ⟨n, rfl⟩ := Nat.exists_eq_succ_of_ne_zero hne
      obtain ⟨hbelow, habove⟩ := (divCeil_eq_iff hpos).mp (Except.ok.inj h)
      exact .filled hrepeats (okOr_eq_ok.mp hstop) (by omega) (by omega)
    · intro h
      cases h with
      | repeated h =>
        have heq := Option.some.inj (hrepeats.symm.trans h)
        omega
      | @filled stop n _ hstop hbelow habove =>
        have hquotient : divCeil (stop - first) duration = n + 1 :=
          (divCeil_eq_iff hpos).mpr ⟨by omega, by omega⟩
        refine ⟨bind_eq_ok.mpr ⟨stop, okOr_eq_ok.mpr hstop, ?_⟩, Nat.succ_ne_zero n⟩
        rw [hquotient]
        rfl
  · constructor
    · rintro ⟨h, -⟩
      cases h
      exact .repeated (by rw [hrepeats]; exact congrArg some (by omega))
    · intro h
      cases h with
      | @repeated n h =>
        cases hrepeats.symm.trans h
        exact ⟨rfl, Nat.succ_ne_zero n⟩
      | filled h => exact absurd (Option.some.inj (hrepeats.symm.trans h)) hr

theorem Count.pos (h : Count presentationEnd entry rest first duration count) : 0 < count := by
  cases h with
  | repeated => exact Nat.succ_pos _
  | filled => exact Nat.succ_pos _

/-- What an entry stands for repeats no more often than it says. -/
theorem Count.repeats_range (h : Count presentationEnd entry rest first duration count)
    (hle : count ≤ maxResources) :
    ∃ r, entry.repeats = some r ∧ -1 ≤ r ∧ r ≤ maxResources := by
  cases h with
  | @repeated r h => exact ⟨r, h, by omega, by exact_mod_cast (by omega : r ≤ maxResources)⟩
  | filled h => exact ⟨-1, h, le_rfl, by decide⟩

/-! ### Timelines -/

/-- The loop over the entries of a timeline returns what they stand for within the limits. -/
theorem timelineItems_eq_ok :
    timelineItems presentationEnd time entries = .ok times ↔
      Starts true presentationEnd time entries times := by
  induction entries generalizing time times with
  | nil =>
    constructor
    · intro h
      cases h
      exact .nil
    · intro h
      cases h
      rfl
  | cons entry rest ih =>
    rw [timelineItems]
    constructor
    · intro h
      obtain ⟨duration, hduration, h⟩ := bind_eq_ok.mp h
      obtain ⟨r, hrepeats, h⟩ := bind_eq_ok.mp h
      split_ifs at h with hrange
      push Not at hrange
      obtain ⟨hne, hlow, hhigh⟩ := hrange
      obtain ⟨count, hcount, h⟩ := bind_eq_ok.mp h
      split_ifs at h with hbad
      push Not at hbad
      obtain ⟨⟨items, stop⟩, hitems, h⟩ := bind_eq_ok.mp h
      obtain ⟨others, hothers, h⟩ := bind_eq_ok.mp h
      cases h
      obtain ⟨rfl, rfl, hfit⟩ := pushItems_eq_ok.mp hitems
      have hpos : 0 < duration := Nat.pos_of_ne_zero hne
      exact .cons (okOr_eq_ok.mp hduration) hpos
        ((count_eq_ok (okOr_eq_ok.mp hrepeats) hlow hpos).mp ⟨hcount, hbad.1⟩)
        (fun _ => ⟨hbad.2, hfit (Nat.pos_of_ne_zero hbad.1)⟩) (ih.mp hothers)
    · intro h
      cases h with
      | @cons _ duration count _ _ others hduration hpos hcount hchecked hrest =>
        obtain ⟨hmax, hfit⟩ := hchecked rfl
        obtain ⟨r, hrepeats, hlow, hhigh⟩ := hcount.repeats_range hmax
        obtain ⟨hcount, hne⟩ := (count_eq_ok hrepeats hlow hpos).mpr hcount
        refine bind_eq_ok.mpr ⟨duration, okOr_eq_ok.mpr hduration, ?_⟩
        refine bind_eq_ok.mpr ⟨r, okOr_eq_ok.mpr hrepeats, ?_⟩
        rw [if_neg (by omega)]
        refine bind_eq_ok.mpr ⟨count, hcount, ?_⟩
        rw [if_neg (by omega)]
        refine bind_eq_ok.mpr ⟨_, pushItems_eq_ok.mpr ⟨rfl, rfl, fun _ => hfit⟩, ?_⟩
        exact bind_eq_ok.mpr ⟨others, ih.mpr hrest, rfl⟩

theorem Starts.unchecked {checked : Bool} (h : Starts checked presentationEnd time entries times) :
    Starts false presentationEnd time entries times := by
  induction h with
  | nil => exact .nil
  | cons hduration hpos hcount _ _ ih => exact .cons hduration hpos hcount nofun ih

theorem Starts.of_not_fillsToEnd {checked : Bool} (hfills : ¬ FillsToEnd entries)
    (h : Starts checked presentationEnd time entries times) (presentationEnd' : Option ℕ) :
    Starts checked presentationEnd' time entries times := by
  induction h with
  | nil => exact .nil
  | @cons time duration count entry rest times hduration hpos hcount hchecked _ ih =>
    refine .cons hduration hpos ?_ hchecked (ih fun h => hfills (.there h))
    cases hcount with
    | repeated h => exact .repeated h
    | filled h hstop hlow hhigh =>
      refine .filled h ?_ hlow hhigh
      cases hnext : rest.head?.bind Entry.start with
      | none => exact absurd (.here h hnext) hfills
      | some next =>
        rw [hnext] at hstop
        exact hstop

/-- What fills up to an end is unique. -/
theorem count_unique {stop n m : ℕ} (hn : first + n * duration < stop)
    (hm : stop ≤ first + (m + 1) * duration) : n ≤ m := by
  by_contra hlt
  have hle : (m + 1) * duration ≤ n * duration := Nat.mul_le_mul_right duration (by omega)
  omega

theorem Starts.eq_nil_of_last (h : Starts true presentationEnd time rest times)
    (hnext : rest.head?.bind Entry.start = none) (htime : 2 ^ 64 - 1 ≤ time) : rest = [] := by
  cases h with
  | nil => rfl
  | @cons _ duration count entry _ _ _ hpos hcount hchecked _ =>
    have hstart : entry.start = none := hnext
    have hfit := (hchecked rfl).2
    rw [hstart, Option.getD_none] at hfit
    have hlarge : 1 ≤ count * duration := Nat.mul_pos hcount.pos hpos
    omega

/-- Entries that fill to an end which does not fit stand for more segments than those that fill to the
last time that does. -/
theorem Starts.length_lt {wholeEnd : ℕ} {more : List ℕ} (hfills : FillsToEnd entries)
    (hend : 2 ^ 64 ≤ wholeEnd) (h : Starts true (some (2 ^ 64 - 1)) time entries times)
    (hwhole : Starts false (some wholeEnd) time entries more) : times.length < more.length := by
  induction hfills generalizing time times more with
  | @here entry rest hrepeats hnext =>
    cases h with
    | @cons _ duration count _ _ others hduration hpos hcount hchecked hrest =>
    cases hwhole with
    | @cons _ duration' count' _ _ others' hduration' hpos' hcount' _ hrest' =>
    cases hduration.symm.trans hduration'
    obtain ⟨-, hfit⟩ := hchecked rfl
    cases hcount with
    | repeated h =>
      have heq := Option.some.inj (hrepeats.symm.trans h)
      omega
    | @filled stop n _ hstop hlow hhigh =>
    cases hcount' with
    | repeated h =>
      have heq := Option.some.inj (hrepeats.symm.trans h)
      omega
    | @filled stop' m _ hstop' hlow' hhigh' =>
    rw [hnext] at hstop hstop'
    obtain rfl : 2 ^ 64 - 1 = stop := Option.some.inj hstop
    obtain rfl : wholeEnd = stop' := Option.some.inj hstop'
    -- the last time is reached, so there is no entry after this one
    obtain rfl := hrest.eq_nil_of_last hnext (by omega)
    cases hrest
    have hlt : n < m := by
      by_contra hle
      have hle' : (m + 1) * duration ≤ (n + 1) * duration := Nat.mul_le_mul_right duration (by omega)
      omega
    rw [length_append, length_append, length_map, length_map,
      length_range, length_range, length_nil]
    omega
  | @there entry rest hfills ih =>
    cases h with
    | @cons _ duration count _ _ others hduration hpos hcount hchecked hrest =>
    cases hwhole with
    | @cons _ duration' count' _ _ others' hduration' hpos' hcount' _ hrest' =>
    cases hduration.symm.trans hduration'
    have hsame : count = count' := by
      cases hcount with
      | repeated h =>
        cases hcount' with
        | repeated h' =>
          have heq := Option.some.inj (h.symm.trans h')
          omega
        | filled h' =>
          have heq := Option.some.inj (h.symm.trans h')
          omega
      | @filled stop n hrepeats hstop hlow hhigh =>
        cases hcount' with
        | repeated h' =>
          have heq := Option.some.inj (hrepeats.symm.trans h')
          omega
        | @filled stop' m _ hstop' hlow' hhigh' =>
          cases hnext : rest.head?.bind Entry.start with
          | none =>
            rw [hnext] at hstop
            obtain rfl : 2 ^ 64 - 1 = stop := Option.some.inj hstop
            obtain rfl := hrest.eq_nil_of_last hnext (by omega)
            cases hfills
          | some next =>
            rw [hnext] at hstop hstop'
            cases hstop.symm.trans hstop'
            have hle := count_unique hlow hhigh'
            have hge := count_unique hlow' hhigh
            omega
    subst hsame
    have hlt := ih hrest hrest'
    simp only [length_append, length_map]
    omega

/-! ### One duration for all -/

theorem ceilU64_eq (q : ℚ) : ceilU64 q = min ⌈q⌉₊ (2 ^ 64 - 1) := by
  rw [ceilU64, Int.ceil_toNat]

/-- The multiplications of the segments all fit, or the first that does not is an overflow. -/
theorem mapM_mulU64 (duration : ℕ) (indices : List ℕ) :
    (indices.mapM fun index => mulU64 index duration) =
      if ∀ index ∈ indices, index * duration < 2 ^ 64 then .ok (indices.map (· * duration))
      else .error .overflow := by
  induction indices with
  | nil => rfl
  | cons index indices ih =>
    rw [mapM_cons, ih]
    by_cases hindex : index * duration < 2 ^ 64
    · rw [mulU64, if_pos hindex]
      by_cases hrest : ∀ index ∈ indices, index * duration < 2 ^ 64
      · have hall : ∀ i ∈ index :: indices, i * duration < 2 ^ 64 :=
          forall_mem_cons.mpr ⟨hindex, hrest⟩
        rw [if_pos hrest, if_pos hall]
        rfl
      · have hnot : ¬ ∀ i ∈ index :: indices, i * duration < 2 ^ 64 := fun h =>
          hrest (forall_mem_cons.mp h).2
        rw [if_neg hrest, if_neg hnot]
        rfl
    · have hnot : ¬ ∀ i ∈ index :: indices, i * duration < 2 ^ 64 := fun h =>
        hindex (forall_mem_cons.mp h).1
      rw [mulU64, if_neg hindex, if_neg hnot]
      rfl

theorem forall_range_mul_lt {n : ℕ} (hn : 0 < n) :
    (∀ index ∈ List.range n, index * duration < 2 ^ 64) ↔ (n - 1) * duration < 2 ^ 64 := by
  constructor
  · intro h
    exact h (n - 1) (mem_range.mpr (by omega))
  · intro h index hindex
    have hle : index * duration ≤ (n - 1) * duration :=
      Nat.mul_le_mul_right duration (by have hlt := mem_range.mp hindex; omega)
    omega

variable {template : SegmentTemplate} {timescale : ℕ} {seconds : Option Duration}

/-- The count of the segments, as the exact number when it is within the limits. -/
theorem count_within {q : ℚ} : ¬ (ceilU64 q = 0 ∨ maxResources < ceilU64 q) ↔
    0 < ⌈q⌉₊ ∧ ⌈q⌉₊ ≤ maxResources := by
  rw [ceilU64_eq]
  have hmax : maxResources = 10000 := rfl
  omega

/-- The segments of one duration for all, by the exact count. -/
theorem plainItems_of {D : Duration} (hduration : u64Attribute template.duration = some duration)
    (hpos : 0 < duration) : plainItems template timescale (some D) =
      if 0 < ⌈D.val * timescale / (duration : ℚ)⌉₊ ∧
          ⌈D.val * timescale / (duration : ℚ)⌉₊ ≤ maxResources then
        if (⌈D.val * timescale / (duration : ℚ)⌉₊ - 1) * duration < 2 ^ 64 then
          .ok ((List.range ⌈D.val * timescale / (duration : ℚ)⌉₊).map (· * duration))
        else .error .overflow
      else .error .format := by
  have hwithin := count_within (q := D.val * timescale / (duration : ℚ))
  have hexact := ceilU64_eq (D.val * timescale / (duration : ℚ))
  have hmax : maxResources = 10000 := rfl
  unfold plainItems
  rw [hduration]
  show (if duration = 0 then _ else _) = _
  rw [if_neg (by omega)]
  by_cases hcount : 0 < ⌈D.val * timescale / (duration : ℚ)⌉₊ ∧
      ⌈D.val * timescale / (duration : ℚ)⌉₊ ≤ maxResources
  · have heq : ceilU64 (D.val * timescale / (duration : ℚ)) =
        ⌈D.val * timescale / (duration : ℚ)⌉₊ := by omega
    have hfit : (∀ index ∈ List.range ⌈D.val * timescale / (duration : ℚ)⌉₊,
        index * duration < 2 ^ 64) ↔ _ := forall_range_mul_lt hcount.1
    rw [if_neg (hwithin.mpr hcount), if_pos hcount, heq, mapM_mulU64]
    simp only [hfit]
  · rw [if_pos (not_not.mp fun h => hcount (hwithin.mp h)), if_neg hcount]

theorem plainItems_refused (timescale : ℕ) (h : seconds = none ∨ ∀ duration,
    u64Attribute template.duration = some duration → duration = 0) :
    plainItems template timescale seconds = .error .format ∨
      plainItems template timescale seconds = .error .unsupportedMedia := by
  unfold plainItems
  cases seconds with
  | none => exact .inr rfl
  | some D =>
    cases hduration : u64Attribute template.duration with
    | none => exact .inl rfl
    | some duration =>
      obtain rfl := (h.resolve_left nofun) duration hduration
      exact .inl rfl

theorem plainItems_eq_ok (h : template.timeline = none) :
    plainItems template timescale seconds = .ok times ↔
      Times true presentationEnd seconds template timescale times := by
  by_cases hrefused : seconds = none ∨ ∀ duration,
      u64Attribute template.duration = some duration → duration = 0
  · constructor
    · intro hok
      rcases plainItems_refused timescale hrefused with heq | heq <;>
        rw [heq] at hok <;> cases hok
    · intro htimes
      cases htimes with
      | timeline h' => rw [h] at h'; cases h'
      | plain _ hseconds hduration hpos =>
        rcases hrefused with hnone | hzero
        · rw [hseconds] at hnone
          cases hnone
        · have hdur := hzero _ hduration
          omega
  · push Not at hrefused
    obtain ⟨hsome, duration, hduration, hne⟩ := hrefused
    obtain ⟨D, rfl⟩ := Option.ne_none_iff_exists'.mp hsome
    have hpos : 0 < duration := Nat.pos_of_ne_zero hne
    rw [plainItems_of hduration hpos]
    constructor
    · intro hok
      split_ifs at hok with hcount hfit
      cases hok
      obtain ⟨hlow, hhigh⟩ := hcount
      exact .plain h rfl hduration hpos fun _ => ⟨hlow, hhigh, hfit⟩
    · intro htimes
      cases htimes with
      | timeline h' => rw [h] at h'; cases h'
      | @plain D' duration' _ hseconds hduration' _ hchecked =>
        cases hseconds
        cases hduration.symm.trans hduration'
        obtain ⟨hlow, hhigh, hfit⟩ := hchecked rfl
        rw [if_pos ⟨hlow, hhigh⟩, if_pos hfit]

theorem plainItems_eq_overflow : plainItems template timescale seconds = .error .overflow ↔
    ∃ (D : Duration) (duration : ℕ), seconds = some D ∧
      u64Attribute template.duration = some duration ∧ 0 < duration ∧
      ⌈D.val * timescale / (duration : ℚ)⌉₊ ≤ maxResources ∧
      2 ^ 64 ≤ (⌈D.val * timescale / (duration : ℚ)⌉₊ - 1) * duration := by
  constructor
  · intro h
    by_cases hrefused : seconds = none ∨ ∀ duration,
        u64Attribute template.duration = some duration → duration = 0
    · rcases plainItems_refused timescale hrefused with heq | heq <;>
        rw [heq] at h <;> cases h
    · push Not at hrefused
      obtain ⟨hsome, duration, hduration, hne⟩ := hrefused
      obtain ⟨D, rfl⟩ := Option.ne_none_iff_exists'.mp hsome
      have hpos : 0 < duration := Nat.pos_of_ne_zero hne
      rw [plainItems_of hduration hpos] at h
      split_ifs at h with hcount hfit
      · exact ⟨D, duration, rfl, hduration, hpos, hcount.2, Nat.le_of_not_lt hfit⟩
      · cases h
  · rintro ⟨D, duration, rfl, hduration, hpos, hmax, hbig⟩
    have hcount : 0 < ⌈D.val * timescale / (duration : ℚ)⌉₊ := by
      by_contra hzero
      have heq : ⌈D.val * timescale / (duration : ℚ)⌉₊ = 0 := by omega
      rw [heq, Nat.zero_sub, Nat.zero_mul] at hbig
      omega
    rw [plainItems_of hduration hpos, if_pos ⟨hcount, hmax⟩, if_neg (Nat.not_lt.mpr hbig)]

end Qbutt.Dash
