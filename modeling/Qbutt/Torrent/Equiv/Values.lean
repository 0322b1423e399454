import Qbutt.Torrent.Equiv.Cursor

/-!
# Values: equivalence lemmas

`value` accepts at an offset exactly the canonical values that begin there and are nested no deeper
than is left (`value_ok`, `value_of`); with fuel for every byte it ends, and reads nothing out of
bounds (`value_safe`).
-/

namespace Qbutt.Torrent

open Qbutt.Bencode List

variable {bytes rest v : Bytes} {fuel depth offset stop : ℕ} {previous : Option Bytes}
  {levels middle : ℕ}

/-- What the loop of `value` reads from an offset: the rest of a list, or of a dictionary whose keys
are greater than the previous one. -/
def Reads (bytes : Bytes) (dictionary : Bool) (previous : Option Bytes) (levels offset stop : ℕ) :
    Prop :=
  if dictionary then
    ∃ entries : List (Bytes × Bytes), (previous.toList ++ entries.map Prod.fst).Pairwise (· < ·) ∧
      (∀ entry ∈ entries, IsValue levels entry.2) ∧
      bytes.drop offset = entries.flatMap encodeEntry ++ 101 :: bytes.drop stop ∧
      stop = offset + (entries.flatMap encodeEntry).length + 1 ∧ stop ≤ bytes.length
  else
    ∃ values : List Bytes, (∀ v ∈ values, IsValue levels v) ∧
      bytes.drop offset = values.flatten ++ 101 :: bytes.drop stop ∧
      stop = offset + values.flatten.length + 1 ∧ stop ≤ bytes.length

theorem reads_end {dictionary : Bool} (h : bytes.drop offset = 101 :: rest)
    (hprevious : previous.toList.Pairwise (· < ·)) :
    Reads bytes dictionary previous levels offset (offset + 1) := by
  have hrest : bytes.drop (offset + 1) = rest := by
    rw [← drop_drop, h]
    rfl
  have hlength := length_of_drop (show bytes.drop offset = [101] ++ rest from h) (by simp)
  rw [length_singleton] at hlength
  unfold Reads
  cases dictionary with
  | true =>
    refine ⟨[], by simpa using hprevious, nofun, ?_, rfl, by omega⟩
    rw [h, hrest]
    rfl
  | false =>
    refine ⟨[], nofun, ?_, rfl, by omega⟩
    rw [h, hrest]
    rfl

theorem reads_entry {start : ℕ} {key value : Bytes}
    (hkey : bytes.drop offset = encodeString key ++ bytes.drop start)
    (hstart : start = offset + (encodeString key).length)
    (hincreasing : ¬ previous.any (key ≤ ·) = true) (hvalue : IsValue levels value)
    (hdrop : bytes.drop start = value ++ bytes.drop middle)
    (hmiddle : middle = start + value.length)
    (hrest : Reads bytes true (some key) levels middle stop) :
    Reads bytes true previous levels offset stop := by
  obtain ⟨entries, hkeys, hvalues, hentries, hstop, hle⟩ := hrest
  refine ⟨(key, value) :: entries, ?_, ?_, ?_, ?_, hle⟩
  · cases hprevious : previous with
    | none => exact hkeys
    | some last =>
      rw [hprevious] at hincreasing
      have hlt : last < key := by
        by_contra hnot
        refine hincreasing ?_
        simpa using hnot
      refine List.pairwise_cons.mpr ⟨fun key' hkey' => ?_, hkeys⟩
      rcases mem_cons.mp hkey' with rfl | hkey'
      · exact hlt
      · exact List.lt_trans hlt ((List.pairwise_cons.mp hkeys).1 key' hkey')
  · intro entry hentry
    rcases mem_cons.mp hentry with rfl | hentry
    · exact hvalue
    · exact hvalues entry hentry
  · rw [hkey, hdrop, hentries, flatMap_cons, encodeEntry]
    simp only [append_assoc]
  · rw [hstop, hmiddle, hstart, flatMap_cons, encodeEntry, length_append, length_append]
    dsimp only
    omega

theorem reads_value {value : Bytes} (hvalue : IsValue levels value)
    (hdrop : bytes.drop offset = value ++ bytes.drop middle)
    (hmiddle : middle = offset + value.length)
    (hrest : Reads bytes false previous levels middle stop) :
    Reads bytes false previous levels offset stop := by
  obtain ⟨values, hvalues, hentries, hstop, hle⟩ := hrest
  refine ⟨value :: values, ?_, ?_, ?_, hle⟩
  · intro v hv
    rcases mem_cons.mp hv with rfl | hv
    · exact hvalue
    · exact hvalues v hv
  · rw [hdrop, hentries, flatten_cons, append_assoc]
  · rw [hstop, hmiddle, flatten_cons, length_append]
    omega

/-- What is accepted is canonical: a value, and what the loop over its items passes. -/
theorem value_items_ok (bytes : Bytes) (fuel : ℕ) :
    (∀ depth offset stop, value bytes fuel depth offset = .ok stop →
      ∃ v, IsValue (65 - depth) v ∧ bytes.drop offset = v ++ bytes.drop stop ∧
        stop = offset + v.length ∧ stop ≤ bytes.length) ∧
    ∀ dictionary previous depth offset stop, previous.toList.Pairwise (· < ·) →
      items bytes fuel dictionary previous depth offset = .ok stop →
      Reads bytes dictionary previous (64 - depth) offset stop := by
  induction fuel with
  | zero => exact ⟨fun _ _ _ h => (nomatch h), fun _ _ _ _ _ _ h => (nomatch h)⟩
  | succ fuel ih =>
    obtain ⟨ihValue, ihItems⟩ := ih
    constructor
    · intro depth offset stop h
      rw [value] at h
      split_ifs at h with hdepth
      obtain ⟨b, hpeek, h⟩ := bind_eq_ok.mp h
      obtain ⟨rest, hb⟩ := peek_eq_ok.mp hpeek
      have hlevels : 65 - depth = (64 - depth) + 1 := by omega
      have hafter : bytes.drop (offset + 1) = rest := by
        rw [← drop_drop, hb]
        rfl
      rw [hlevels]
      split_ifs at h with hdigit hinteger hitems
      · obtain ⟨⟨s, stop'⟩, hstring, h⟩ := bind_eq_ok.mp h
        cases h
        obtain ⟨hdrop, hstop, hle⟩ := string_ok hstring
        exact ⟨_, .string, hdrop, hstop, hle⟩
      · obtain ⟨n, hlow, hhigh, hdrop, hstop, hle⟩ := integer_ok h
        refine ⟨_, .integer hlow hhigh, ?_, ?_, hle⟩
        · rw [hb, ← hafter, hdrop, hinteger, encodeInteger]
          simp
        · rw [hstop, encodeInteger, length_cons, length_append, length_singleton]
          omega
      · have hreads := ihItems _ none depth (offset + 1) stop .nil h
        rcases hitems with rfl | rfl
        · obtain ⟨values, hvalues, hdrop, hstop, hle⟩ := hreads
          refine ⟨_, .list hvalues, ?_, ?_, hle⟩
          · rw [hb, ← hafter, hdrop, encodeList]
            simp
          · rw [hstop, encodeList, length_cons, length_append, length_singleton]
            omega
        · obtain ⟨entries, hkeys, hvalues, hdrop, hstop, hle⟩ := hreads
          refine ⟨_, .dictionary hkeys hvalues, ?_, ?_, hle⟩
          · rw [hb, ← hafter, hdrop, encodeDictionary]
            simp
          · rw [hstop, encodeDictionary, length_cons, length_append, length_singleton]
            omega
    · intro dictionary previous depth offset stop hprevious h
      rw [items] at h
      obtain ⟨b, hpeek, h⟩ := bind_eq_ok.mp h
      obtain ⟨rest, hb⟩ := peek_eq_ok.mp hpeek
      split_ifs at h with hend hdictionary
      · cases h
        rw [hend] at hb
        exact reads_end hb hprevious
      · subst hdictionary
        obtain ⟨⟨key, start⟩, hstring, h⟩ := bind_eq_ok.mp h
        dsimp only at h
        split_ifs at h with hincreasing
        obtain ⟨middle, hvalue, h⟩ := bind_eq_ok.mp h
        obtain ⟨hkey, hstart, -⟩ := string_ok hstring
        obtain ⟨v, hv, hdrop, hmiddle, -⟩ := ihValue _ _ _ hvalue
        rw [show 65 - (depth + 1) = 64 - depth by omega] at hv
        exact reads_entry hkey hstart hincreasing hv hdrop hmiddle
          (ihItems _ _ _ _ _ (pairwise_singleton _ _) h)
      · obtain rfl : dictionary = false := by simpa using hdictionary
        obtain ⟨middle, hvalue, h⟩ := bind_eq_ok.mp h
        obtain ⟨v, hv, hdrop, hmiddle, -⟩ := ihValue _ _ _ hvalue
        rw [show 65 - (depth + 1) = 64 - depth by omega] at hv
        exact reads_value hv hdrop hmiddle (ihItems _ _ _ _ _ hprevious h)

theorem value_ok (h : value bytes fuel depth offset = .ok stop) :
    ∃ v, IsValue (65 - depth) v ∧ bytes.drop offset = v ++ bytes.drop stop ∧
      stop = offset + v.length ∧ stop ≤ bytes.length :=
  (value_items_ok bytes fuel).1 depth offset stop h

/-! ### Everything canonical is accepted -/

theorem isDigit_head_encodeString (s : Bytes) :
    ∃ b tail, encodeString s = b :: tail ∧ isDigit b = true := by
  obtain ⟨b, tail, hdecimal⟩ := exists_cons_of_ne_nil (decimal_ne_nil s.length)
  refine ⟨b, tail ++ 58 :: s, by rw [encodeString, hdecimal]; rfl, ?_⟩
  exact (canonical_decimal s.length).all_digits b (by rw [hdecimal]; exact mem_cons_self)

theorem value_items_of (hbytes : bytes.length < 2 ^ 63) (fuel : ℕ) :
    (∀ depth offset v rest, depth ≤ 64 → IsValue (65 - depth) v → 2 * v.length + 1 ≤ fuel →
      bytes.drop offset = v ++ rest → value bytes fuel depth offset = .ok (offset + v.length)) ∧
    (∀ previous depth offset (values : List Bytes) rest, depth ≤ 64 → (∀ v ∈ values, IsValue (64 - depth) v) →
      2 * (values.flatten.length + 1) ≤ fuel → bytes.drop offset = values.flatten ++ 101 :: rest →
      items bytes fuel false previous depth offset = .ok (offset + values.flatten.length + 1)) ∧
    ∀ previous depth offset (entries : List (Bytes × Bytes)) rest, depth ≤ 64 →
      (previous.toList ++ entries.map Prod.fst).Pairwise (· < ·) →
      (∀ entry ∈ entries, IsValue (64 - depth) entry.2) →
      2 * ((entries.flatMap encodeEntry).length + 1) ≤ fuel →
      bytes.drop offset = entries.flatMap encodeEntry ++ 101 :: rest →
      items bytes fuel true previous depth offset =
        .ok (offset + (entries.flatMap encodeEntry).length + 1) := by
  induction fuel with
  | zero =>
    exact ⟨fun _ _ _ _ _ _ hfuel => by omega, fun _ _ _ _ _ _ _ hfuel => by omega,
      fun _ _ _ _ _ _ _ _ hfuel => by omega⟩
  | succ fuel ih =>
    obtain ⟨ihValue, ihList, ihDictionary⟩ := ih
    refine ⟨?_, ?_, ?_⟩
    · intro depth offset v rest hdepth hv hfuel hdrop
      rw [value, if_neg (by omega)]
      rw [show 65 - depth = (64 - depth) + 1 by omega] at hv
      cases hv with
      | @integer _ n hlow hhigh =>
        have hpeek : peek bytes offset = .ok 105 := peek_eq_ok.mpr ⟨_, hdrop⟩
        have hafter : bytes.drop (offset + 1) = signed n ++ 101 :: rest := by
          rw [← drop_drop, hdrop]
          simp [encodeInteger]
        rw [hpeek, ok_bind, if_neg (by decide), if_pos rfl, integer_of hlow hhigh hafter,
          encodeInteger, length_cons, length_append, length_singleton]
        exact congrArg Except.ok (by omega)
      | @string _ s =>
        obtain ⟨b, tail, hhead, hdigit⟩ := isDigit_head_encodeString s
        have hpeek : peek bytes offset = .ok b :=
          peek_eq_ok.mpr ⟨tail ++ rest, by rw [hdrop, hhead]; rfl⟩
        rw [hpeek, ok_bind, if_pos hdigit, string_of hbytes hdrop]
        rfl
      | @list _ values hvalues =>
        have hpeek : peek bytes offset = .ok 108 := peek_eq_ok.mpr ⟨_, hdrop⟩
        have hafter : bytes.drop (offset + 1) = values.flatten ++ 101 :: rest := by
          rw [← drop_drop, hdrop]
          simp [encodeList]
        rw [encodeList, length_cons, length_append, length_singleton] at hfuel ⊢
        rw [hpeek, ok_bind, if_neg (by decide), if_neg (by decide), if_pos (.inl rfl)]
        rw [show decide ((108 : UInt8) = 100) = false by decide,
          ihList none depth (offset + 1) values rest hdepth hvalues (by omega) hafter]
        exact congrArg Except.ok (by omega)
      | @dictionary _ entries hkeys hvalues =>
        have hpeek : peek bytes offset = .ok 100 := peek_eq_ok.mpr ⟨_, hdrop⟩
        have hafter : bytes.drop (offset + 1) = entries.flatMap encodeEntry ++ 101 :: rest := by
          rw [← drop_drop, hdrop]
          simp [encodeDictionary]
        rw [encodeDictionary, length_cons, length_append, length_singleton]
          at hfuel ⊢
        rw [hpeek, ok_bind, if_neg (by decide), if_neg (by decide), if_pos (.inr rfl)]
        rw [show decide ((100 : UInt8) = 100) = true by decide,
          ihDictionary none depth (offset + 1) entries rest hdepth hkeys hvalues (by omega) hafter]
        exact congrArg Except.ok (by omega)
    · intro previous depth offset values rest hdepth hvalues hfuel hdrop
      rw [items]
      cases values with
      | nil =>
        have hpeek : peek bytes offset = .ok 101 := peek_eq_ok.mpr ⟨rest, hdrop⟩
        rw [hpeek, ok_bind, if_pos rfl]
        rfl
      | cons v values =>
        have hv := hvalues v mem_cons_self
        obtain ⟨b, tail, rfl, hb⟩ := hv.head
        have hpeek : peek bytes offset = .ok b := peek_eq_ok.mpr ⟨_, hdrop⟩
        have hdrop' : bytes.drop offset = (b :: tail) ++ (values.flatten ++ 101 :: rest) := by
          rw [hdrop, flatten_cons, append_assoc]
        rw [flatten_cons, length_append] at hfuel ⊢
        rw [length_cons] at hfuel
        have hdepth' : depth + 1 ≤ 64 := by
          by_contra hdeep
          rw [show 64 - depth = 0 by omega] at hv
          cases hv
        have hvalue := ihValue (depth + 1) offset (b :: tail) _ hdepth'
          (by rw [show 65 - (depth + 1) = 64 - depth by omega]; exact hv)
          (by rw [length_cons]; omega) hdrop'
        have hitems := ihList previous depth (offset + (b :: tail).length) values rest hdepth
          (fun w hw => hvalues w (mem_cons_of_mem _ hw)) (by omega)
          (drop_add_of_append hdrop')
        rw [hpeek, ok_bind, if_neg hb, if_neg Bool.false_ne_true, hvalue, ok_bind, hitems]
        exact congrArg Except.ok (by omega)
    · intro previous depth offset entries rest hdepth hkeys hvalues hfuel hdrop
      rw [items]
      cases entries with
      | nil =>
        have hpeek : peek bytes offset = .ok 101 := peek_eq_ok.mpr ⟨rest, hdrop⟩
        rw [hpeek, ok_bind, if_pos rfl]
        rfl
      | cons entry entries =>
        obtain ⟨key, v⟩ := entry
        have hv := hvalues (key, v) mem_cons_self
        obtain ⟨b, tail, hhead, hdigit⟩ := isDigit_head_encodeString key
        have hdrop' : bytes.drop offset =
            encodeString key ++ (v ++ (entries.flatMap encodeEntry ++ 101 :: rest)) := by
          rw [hdrop, flatMap_cons, encodeEntry]
          simp only [append_assoc]
        have hpeek : peek bytes offset = .ok b :=
          peek_eq_ok.mpr ⟨_, by rw [hdrop', hhead]; rfl⟩
        have hb : b ≠ 101 := by
          rintro rfl
          exact absurd hdigit (by decide)
        rw [flatMap_cons, length_append, encodeEntry, length_append] at hfuel ⊢
        dsimp only at hfuel ⊢
        have hpos : 0 < (encodeString key).length := by
          rw [hhead]
          exact Nat.succ_pos _
        have hdepth' : depth + 1 ≤ 64 := by
          by_contra hdeep
          rw [show 64 - depth = 0 by omega] at hv
          cases hv
        have hvalue := ihValue (depth + 1) (offset + (encodeString key).length) v _ hdepth'
          (by rw [show 65 - (depth + 1) = 64 - depth by omega]; exact hv)
          (by omega)
          (drop_add_of_append hdrop')
        have hkeys' : ((some key).toList ++ entries.map Prod.fst).Pairwise (· < ·) :=
          hkeys.sublist (sublist_append_right _ _)
        have hitems := ihDictionary (some key) depth
          (offset + (encodeString key).length + v.length) entries rest hdepth hkeys'
          (fun e he => hvalues e (mem_cons_of_mem _ he))
          (by omega)
          (drop_add_of_append (drop_add_of_append hdrop'))
        have hincreasing : ¬ previous.any (key ≤ ·) = true := by
          cases previous with
          | none => exact Bool.false_ne_true
          | some last =>
            have hlt : last < key := (List.pairwise_cons.mp hkeys).1 key mem_cons_self
            simpa using hlt
        rw [hpeek, ok_bind, if_neg hb, if_pos rfl, string_of hbytes hdrop', ok_bind]
        dsimp only
        rw [if_neg hincreasing, hvalue, ok_bind, hitems]
        exact congrArg Except.ok (by omega)

/-! ### Everything ends -/

theorem value_items_safe (bytes : Bytes) (fuel : ℕ) :
    (∀ depth offset, 2 * (bytes.length - offset) + 1 ≤ fuel →
      Safe (value bytes fuel depth offset)) ∧
    ∀ dictionary previous depth offset, 2 * (bytes.length - offset) + 2 ≤ fuel →
      Safe (items bytes fuel dictionary previous depth offset) := by
  induction fuel with
  | zero => exact ⟨fun _ _ hfuel => by omega, fun _ _ _ _ hfuel => by omega⟩
  | succ fuel ih =>
    obtain ⟨ihValue, ihItems⟩ := ih
    constructor
    · intro depth offset hfuel
      rw [value]
      split_ifs
      · exact safe_invalid
      · refine (peek_safe _ _).bind fun b hpeek => ?_
        obtain ⟨rest, hb⟩ := peek_eq_ok.mp hpeek
        have hlength := length_of_drop (show bytes.drop offset = [b] ++ rest from hb) (by simp)
        rw [length_singleton] at hlength
        split_ifs
        · exact (string_safe _ _).bind fun _ _ => safe_ok _
        · exact integer_safe bytes (by omega)
        · exact ihItems _ _ _ _ (by omega)
        · exact safe_invalid
    · intro dictionary previous depth offset hfuel
      rw [items]
      refine (peek_safe _ _).bind fun b hpeek => ?_
      obtain ⟨rest, hb⟩ := peek_eq_ok.mp hpeek
      have hlength := length_of_drop (show bytes.drop offset = [b] ++ rest from hb) (by simp)
      rw [length_singleton] at hlength
      have hprogress : ∀ start, offset ≤ start → ∀ middle,
          value bytes fuel (depth + 1) start = .ok middle → offset < middle := by
        intro start hstart middle hvalue
        obtain ⟨v, hv, -, hmiddle, -⟩ := value_ok hvalue
        obtain ⟨c, tail, rfl, -⟩ := hv.head
        rw [length_cons] at hmiddle
        omega
      split_ifs
      · exact safe_ok _
      · refine (string_safe _ _).bind fun pair hstring => ?_
        obtain ⟨key, start⟩ := pair
        obtain ⟨-, hstart, -⟩ := string_ok hstring
        dsimp only
        split_ifs
        · exact safe_invalid
        · refine (ihValue _ _ (by omega)).bind fun middle hvalue => ?_
          have hlt := hprogress start (by omega) middle hvalue
          exact ihItems _ _ _ _ (by omega)
      · refine (ihValue _ _ (by omega)).bind fun middle hvalue => ?_
        have hlt := hprogress offset le_rfl middle hvalue
        exact ihItems _ _ _ _ (by omega)

theorem value_safe (hfuel : 2 * bytes.length + 1 ≤ fuel) : Safe (value bytes fuel depth offset) :=
  (value_items_safe bytes fuel).1 depth offset (by omega)

end Qbutt.Torrent
