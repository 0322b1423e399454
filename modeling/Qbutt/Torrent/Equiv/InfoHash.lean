import Mathlib.Data.List.Nodup
import Qbutt.Torrent.Equiv.Values

/-!
# The info hash: correctness

`infoHash` accepts exactly the well-formed torrent files and digests the bytes of their `info` value
(`infoHash_accepts`).  The first pass reads canonical entries (`fileEntries_ok`); on canonical entries
it finds where `info` is (`fileEntries_of`), and the second pass finds whether `pieces` is a string
(`infoEntries_of`), so the loops need only be followed over the entries.
-/

namespace Qbutt.Torrent

open Qbutt.Bencode List

variable {bytes : Bytes} {fuel offset stop : ℕ} {previous : Option Bytes}
  {infoSpan span : Option (ℕ × ℕ)} {entries : List (Bytes × Bytes)} {v key rest info : Bytes}
  {levels start : ℕ}

/-- A torrent file with its `info` value: one canonical dictionary, with values inside it on at most 64
levels, whose `info` is a dictionary with a string under `pieces`. -/
def IsTorrent (bytes info : Bytes) : Prop :=
  ∃ entries infoEntries : List (Bytes × Bytes), ∃ pieces : Bytes,
    bytes = encodeDictionary entries ∧ Increasing entries ∧
      (∀ entry ∈ entries, IsValue 64 entry.2) ∧ (infoKey, info) ∈ entries ∧
    info = encodeDictionary infoEntries ∧ Increasing infoEntries ∧
      (∀ entry ∈ infoEntries, IsValue 63 entry.2) ∧ (piecesKey, encodeString pieces) ∈ infoEntries

/-! ### Keys -/

theorem value_unique (h : Increasing entries) {w : Bytes} (hv : (key, v) ∈ entries)
    (hw : (key, w) ∈ entries) : v = w := by
  have hnodup : (entries.map Prod.fst).Nodup := h.imp fun hlt heq => by
    subst heq
    exact List.lt_irrefl _ hlt
  have heq := inj_on_of_nodup_map hnodup hv hw rfl
  exact (Prod.mk.inj heq).2

theorem not_any_of_increasing {keys : List Bytes}
    (h : (previous.toList ++ key :: keys).Pairwise (· < ·)) : ¬ previous.any (key ≤ ·) = true := by
  cases previous with
  | none => exact Bool.false_ne_true
  | some last =>
    have hlt : last < key := (pairwise_cons.mp h).1 key mem_cons_self
    simpa using hlt

/-! ### The first pass -/

/-- What the first pass reads is canonical. -/
theorem fileEntries_ok (hprevious : previous.toList.Pairwise (· < ·))
    (h : fileEntries bytes fuel previous infoSpan offset = .ok (span, stop)) :
    Reads bytes true previous 64 offset (stop + 1) := by
  induction fuel generalizing previous infoSpan offset with
  | zero => cases h
  | succ fuel ih =>
    rw [fileEntries] at h
    obtain ⟨b, hpeek, h⟩ := bind_eq_ok.mp h
    obtain ⟨rest, hdrop⟩ := peek_eq_ok.mp hpeek
    split_ifs at h with hend
    · subst hend
      cases h
      exact reads_end hdrop hprevious
    · obtain ⟨⟨key, start⟩, hstring, h⟩ := bind_eq_ok.mp h
      obtain ⟨hkey, hstart, -⟩ := string_ok hstring
      dsimp only at h
      by_cases hincreasing : previous.any (key ≤ ·) = true
      · rw [if_pos hincreasing] at h
        cases h
      rw [if_neg hincreasing] at h
      obtain ⟨middle, hvalue, h⟩ := bind_eq_ok.mp h
      obtain ⟨v, hv, hmiddleDrop, hmiddle, -⟩ := value_ok hvalue
      exact reads_entry hkey hstart hincreasing hv hmiddleDrop hmiddle
        (ih (pairwise_singleton _ _) h)

/-- Where the `info` value is among entries, when it was at `infoSpan` before them. -/
def SpanOf (bytes : Bytes) (entries : List (Bytes × Bytes)) (infoSpan span : Option (ℕ × ℕ)) : Prop :=
  ((∀ v, (infoKey, v) ∉ entries) ∧ span = infoSpan) ∨
    ∃ info start, (infoKey, info) ∈ entries ∧ span = some (start, start + info.length) ∧
      slice bytes start (start + info.length) = .ok info

theorem SpanOf.cons (hslice : slice bytes start (start + v.length) = .ok v)
    (h : SpanOf bytes entries
      (if key = infoKey then some (start, start + v.length) else infoSpan) span) :
    SpanOf bytes ((key, v) :: entries) infoSpan span := by
  rcases h with ⟨hnone, rfl⟩ | ⟨info, infoStart, hinfo, rfl, hinfoSlice⟩
  · by_cases hkey : key = infoKey
    · subst hkey
      rw [if_pos rfl]
      exact .inr ⟨v, start, mem_cons_self, rfl, hslice⟩
    · rw [if_neg hkey]
      refine .inl ⟨fun w hw => ?_, rfl⟩
      rcases mem_cons.mp hw with heq | hw
      · exact hkey (Prod.mk.inj heq).1.symm
      · exact hnone w hw
  · exact .inr ⟨info, infoStart, mem_cons_of_mem _ hinfo, rfl, hinfoSlice⟩

/-- An entry at an offset: its key is read, and then its value. -/
theorem entry_of (hbytes : bytes.length < 2 ^ 63) (hlevels : levels ≤ 64) (hv : IsValue levels v)
    (hdrop : bytes.drop offset = encodeEntry (key, v) ++ rest) :
    (∃ b, peek bytes offset = .ok b ∧ b ≠ 101) ∧
      string bytes offset = .ok (key, offset + (encodeString key).length) ∧
      bytes.drop (offset + (encodeString key).length) = v ++ rest ∧
      value bytes (2 * bytes.length + 3) 1 (offset + (encodeString key).length) =
        .ok (offset + (encodeEntry (key, v)).length) := by
  obtain ⟨b, tail, hhead, hdigit⟩ := isDigit_head_encodeString key
  rw [encodeEntry, append_assoc] at hdrop
  dsimp only at hdrop
  have hvalueDrop := drop_add_of_append hdrop
  have hpeek : peek bytes offset = .ok b := peek_eq_ok.mpr ⟨_, by rw [hdrop, hhead]; rfl⟩
  have hb : b ≠ 101 := by
    rintro rfl
    exact absurd hdigit (by decide)
  have hlength := congrArg List.length hvalueDrop
  rw [length_drop, length_append] at hlength
  have hvalue := (value_items_of hbytes (2 * bytes.length + 3)).1 1 _ v rest (by omega)
    (hv.mono hlevels) (by omega) hvalueDrop
  refine ⟨⟨b, hpeek, hb⟩, string_of hbytes hdrop, hvalueDrop, ?_⟩
  rw [hvalue, encodeEntry, length_append]
  exact congrArg Except.ok (Nat.add_assoc _ _ _)

theorem length_encodeEntry_pos (entry : Bytes × Bytes) : 0 < (encodeEntry entry).length := by
  obtain ⟨b, tail, hhead, -⟩ := isDigit_head_encodeString entry.1
  rw [encodeEntry, hhead, cons_append, length_cons]
  exact Nat.succ_pos _

/-- Canonical entries pass the first pass, and it finds where `info` is. -/
theorem fileEntries_of (infoSpan : Option (ℕ × ℕ)) (rest : Bytes) (hbytes : bytes.length < 2 ^ 63)
    (hkeys : (previous.toList ++ entries.map Prod.fst).Pairwise (· < ·))
    (hvalues : ∀ entry ∈ entries, IsValue 64 entry.2)
    (hfuel : (entries.flatMap encodeEntry).length + 1 ≤ fuel)
    (hdrop : bytes.drop offset = entries.flatMap encodeEntry ++ 101 :: rest) :
    ∃ span, SpanOf bytes entries infoSpan span ∧ fileEntries bytes fuel previous infoSpan offset =
      .ok (span, offset + (entries.flatMap encodeEntry).length) := by
  induction entries generalizing fuel previous infoSpan offset with
  | nil =>
    obtain ⟨fuel, rfl⟩ := Nat.exists_eq_add_of_lt hfuel
    have hpeek : peek bytes offset = .ok 101 := peek_eq_ok.mpr ⟨rest, hdrop⟩
    refine ⟨infoSpan, .inl ⟨nofun, rfl⟩, ?_⟩
    rw [fileEntries, hpeek, ok_bind, if_pos rfl]
    rfl
  | cons entry entries ih =>
    obtain ⟨key, v⟩ := entry
    rw [flatMap_cons, append_assoc] at hdrop
    rw [flatMap_cons, length_append] at hfuel ⊢
    have hv : IsValue 64 v := hvalues (key, v) mem_cons_self
    obtain ⟨⟨b, hpeek, hb⟩, hstring, hvalueDrop, hvalue⟩ := entry_of hbytes le_rfl hv hdrop
    have hpos := length_encodeEntry_pos (key, v)
    obtain ⟨fuel, rfl⟩ : ∃ fuel', fuel = fuel' + 1 := ⟨fuel - 1, by omega⟩
    have hkeys' : ((some key).toList ++ entries.map Prod.fst).Pairwise (· < ·) :=
      hkeys.sublist (sublist_append_right _ _)
    have hslice : slice bytes (offset + (encodeString key).length)
        (offset + (encodeString key).length + v.length) = .ok v := by
      obtain ⟨c, tail, hhead, -⟩ := hv.head
      exact slice_of_drop hvalueDrop (by rw [hhead]; exact cons_ne_nil _ _)
    have hlength : offset + (encodeEntry (key, v)).length =
        offset + (encodeString key).length + v.length := by
      rw [encodeEntry, length_append]
      dsimp only
      omega
    have hlong : (entries.flatMap encodeEntry).length + 1 ≤ fuel := by omega
    obtain ⟨span, hspan, hrest⟩ := ih (if key = infoKey then some
      (offset + (encodeString key).length, offset + (encodeEntry (key, v)).length) else infoSpan) hkeys'
      (fun e he => hvalues e (mem_cons_of_mem _ he)) hlong (drop_add_of_append hdrop)
    rw [hlength] at hspan
    refine ⟨span, hspan.cons hslice, ?_⟩
    rw [fileEntries, hpeek, ok_bind, if_neg hb, hstring, ok_bind]
    dsimp only
    rw [if_neg (not_any_of_increasing hkeys), hvalue, ok_bind, hrest, Nat.add_assoc]

theorem fileEntries_safe (hfuel : bytes.length - offset + 1 ≤ fuel) :
    Safe (fileEntries bytes fuel previous infoSpan offset) := by
  induction fuel generalizing previous infoSpan offset with
  | zero => omega
  | succ fuel ih =>
    rw [fileEntries]
    refine (peek_safe _ _).bind fun b hpeek => ?_
    obtain ⟨rest, hdrop⟩ := peek_eq_ok.mp hpeek
    have hlength := length_of_drop (show bytes.drop offset = [b] ++ rest from hdrop) (by simp)
    rw [length_singleton] at hlength
    split_ifs
    · exact safe_ok _
    · refine (string_safe _ _).bind fun pair hstring => ?_
      obtain ⟨key, start⟩ := pair
      obtain ⟨-, hstart, -⟩ := string_ok hstring
      dsimp only
      by_cases hincreasing : previous.any (key ≤ ·) = true
      · rw [if_pos hincreasing]
        exact safe_invalid
      · rw [if_neg hincreasing]
        refine (value_safe (by omega)).bind fun middle hvalue => ?_
        obtain ⟨v, hv, -, hmiddle, -⟩ := value_ok hvalue
        obtain ⟨c, tail, rfl, -⟩ := hv.head
        rw [length_cons] at hmiddle
        exact ih (by omega)

/-! ### The second pass -/

/-- Whether the value of the last `pieces` begins as a string. -/
def piecesFound (found : Bool) (entries : List (Bytes × Bytes)) : Bool :=
  entries.foldl (fun found entry =>
    if entry.1 = piecesKey then entry.2.head?.any isDigit else found) found

theorem infoEntries_of (found : Bool) (rest : Bytes) (hbytes : bytes.length < 2 ^ 63)
    (hvalues : ∀ entry ∈ entries, IsValue 63 entry.2)
    (hfuel : (entries.flatMap encodeEntry).length + 1 ≤ fuel)
    (hdrop : bytes.drop offset = entries.flatMap encodeEntry ++ 101 :: rest) :
    infoEntries bytes fuel found offset = .ok (piecesFound found entries) := by
  induction entries generalizing fuel found offset with
  | nil =>
    obtain ⟨fuel, rfl⟩ := Nat.exists_eq_add_of_lt hfuel
    have hpeek : peek bytes offset = .ok 101 := peek_eq_ok.mpr ⟨rest, hdrop⟩
    rw [infoEntries, hpeek, ok_bind, if_pos rfl]
    rfl
  | cons entry entries ih =>
    obtain ⟨key, v⟩ := entry
    rw [flatMap_cons, append_assoc] at hdrop
    rw [flatMap_cons, length_append] at hfuel
    have hv : IsValue 63 v := hvalues (key, v) mem_cons_self
    obtain ⟨⟨b, hpeek, hb⟩, hstring, hvalueDrop, hvalue⟩ := entry_of hbytes (by omega) hv hdrop
    have hpos := length_encodeEntry_pos (key, v)
    obtain ⟨fuel, rfl⟩ : ∃ fuel', fuel = fuel' + 1 := ⟨fuel - 1, by omega⟩
    obtain ⟨c, tail, hhead, -⟩ := hv.head
    have hfirst : peek bytes (offset + (encodeString key).length) = .ok c :=
      peek_eq_ok.mpr ⟨_, by rw [hvalueDrop, hhead]; rfl⟩
    have hfound : piecesAt bytes found key (offset + (encodeString key).length) =
        .ok (if key = piecesKey then v.head?.any isDigit else found) := by
      unfold piecesAt
      split_ifs
      · rw [hfirst, hhead]
        rfl
      · rfl
    rw [infoEntries, hpeek, ok_bind, if_neg hb, hstring, ok_bind]
    dsimp only
    rw [hfound, ok_bind, hvalue, ok_bind,
      ih _ (fun e he => hvalues e (mem_cons_of_mem _ he)) (by omega) (drop_add_of_append hdrop)]
    rfl

theorem piecesFound_of_forall {found : Bool} (h : ∀ v, (piecesKey, v) ∉ entries) :
    piecesFound found entries = found := by
  induction entries with
  | nil => rfl
  | cons entry entries ih =>
    obtain ⟨key, v⟩ := entry
    have hkey : key ≠ piecesKey := fun heq => h v (by rw [heq]; exact mem_cons_self)
    show piecesFound (if key = piecesKey then _ else found) entries = found
    rw [if_neg hkey]
    exact ih fun w hw => h w (mem_cons_of_mem _ hw)

theorem piecesFound_of_mem {found : Bool} (hkeys : Increasing entries)
    (h : (piecesKey, v) ∈ entries) : piecesFound found entries = v.head?.any isDigit := by
  induction entries generalizing found with
  | nil => cases h
  | cons entry entries ih =>
    obtain ⟨key, w⟩ := entry
    obtain ⟨hfirst, hrest⟩ := pairwise_cons.mp hkeys
    rcases mem_cons.mp h with heq | h
    · cases heq
      show piecesFound (if piecesKey = piecesKey then _ else found) entries = _
      rw [if_pos rfl]
      -- the later keys are greater
      refine piecesFound_of_forall fun w hw => ?_
      exact List.lt_irrefl _ (hfirst piecesKey (List.mem_map_of_mem (f := Prod.fst) hw))
    · exact ih hrest h

theorem IsValue.isDigit_head_iff (h : IsValue levels v) :
    v.head?.any isDigit = true ↔ ∃ s, v = encodeString s := by
  constructor
  · intro hdigit
    cases h with
    | integer => exact absurd (show isDigit 105 = true from hdigit) (by decide)
    | @string levels s => exact ⟨s, rfl⟩
    | list => exact absurd (show isDigit 108 = true from hdigit) (by decide)
    | dictionary => exact absurd (show isDigit 100 = true from hdigit) (by decide)
  · rintro ⟨s, rfl⟩
    obtain ⟨b, tail, hhead, hdigit⟩ := isDigit_head_encodeString s
    rw [hhead]
    exact hdigit

theorem IsValue.dictionary_of_head (h : IsValue (levels + 1) (100 :: rest)) :
    ∃ entries : List (Bytes × Bytes),
      100 :: rest = encodeDictionary entries ∧ Increasing entries ∧
        ∀ entry ∈ entries, IsValue levels entry.2 := by
  generalize hbytes : 100 :: rest = bytes at h
  cases h with
  | integer => exact absurd (List.cons.inj hbytes).1 (by decide)
  | @string levels s =>
    obtain ⟨b, tail, hhead, hdigit⟩ := isDigit_head_encodeString s
    rw [hhead] at hbytes
    rw [← (List.cons.inj hbytes).1] at hdigit
    exact absurd hdigit (by decide)
  | list => exact absurd (List.cons.inj hbytes).1 (by decide)
  | @dictionary levels entries hkeys hvalues => exact ⟨entries, rfl, hkeys, hvalues⟩

/-- A string under `pieces`, in the bytes of a dictionary. -/
def HasPieces (info : Bytes) : Prop :=
  ∃ entries : List (Bytes × Bytes), ∃ pieces : Bytes, info = encodeDictionary entries ∧
    Increasing entries ∧ (∀ entry ∈ entries, IsValue 63 entry.2) ∧
      (piecesKey, encodeString pieces) ∈ entries

/-- The second pass over the bytes of a dictionary. -/
theorem infoEntries_encodeDictionary (hbytes : (encodeDictionary entries).length < 2 ^ 63)
    (hkeys : Increasing entries) (hvalues : ∀ entry ∈ entries, IsValue 63 entry.2) :
    ∃ found, infoEntries (encodeDictionary entries) ((encodeDictionary entries).length + 1) false 1 =
      .ok found ∧ (found = true ↔ ∃ pieces, (piecesKey, encodeString pieces) ∈ entries) := by
  have hlength : (entries.flatMap encodeEntry).length + 1 ≤
      (encodeDictionary entries).length + 1 := by
    rw [encodeDictionary, length_cons, length_append]
    omega
  refine ⟨piecesFound false entries,
    infoEntries_of false [] hbytes hvalues hlength rfl, ?_⟩
  constructor
  · intro hfound
    by_cases hpieces : ∃ v, (piecesKey, v) ∈ entries
    · obtain ⟨v, hv⟩ := hpieces
      rw [piecesFound_of_mem hkeys hv] at hfound
      obtain ⟨pieces, rfl⟩ := (IsValue.isDigit_head_iff (hvalues _ hv)).mp hfound
      exact ⟨pieces, hv⟩
    · rw [piecesFound_of_forall fun v hv => hpieces ⟨v, hv⟩] at hfound
      cases hfound
  · rintro ⟨pieces, hpieces⟩
    rw [piecesFound_of_mem hkeys hpieces]
    exact (IsValue.isDigit_head_iff (hvalues _ hpieces)).mpr ⟨pieces, rfl⟩

variable (digest : Bytes → Bytes)

/-- The second pass over a canonical value: it is hashed if it is a dictionary with pieces. -/
theorem hashInfo_of (hbytes : info.length < 2 ^ 63) (hinfo : IsValue 64 info)
    (hslice : slice bytes start (start + info.length) = .ok info) :
    Safe (hashInfo digest bytes (some (start, start + info.length))) ∧
      ∀ hash, hashInfo digest bytes (some (start, start + info.length)) = .ok hash ↔
        HasPieces info ∧ hash = hexadecimal (digest info) := by
  obtain ⟨b, rest, rfl, -⟩ := hinfo.head
  have hnext : next (b :: rest) 0 = .ok (b, 1) := next_eq_ok.mpr ⟨⟨rest, rfl⟩, rfl⟩
  unfold hashInfo
  dsimp only
  rw [hslice, ok_bind, hnext, ok_bind]
  dsimp only
  by_cases hb : b = 100
  · subst hb
    obtain ⟨entries, hencode, hkeys, hvalues⟩ := IsValue.dictionary_of_head hinfo
    rw [hencode] at hbytes ⊢
    obtain ⟨found, hfound, hiff⟩ := infoEntries_encodeDictionary hbytes hkeys hvalues
    rw [if_neg (not_not_intro rfl), hfound, ok_bind]
    cases found with
    | true =>
      obtain ⟨pieces, hpieces⟩ := hiff.mp rfl
      refine ⟨safe_ok _, fun hash => ⟨fun h => ?_, fun h => congrArg Except.ok h.2.symm⟩⟩
      exact ⟨⟨entries, pieces, rfl, hkeys, hvalues, hpieces⟩, (Except.ok.inj h).symm⟩
    | false =>
      refine ⟨⟨nofun, nofun⟩, fun hash => ⟨nofun, ?_⟩⟩
      rintro ⟨⟨entries', pieces, hencode', hkeys', hvalues', hpieces⟩, -⟩
      rw [hencode'] at hfound hbytes
      -- the pass over these entries is the same one, so it finds the pieces
      obtain ⟨found', hfound', hiff'⟩ := infoEntries_encodeDictionary hbytes hkeys' hvalues'
      obtain rfl : false = found' := Except.ok.inj (hfound.symm.trans hfound')
      cases hiff'.mpr ⟨pieces, hpieces⟩
  · rw [if_pos hb]
    refine ⟨safe_invalid, fun hash => ⟨nofun, ?_⟩⟩
    rintro ⟨⟨entries, pieces, hencode, -⟩, -⟩
    exact absurd (List.cons.inj hencode).1 hb

/-! ### Both passes -/

theorem isTorrent_iff : IsTorrent bytes info ↔
    ∃ entries : List (Bytes × Bytes), bytes = encodeDictionary entries ∧ Increasing entries ∧
      (∀ entry ∈ entries, IsValue 64 entry.2) ∧ (infoKey, info) ∈ entries ∧ HasPieces info := by
  constructor
  · rintro ⟨entries, infoEntries, pieces, hbytes, hkeys, hvalues, hinfo, hrest⟩
    exact ⟨entries, hbytes, hkeys, hvalues, hinfo, infoEntries, pieces, hrest⟩
  · rintro ⟨entries, hbytes, hkeys, hvalues, hinfo, infoEntries, pieces, hrest⟩
    exact ⟨entries, infoEntries, pieces, hbytes, hkeys, hvalues, hinfo, hrest⟩

/-- Canonical entries from the offset behind the first byte are hashed as their `info` says. -/
theorem hashInfo_span {digest : Bytes → Bytes} (hbytes : bytes.length < 2 ^ 63)
    (hkeys : Increasing entries) (hvalues : ∀ entry ∈ entries, IsValue 64 entry.2)
    (hspan : SpanOf bytes entries none span) :
    Safe (hashInfo digest bytes span) ∧ ∀ hash, hashInfo digest bytes span = .ok hash ↔
      ∃ info, (infoKey, info) ∈ entries ∧ HasPieces info ∧ hash = hexadecimal (digest info) := by
  rcases hspan with ⟨hnone, rfl⟩ | ⟨info, start, hinfo, rfl, hslice⟩
  · refine ⟨safe_invalid, fun hash => ⟨nofun, ?_⟩⟩
    rintro ⟨info, hinfo, -⟩
    exact absurd hinfo (hnone info)
  · have hlength : info.length < 2 ^ 63 := by
      have hle : info.length ≤ bytes.length := by
        unfold slice at hslice
        split_ifs at hslice with hrange
        omega
      omega
    obtain ⟨hsafe, hiff⟩ := hashInfo_of digest hlength (hvalues _ hinfo) hslice
    refine ⟨hsafe, fun hash => (hiff hash).trans ⟨fun h => ⟨info, hinfo, h⟩, ?_⟩⟩
    rintro ⟨info', hinfo', h⟩
    obtain rfl := value_unique hkeys hinfo hinfo'
    exact h

/-- The first pass over the bytes of a dictionary finds its `info`. -/
theorem fileEntries_encodeDictionary (hbytes : (encodeDictionary entries).length < 2 ^ 63)
    (hkeys : Increasing entries) (hvalues : ∀ entry ∈ entries, IsValue 64 entry.2) :
    ∃ span, SpanOf (encodeDictionary entries) entries none span ∧
      fileEntries (encodeDictionary entries) ((encodeDictionary entries).length + 1) none none 1 =
        .ok (span, 1 + (entries.flatMap encodeEntry).length) := by
  refine fileEntries_of none [] hbytes hkeys hvalues ?_ rfl
  rw [encodeDictionary, length_cons, length_append]
  omega

theorem infoHash_encodeDictionary (hbytes : (encodeDictionary entries).length < 2 ^ 63)
    (hkeys : Increasing entries) (hvalues : ∀ entry ∈ entries, IsValue 64 entry.2) :
    Safe (infoHash digest ⟨encodeDictionary entries, hbytes⟩) ∧
      ∀ hash, infoHash digest ⟨encodeDictionary entries, hbytes⟩ = .ok hash ↔
        ∃ info, (infoKey, info) ∈ entries ∧ HasPieces info ∧ hash = hexadecimal (digest info) := by
  obtain ⟨span, hspan, hentries⟩ := fileEntries_encodeDictionary hbytes hkeys hvalues
  have hfirst : next (encodeDictionary entries) 0 = .ok (100, 1) := next_eq_ok.mpr ⟨⟨_, rfl⟩, rfl⟩
  have hdrop : (encodeDictionary entries).drop 1 = entries.flatMap encodeEntry ++ [101] := rfl
  have hlast : next (encodeDictionary entries) (1 + (entries.flatMap encodeEntry).length) =
      .ok (101, 1 + (entries.flatMap encodeEntry).length + 1) :=
    next_eq_ok.mpr ⟨⟨[], drop_add_of_append hdrop⟩, rfl⟩
  have hlength : 1 + (entries.flatMap encodeEntry).length + 1 = (encodeDictionary entries).length := by
    rw [encodeDictionary, length_cons, length_append, length_singleton]
    omega
  unfold infoHash
  rw [hfirst, ok_bind]
  dsimp only
  rw [if_neg (not_not_intro rfl), hentries, ok_bind]
  dsimp only
  rw [hlast, ok_bind]
  dsimp only
  rw [hlength, if_neg (not_not_intro rfl)]
  exact hashInfo_span hbytes hkeys hvalues hspan

theorem firstPass_ok (hbytes : bytes.length < 2 ^ 63) (hfirst : next bytes 0 = .ok (100, offset))
    (hentries : fileEntries bytes (bytes.length + 1) none none offset = .ok (span, stop))
    (hend : stop + 1 = bytes.length) :
    ∃ entries : List (Bytes × Bytes), bytes = encodeDictionary entries ∧ Increasing entries ∧
      (∀ entry ∈ entries, IsValue 64 entry.2) ∧ SpanOf bytes entries none span := by
  obtain ⟨⟨rest, hdrop⟩, rfl⟩ := next_eq_ok.mp hfirst
  obtain ⟨entries, hkeys, hvalues, hread, -, -⟩ := fileEntries_ok List.Pairwise.nil hentries
  have hstart : bytes = 100 :: rest := hdrop
  have hrest : bytes.drop 1 = rest := by
    rw [hstart]
    rfl
  rw [Nat.zero_add, hrest, hend, drop_length] at hread
  obtain rfl : bytes = encodeDictionary entries := by
    rw [hstart, hread]
    rfl
  refine ⟨entries, rfl, hkeys, hvalues, ?_⟩
  -- the pass over these entries is the same one
  obtain ⟨span', hspan, hentries'⟩ := fileEntries_encodeDictionary hbytes hkeys hvalues
  cases hentries.symm.trans hentries'
  exact hspan

/-- Nothing is read out of bounds, every loop ends, and what is accepted is a canonical dictionary. -/
theorem infoHash_safe (bytes : Slice) :
    Safe (infoHash digest bytes) ∧ ∀ hash, infoHash digest bytes = .ok hash →
      ∃ entries : List (Bytes × Bytes), bytes.val = encodeDictionary entries ∧ Increasing entries ∧
        ∀ entry ∈ entries, IsValue 64 entry.2 := by
  constructor
  · unfold infoHash
    refine (next_safe _ _).bind fun first hfirst => ?_
    obtain ⟨b, offset⟩ := first
    dsimp only
    split_ifs with hb
    · exact safe_invalid
    · refine (fileEntries_safe (by omega)).bind fun found hentries => ?_
      obtain ⟨span, stop⟩ := found
      refine (next_safe _ _).bind fun last hlast => ?_
      obtain ⟨e, stop'⟩ := last
      obtain ⟨-, rfl⟩ := next_eq_ok.mp hlast
      dsimp only
      by_cases hend : stop + 1 = bytes.val.length
      · rw [if_neg (not_not_intro hend)]
        obtain rfl : b = 100 := not_not.mp hb
        obtain ⟨entries, -, hkeys, hvalues, hspan⟩ :=
          firstPass_ok bytes.property hfirst hentries hend
        exact (hashInfo_span bytes.property hkeys hvalues hspan).1
      · rw [if_pos hend]
        exact safe_invalid
  · intro hash h
    unfold infoHash at h
    obtain ⟨⟨b, offset⟩, hfirst, h⟩ := bind_eq_ok.mp h
    dsimp only at h
    split_ifs at h with hb
    obtain ⟨⟨span, stop⟩, hentries, h⟩ := bind_eq_ok.mp h
    obtain ⟨⟨e, stop'⟩, hlast, h⟩ := bind_eq_ok.mp h
    obtain ⟨-, rfl⟩ := next_eq_ok.mp hlast
    dsimp only at h
    by_cases hend : stop + 1 = bytes.val.length
    · obtain rfl : b = 100 := not_not.mp hb
      obtain ⟨entries, hbytes, hkeys, hvalues, -⟩ :=
        firstPass_ok bytes.property hfirst hentries hend
      exact ⟨entries, hbytes, hkeys, hvalues⟩
    · rw [if_pos hend] at h
      cases h

/-- The info hash is accepted of exactly the well-formed torrent files, and is the digest of the bytes
of their `info`; no bytes make the cursor read out of bounds or loop. -/
theorem infoHash_accepts (digest : Bytes → Bytes) (bytes : Slice) :
    infoHash digest bytes ≠ .error .panic ∧ infoHash digest bytes ≠ .error .loops ∧
      ∀ hash, infoHash digest bytes = .ok hash ↔
        ∃ info, IsTorrent bytes.val info ∧ hash = hexadecimal (digest info) := by
  obtain ⟨hsafe, hcanonical⟩ := infoHash_safe digest bytes
  refine ⟨hsafe.1, hsafe.2, fun hash => ?_⟩
  obtain ⟨bytes, hlength⟩ := bytes
  constructor
  · intro h
    obtain ⟨entries, rfl, hkeys, hvalues⟩ := hcanonical hash h
    have hiff := (infoHash_encodeDictionary digest hlength hkeys hvalues).2 hash
    obtain ⟨info, hinfo, hpieces, rfl⟩ := hiff.mp h
    exact ⟨info, isTorrent_iff.mpr ⟨entries, rfl, hkeys, hvalues, hinfo, hpieces⟩, rfl⟩
  · rintro ⟨info, htorrent, rfl⟩
    obtain ⟨entries, rfl, hkeys, hvalues, hinfo, hpieces⟩ := isTorrent_iff.mp htorrent
    exact ((infoHash_encodeDictionary digest hlength hkeys hvalues).2 _).mpr
      ⟨info, hinfo, hpieces, rfl⟩

/-- A torrent file with nothing but pieces. -/
example : infoHash id ⟨"d4:infod6:pieces1:aee".toUTF8.toList, by decide +kernel⟩ =
    .ok (hexadecimal "d6:pieces1:ae".toUTF8.toList) := by decide +kernel

end Qbutt.Torrent
