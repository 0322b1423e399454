import Qbutt.Algorithm.Lines
import Qbutt.Filter.Binary

/-!
# The records of a P2B file

The records of a file as a grammar has them (`p2bRecords`), and whether a truncated one behind them
still has a part of its end.  The parser calls `add_rule` for the complete records, and once more
for such a truncated one (`parseP2BFilterFile_follows`).
-/

namespace Qbutt.Filter

open List

/-! ### The grammar -/

def number (bytes : Bytes) : UInt32 := bytes.foldl (fun n b => 256 * n + b.toUInt32) 0

/-- The range at the start of a stream: two addresses of four bytes. -/
def rangeAt (stream : Bytes) : Rule :=
  (.v4 (number (stream.take 4)), .v4 (number ((stream.drop 4).take 4)))

/-- The complete records of the versions 1 and 2, and whether a truncated one has a part of its end.
-/
def namedRecords : ℕ → Bytes → List Rule × Bool
  | 0, _ => ([], false)
  | fuel + 1, stream =>
    match cutAt 0 stream with
    | none => ([], false)
    | some (_, rest) =>
      if rest.length < 8 then ([], 4 < rest.length)
      else
        let records := namedRecords fuel (rest.drop 8)
        (rangeAt rest :: records.1, records.2)

/-- What follows the names of the version 3. -/
def skipNames : ℕ → Bytes → Bytes
  | 0, stream => stream
  | n + 1, stream =>
    match cutAt 0 stream with
    | none => []
    | some (_, rest) => skipNames n rest

/-- The complete ones of so many records of the version 3, and whether a truncated one has a part of
its end. -/
def indexedRecords : ℕ → Bytes → List Rule × Bool
  | 0, _ => ([], false)
  | n + 1, stream =>
    if stream.length < 12 then ([], 8 < stream.length)
    else
      let records := indexedRecords n (stream.drop 12)
      (rangeAt (stream.drop 4) :: records.1, records.2)

def version3Records (stream : Bytes) : List Rule × Bool :=
  if stream.length < 4 then ([], false)
  else
    let rest := skipNames (number (stream.take 4)).toNat (stream.drop 4)
    if rest.length < 4 then ([], false)
    else indexedRecords (number (rest.take 4)).toNat (rest.drop 4)

/-- The complete records of a P2B file, and whether a truncated one behind them has a part of its
end. -/
def p2bRecords (file : Bytes) : List Rule × Bool :=
  if file.take 7 = p2bMagic then
    match file.drop 7 with
    | [] => ([], false)
    | version :: stream =>
      if version = 1 ∨ version = 2 then namedRecords (stream.length + 1) stream
      else if version = 3 then version3Records stream
      else ([], false)
  else ([], false)

/-! ### Reading -/

variable {size fuel : ℕ} {stream : Bytes}

theorem overwrite_bytes (old : Variable size) (h : size ≤ stream.length) :
    (old.overwrite stream).bytes = stream.take size := by
  have hlength : (stream.take size).length = size := by
    rw [length_take]
    omega
  have hdrop : old.bytes.drop size = [] := drop_eq_nil_iff.mpr (Nat.le_of_eq old.length_eq)
  simp only [Variable.overwrite]
  rw [hlength, hdrop, append_nil]

theorem ntohl_overwrite (old : Variable 4) (h : 4 ≤ stream.length) :
    ntohl (old.overwrite stream) = number (stream.take 4) := by
  rw [ntohl, overwrite_bytes old h, number]

theorem readRawData_eq_zero_iff (old : Variable size) (stream : Bytes) :
    (readRawData old stream).1 = 0 ↔ size = 0 ∨ stream.length = 0 := by
  simp only [readRawData]
  omega

theorem getlineInStream_of_none {delim : UInt8} (h : delim ∉ stream) :
    getlineInStream delim stream = (stream.length, stream, []) := by
  induction stream with
  | nil => rfl
  | cons c stream ih =>
    rw [mem_cons, not_or] at h
    rw [getlineInStream, if_neg (Ne.symm h.1), ih h.2, length_cons]

theorem getlineInStream_append {delim : UInt8} {name : Bytes} (rest : Bytes) (h : delim ∉ name) :
    getlineInStream delim (name ++ delim :: rest) = (name.length + 1, name, rest) := by
  induction name with
  | nil => rw [nil_append, getlineInStream, if_pos rfl, length_nil]
  | cons c name ih =>
    rw [mem_cons, not_or] at h
    rw [cons_append, getlineInStream, if_neg (Ne.symm h.1), ih h.2, length_cons]

theorem addRuleQuietly_calls (throws : List Rule → Option String) (s : Progress) (rule : Rule) :
    (s.addRuleQuietly throws rule).calls = s.calls ++ [rule] := by
  unfold Progress.addRuleQuietly
  simp only
  split <;> rfl

/-! ### Calls and records -/

/-- The calls since some point are for the first of these records, and for all of them if the parser
was not aborted; a truncated record with a part of its end counts as one more. -/
def Follows (abort : ℕ → Bool) (calls calls' : List Rule) (records : List Rule × Bool) : Prop :=
  ∃ taken extra, calls' = calls ++ taken ∧ (extra = [] ↔ records.2 = false) ∧
    taken <+: records.1 ++ extra ∧ ((∀ n, abort n = false) → taken = records.1 ++ extra)

namespace Follows

variable {abort : ℕ → Bool} {calls calls' : List Rule} {records : List Rule × Bool} {rule : Rule}

theorem none : Follows abort calls calls ([], false) :=
  ⟨[], [], by simp, by simp, nil_prefix, fun _ => rfl⟩

theorem extra : Follows abort calls (calls ++ [rule]) ([], true) :=
  ⟨[rule], [rule], rfl, by simp, prefix_refl _, fun _ => rfl⟩

theorem aborted {n : ℕ} (h : abort n = true) (records : List Rule × Bool) :
    Follows abort calls calls records := by
  refine ⟨[], if records.2 then [(.v4 0, .v4 0)] else [], by simp, ?_, nil_prefix, ?_⟩
  · cases records.2 <;> simp
  · intro hnone
    exact absurd h (by rw [hnone n]; nofun)

theorem cons (h : Follows abort (calls ++ [rule]) calls' records) :
    Follows abort calls calls' (rule :: records.1, records.2) := by
  obtain ⟨taken, extra, hcalls, hextra, hprefix, hall⟩ := h
  refine ⟨rule :: taken, extra, ?_, hextra, ?_, ?_⟩
  · rw [hcalls, append_assoc, singleton_append]
  · rw [cons_append, cons_prefix_cons]
    exact ⟨rfl, hprefix⟩
  · intro hnone
    rw [hall hnone, cons_append]

end Follows

section

variable (throws : List Rule → Option String) (abort : ℕ → Bool)

/-- At the end of the stream nothing follows. -/
theorem readNamedRanges_nil (hfuel : 0 < fuel) (first last : Variable 4) (s : Progress) :
    readNamedRanges throws abort fuel first last [] s = some s := by
  obtain ⟨fuel, rfl⟩ : ∃ n, fuel = n + 1 := ⟨fuel - 1, by omega⟩
  rw [readNamedRanges, if_pos (.inl rfl)]

theorem readNamedRanges_follows (first last : Variable 4) (stream : Bytes)
    (hfuel : stream.length < fuel) (s : Progress) :
    ∃ s', readNamedRanges throws abort fuel first last stream s = some s' ∧
      Follows abort s.calls s'.calls (namedRecords fuel stream) := by
  induction fuel generalizing first last stream s with
  | zero => exact absurd hfuel (Nat.not_lt_zero _)
  | succ fuel ih =>
    unfold readNamedRanges namedRecords
    obtain ⟨hnot, hcut⟩ | ⟨name, rest, rfl, hname, hcut⟩ := cutAt_cases 0 stream
    · rw [getlineInStream_of_none hnot, hcut]
      simp only [readRawData, length_nil, Nat.min_zero, if_pos]
      split_ifs with hstop
      · exact ⟨s, rfl, .none⟩
      · exact ⟨s.addInvalid, rfl, .none⟩
    · rw [getlineInStream_append rest hname, hcut]
      simp only [readRawData, length_drop]
      by_cases hstop : abort rest.length = true
      · rw [if_pos (.inr hstop)]
        exact ⟨s, rfl, .aborted hstop _⟩
      rw [if_neg (by simp [hstop])]
      rw [length_append, length_cons] at hfuel
      by_cases hfirst : rest.length = 0
      · rw [if_pos (by omega), if_pos (by omega), decide_eq_false (by omega)]
        exact ⟨s.addInvalid, rfl, .none⟩
      rw [if_neg (by omega)]
      by_cases hlast : rest.length ≤ 4
      · rw [if_pos (by omega), if_pos (by omega), decide_eq_false (by omega)]
        exact ⟨s.addInvalid, rfl, .none⟩
      rw [if_neg (by omega)]
      by_cases hshort : rest.length < 8
      · -- the end of the record is read in part, and nothing is left
        have hnil : (rest.drop 4).drop 4 = [] := by
          rw [drop_drop, drop_eq_nil_iff]
          omega
        rw [if_pos hshort, decide_eq_true (by omega), hnil, readNamedRanges_nil _ _ (by omega)]
        refine ⟨_, rfl, ?_⟩
        rw [addRuleQuietly_calls]
        exact .extra
      · rw [if_neg hshort, drop_drop]
        obtain ⟨s', hread, hfollows⟩ := ih (first.overwrite rest) (last.overwrite (rest.drop 4))
          (rest.drop 8) (by rw [length_drop]; omega) (s.addRuleQuietly throws
            (.v4 (ntohl (first.overwrite rest)), .v4 (ntohl (last.overwrite (rest.drop 4)))))
        refine ⟨s', hread, ?_⟩
        rw [addRuleQuietly_calls, ntohl_overwrite first (by omega),
          ntohl_overwrite last (by rw [length_drop]; omega)] at hfollows
        exact hfollows.cons

theorem readRanges_follows (n : ℕ) (name first last : Variable 4) (stream : Bytes) (s : Progress) :
    Follows abort s.calls (readRanges throws abort n name first last stream s).calls
      (indexedRecords n stream) := by
  induction n generalizing name first last stream s with
  | zero => exact .none
  | succ n ih =>
    unfold readRanges indexedRecords
    simp only [readRawData, length_drop]
    by_cases hname : stream.length = 0
    · rw [if_pos (by omega), if_pos (by omega), decide_eq_false (by omega)]
      exact .none
    rw [if_neg (by omega)]
    by_cases hfirst : stream.length ≤ 4
    · rw [if_pos (by omega), if_pos (by omega), decide_eq_false (by omega)]
      exact .none
    rw [if_neg (by omega)]
    by_cases hlast : stream.length ≤ 8
    · rw [if_pos (by omega), if_pos (by omega), decide_eq_false (by omega)]
      exact .none
    rw [if_neg (by omega)]
    by_cases hshort : stream.length < 12
    · rw [if_pos hshort, decide_eq_true (by omega)]
      have hnil : ((stream.drop 4).drop 4).drop 4 = [] := by
        rw [drop_drop, drop_drop, drop_eq_nil_iff]
        omega
      rw [hnil]
      -- what is left of the loop finds nothing to read
      have hrest : ∀ s' : Progress, ∀ n (name first last : Variable 4),
          (readRanges throws abort n name first last [] s').calls = s'.calls := by
        intro s' n name first last
        cases n with
        | zero => rfl
        | succ n =>
          rw [readRanges, if_pos (by simp [readRawData])]
          rfl
      split_ifs with hstop
      · rw [addRuleQuietly_calls]
        exact .extra
      · rw [hrest, addRuleQuietly_calls]
        exact .extra
    · have hrule : ((.v4 (ntohl (first.overwrite (stream.drop 4))),
          .v4 (ntohl (last.overwrite ((stream.drop 4).drop 4)))) : Rule) =
            rangeAt (stream.drop 4) := by
        rw [ntohl_overwrite first (by rw [length_drop]; omega),
          ntohl_overwrite last (by rw [length_drop, length_drop]; omega)]
        rfl
      rw [if_neg hshort, hrule]
      refine .cons ?_
      rw [← addRuleQuietly_calls throws]
      split_ifs with hstop
      · exact .aborted hstop _
      · rw [drop_drop, drop_drop]
        exact ih _ _ _ _ _

theorem readNames_cases (n : ℕ) (stream : Bytes) :
    readNames abort n stream = .done (skipNames n stream) ∨
      (readNames abort n stream = .invalid ∧ skipNames n stream = []) ∨
      (readNames abort n stream = .aborted ∧ ∃ k, abort k = true) := by
  induction n generalizing stream with
  | zero => exact .inl rfl
  | succ n ih =>
    have hnil : skipNames n [] = [] := by cases n <;> rfl
    have hend := ih []
    rw [hnil] at hend
    unfold readNames skipNames
    obtain ⟨hnot, hcut⟩ | ⟨name, rest, rfl, hname, hcut⟩ := cutAt_cases 0 stream
    · rw [getlineInStream_of_none hnot, hcut]
      dsimp only
      split_ifs with hempty hstop
      · exact .inr (.inl ⟨rfl, rfl⟩)
      · exact .inr (.inr ⟨rfl, _, hstop⟩)
      · exact hend
    · rw [getlineInStream_append rest hname, hcut]
      dsimp only
      rw [if_neg (Nat.succ_ne_zero _)]
      split_ifs with hstop
      · exact .inr (.inr ⟨rfl, _, hstop⟩)
      · exact ih rest

theorem readVersion3_follows (memory : Memory) (stream : Bytes) :
    Follows abort [] (readVersion3 throws abort memory stream).calls (version3Records stream) := by
  unfold readVersion3 version3Records
  by_cases hempty : stream.length = 0
  · rw [if_pos ((readRawData_eq_zero_iff _ _).mpr (.inr hempty)), if_pos (by omega)]
    exact .none
  rw [if_neg (by rw [readRawData_eq_zero_iff]; omega)]
  by_cases hshort : stream.length < 4
  · have hnil : (readRawData memory.namecount stream).2.2 = [] :=
      drop_eq_nil_iff.mpr (by omega)
    have hskip : ∀ n, skipNames n [] = [] := fun n => by cases n <;> rfl
    rw [if_pos hshort, hnil]
    obtain hread | ⟨hread, _⟩ | ⟨hread, _⟩ :=
      readNames_cases abort (ntohl (readRawData memory.namecount stream).2.1).toNat []
    · rw [hread, hskip]
      exact .none
    · rw [hread]
      exact .none
    · rw [hread]
      exact .none
  · have hcount : ntohl (readRawData memory.namecount stream).2.1 = number (stream.take 4) :=
      ntohl_overwrite memory.namecount (by omega)
    have hdrop : (readRawData memory.namecount stream).2.2 = stream.drop 4 := rfl
    rw [if_neg hshort, hcount, hdrop]
    dsimp only
    obtain hread | ⟨hread, hskip⟩ | ⟨hread, k, hk⟩ := readNames_cases abort
      (number (stream.take 4)).toNat (stream.drop 4)
    · rw [hread]
      generalize skipNames (number (stream.take 4)).toNat (stream.drop 4) = rest
      dsimp only
      by_cases hend : rest.length = 0
      · rw [if_pos ((readRawData_eq_zero_iff _ _).mpr (.inr hend)), if_pos (by omega)]
        exact .none
      rw [if_neg (by rw [readRawData_eq_zero_iff]; omega)]
      by_cases hpart : rest.length < 4
      · -- the number of ranges is read in part, and no range follows
        have hnil : (readRawData memory.rangecount rest).2.2 = [] :=
          drop_eq_nil_iff.mpr (by omega)
        rw [if_pos hpart, hnil]
        cases (ntohl (readRawData memory.rangecount rest).2.1).toNat with
        | zero => exact .none
        | succ n =>
          rw [readRanges, if_pos ((readRawData_eq_zero_iff _ _).mpr (.inr rfl))]
          exact .none
      · have hcount : ntohl (readRawData memory.rangecount rest).2.1 = number (rest.take 4) :=
          ntohl_overwrite memory.rangecount (by omega)
        rw [if_neg hpart, hcount]
        exact readRanges_follows throws abort _ _ _ _ _ _
    · rw [hread, hskip]
      exact .none
    · rw [hread]
      exact .aborted hk _

/-- The parser calls `add_rule` for the complete records of the file, and once more for a truncated
one that has a part of its end. -/
theorem parseP2BFilterFile_follows (memory : Memory) (file : Bytes) :
    ∃ s, parseP2BFilterFile throws abort memory file = some s ∧
      Follows abort [] s.calls (p2bRecords file) := by
  unfold parseP2BFilterFile p2bRecords
  by_cases hlong : 7 ≤ file.length
  · have hbuf : (readRawData memory.buf file).2.1.bytes = file.take 7 :=
      overwrite_bytes memory.buf hlong
    have hdrop : (readRawData memory.buf file).2.2 = file.drop 7 := rfl
    by_cases hmagic : file.take 7 = p2bMagic
    · rw [if_pos hmagic]
      dsimp only
      rw [hdrop]
      cases hrest : file.drop 7 with
      | nil =>
        rw [if_pos (.inr (.inr ((readRawData_eq_zero_iff _ _).mpr (.inr rfl))))]
        exact ⟨_, rfl, .none⟩
      | cons version stream =>
        have hversion : (readRawData memory.version (version :: stream)).2.1.bytes = [version] :=
          overwrite_bytes memory.version (by rw [length_cons]; omega)
        have hstream : (readRawData memory.version (version :: stream)).2.2 = stream := rfl
        have hread : ¬ ((readRawData memory.buf file).1 = 0 ∨
            (readRawData memory.buf file).2.1.bytes ≠ p2bMagic ∨
            (readRawData memory.version (version :: stream)).1 = 0) := by
          rw [readRawData_eq_zero_iff, readRawData_eq_zero_iff, hbuf, hmagic, length_cons]
          rintro (h | h | h)
          · omega
          · exact h rfl
          · omega
        rw [if_neg hread, hversion, hstream]
        simp only [List.cons.injEq, and_true]
        split_ifs with hold hthree
        · exact readNamedRanges_follows throws abort _ _ _ (by omega) {}
        · exact ⟨_, rfl, readVersion3_follows throws abort memory stream⟩
        · exact ⟨_, rfl, .none⟩
    · rw [if_neg hmagic]
      dsimp only
      rw [if_pos (.inr (.inl (by rw [hbuf]; exact hmagic)))]
      exact ⟨_, rfl, .none⟩
  · have hdrop : (readRawData memory.buf file).2.2 = [] := drop_eq_nil_iff.mpr (by omega)
    have hmagic : file.take 7 ≠ p2bMagic := by
      intro h
      have hlength := congrArg List.length h
      rw [length_take] at hlength
      simp only [p2bMagic, length_cons, length_nil] at hlength
      omega
    dsimp only
    rw [if_neg hmagic, hdrop, if_pos (.inr (.inr ((readRawData_eq_zero_iff _ _).mpr (.inr rfl))))]
    exact ⟨_, rfl, .none⟩

end

end Qbutt.Filter
