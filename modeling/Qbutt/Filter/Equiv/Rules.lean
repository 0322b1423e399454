import Qbutt.Filter.Equiv.Binary
import Qbutt.Filter.Equiv.Text

/-!
# The rules of an IP filter

Which rules the three parsers add.  The DAT parser adds well formed ones only.  The P2P parser does
not compare the two addresses, and the P2B parser neither compares them nor notices that the last
record is truncated in its end, so with these formats it depends on the file (`parsesWell_iff`).
-/

namespace Qbutt.Filter

open List

/-- The addresses of a rule are of one family, and the first is not greater than the last. -/
def Rule.WellFormed (rule : Rule) : Prop :=
  rule.1.isV4 = rule.2.isV4 ∧ rule.2.lt rule.1 = false

instance (rule : Rule) : Decidable rule.WellFormed := by unfold Rule.WellFormed; infer_instance

def Verdict.rules : Verdict → List Rule
  | .range first last => [(first, last)]
  | _ => []

def rulesOf (verdict : Bytes → Verdict) (lines : List Bytes) : List Rule :=
  (lines.filter fun line => ¬ IsComment line).flatMap fun line => (verdict line).rules

/-! ### Text formats -/

section Text

variable {parseLine : LineParser} {verdict : Bytes → Verdict} {throws : List Rule → Option String}

variable (s : Progress)

theorem addRule_calls (rule : Rule) : (s.addRule throws rule).calls = s.calls ++ [rule] := by
  unfold Progress.addRule
  dsimp only
  split <;> rfl

theorem add_calls (verdict : Verdict) :
    (s.add throws verdict).calls = s.calls ++ verdict.rules := by
  cases verdict with
  | ignored => exact (append_nil _).symm
  | malformed detail => exact (append_nil _).symm
  | range first last => exact addRule_calls s (first, last)

theorem addLine_calls (line : Bytes) :
    (addLine throws verdict s line).calls = s.calls ++ rulesOf verdict [line] := by
  rw [addLine, add_calls]
  by_cases hcomment : IsComment line
  · rw [if_pos hcomment]
    simp [rulesOf, hcomment, Verdict.rules]
  · rw [if_neg hcomment]
    simp [rulesOf, hcomment]

theorem foldl_addLine_calls (lines : List Bytes) :
    (lines.foldl (addLine throws verdict) s).calls = s.calls ++ rulesOf verdict lines := by
  induction lines generalizing s with
  | nil => exact (append_nil _).symm
  | cons line lines ih =>
    rw [foldl_cons, ih, addLine_calls, append_assoc]
    congr 1
    rw [rulesOf, rulesOf, rulesOf, ← flatMap_append, ← filter_append,
      singleton_append]

theorem finish_calls : s.finish.calls = s.calls := by
  unfold Progress.finish
  split_ifs <;> rfl

theorem parseTextFile_calls (throws : List Rule → Option String)
    (hlocal : IsLocal parseLine verdict) (sizes : ℕ → ℕ) (file : Bytes)
    (fuel : ℕ) (hfuel : 2 * file.length < fuel) :
    ∃ s, parseTextFile parseLine throws BUFFER_SIZE fuel (fun k => some (sizes k)) file = some s ∧
      s.calls = rulesOf verdict (cutLines 10 (BUFFER_SIZE - 1) [] file) := by
  refine ⟨_, parseTextFile_eq hlocal (by decide) sizes file hfuel, ?_⟩
  rw [finish_calls, foldl_addLine_calls]
  rfl

end Text

variable {makeAddress : Bytes → Option Address}

theorem wellFormed_of_datVerdict {line : Bytes} {rule : Rule}
    (h : rule ∈ (datVerdict makeAddress line).rules) : rule.WellFormed := by
  have hrange : ∀ range, rule ∈ (datRangeVerdict makeAddress range).rules → rule.WellFormed := by
    intro range hrule
    unfold datRangeVerdict at hrule
    cases hcut : cutAt 45 range with
    | none =>
      rw [hcut] at hrule
      cases hrule
    | some sides =>
      rw [hcut] at hrule
      dsimp only at hrule
      cases hverdict : rangeVerdict makeAddress sides.1 sides.2 with
      | ignored =>
        rw [hverdict] at hrule
        cases hrule
      | malformed detail =>
        rw [hverdict] at hrule
        cases hrule
      | range first last =>
        rw [hverdict] at hrule
        dsimp only at hrule
        split_ifs at hrule with horder
        · cases hrule
        · obtain rfl := mem_singleton.mp hrule
          refine ⟨?_, Bool.eq_false_iff.mpr horder⟩
          unfold rangeVerdict at hverdict
          split at hverdict
          · cases hverdict
          · split at hverdict
            · cases hverdict
            · split_ifs at hverdict with hfamily
              cases hverdict
              rw [not_or, not_not] at hfamily
              exact hfamily.1
  unfold datVerdict at h
  cases hcut : cutAt 44 line with
  | none =>
    rw [hcut] at h
    exact hrange _ h
  | some sides =>
    rw [hcut] at h
    dsimp only at h
    split_ifs at h
    · cases h
    · exact hrange _ h

theorem family_of_p2pVerdict {line : Bytes} {first last : Address}
    (h : p2pVerdict makeAddress line = .range first last) : first.isV4 = last.isV4 := by
  unfold p2pVerdict at h
  split at h
  · cases h
  · split at h
    · cases h
    · unfold rangeVerdict at h
      split at h
      · cases h
      · split at h
        · cases h
        · split_ifs at h with hfamily
          cases h
          rw [not_or, not_not] at hfamily
          exact hfamily.1

/-! ### All formats -/

section

variable (makeAddress : Bytes → Option Address) (throws : List Rule → Option String)
  (memory : Memory)

/-- The rules of a file are well formed; those of a P2B file are its complete records. -/
def ParsesWell (file : Bytes) : Format → Prop
  | .dat => ∀ (sizes : ℕ → ℕ) (fuel : ℕ), 2 * file.length < fuel →
    ∃ s, parseDATFilterFile makeAddress throws fuel (fun k => some (sizes k)) file = some s ∧
      ∀ rule ∈ s.calls, rule.WellFormed
  | .p2p => ∀ (sizes : ℕ → ℕ) (fuel : ℕ), 2 * file.length < fuel →
    ∃ s, parseP2PFilterFile makeAddress throws fuel (fun k => some (sizes k)) file = some s ∧
      ∀ rule ∈ s.calls, rule.WellFormed
  | .p2b => ∀ abort : ℕ → Bool,
    ∃ s, parseP2BFilterFile throws abort memory file = some s ∧
      (∀ rule ∈ s.calls, rule.WellFormed) ∧ s.calls <+: (p2bRecords file).1 ∧
      ((∀ n, abort n = false) → s.calls = (p2bRecords file).1)

/-- What a file has to be for its rules to be well formed: nothing in the DAT format; in the P2P
format no line, as the buffer cuts them, is a range whose first address is greater than the last; in
the P2B format no record is, and no truncated record has a part of its end. -/
def IsSound (file : Bytes) : Format → Prop
  | .dat => True
  | .p2p => ∀ line ∈ cutLines 10 (BUFFER_SIZE - 1) [] file, ¬ IsComment line →
    ∀ first last, p2pVerdict makeAddress line = .range first last → last.lt first = false
  | .p2b => (∀ record ∈ (p2bRecords file).1, record.2.lt record.1 = false) ∧
    (p2bRecords file).2 = false

theorem parsesWell_dat (file : Bytes) : ParsesWell makeAddress throws memory file .dat := by
  intro sizes fuel hfuel
  obtain ⟨s, hparse, hcalls⟩ := parseTextFile_calls throws
    (parseDATLine_local makeAddress) sizes file fuel hfuel
  refine ⟨s, hparse, fun rule hrule => ?_⟩
  rw [hcalls, rulesOf, mem_flatMap] at hrule
  obtain ⟨line, _, hline⟩ := hrule
  exact wellFormed_of_datVerdict hline

theorem parsesWell_p2p (file : Bytes) :
    ParsesWell makeAddress throws memory file .p2p ↔ IsSound makeAddress file .p2p := by
  constructor
  · intro h line hline hcomment first last hverdict
    obtain ⟨s, hparse, hrules⟩ := h (fun _ => 1) (2 * file.length + 1) (Nat.lt_succ_self _)
    obtain ⟨s', hparse', hcalls⟩ := parseTextFile_calls throws
      (parseP2PLine_local makeAddress) (fun _ => 1) file _ (Nat.lt_succ_self (2 * file.length))
    obtain rfl : s = s' := Option.some.inj (hparse.symm.trans hparse')
    refine (hrules (first, last) ?_).2
    rw [hcalls, rulesOf, mem_flatMap]
    exact ⟨line, mem_filter.mpr ⟨hline, by simpa using hcomment⟩, by
      rw [hverdict]; exact mem_singleton_self _⟩
  · intro h sizes fuel hfuel
    obtain ⟨s, hparse, hcalls⟩ := parseTextFile_calls throws
      (parseP2PLine_local makeAddress) sizes file fuel hfuel
    refine ⟨s, hparse, fun rule hrule => ?_⟩
    rw [hcalls, rulesOf, mem_flatMap] at hrule
    obtain ⟨line, hline, hrule⟩ := hrule
    obtain ⟨hline, hcomment⟩ := mem_filter.mp hline
    cases hverdict : p2pVerdict makeAddress line with
    | ignored =>
      rw [hverdict] at hrule
      cases hrule
    | malformed detail =>
      rw [hverdict] at hrule
      cases hrule
    | range first last =>
      rw [hverdict] at hrule
      obtain rfl := mem_singleton.mp hrule
      exact ⟨family_of_p2pVerdict hverdict, h line hline (by simpa using hcomment) _ _ hverdict⟩

theorem isV4_p2bRecords (file : Bytes) :
    ∀ record ∈ (p2bRecords file).1, record.1.isV4 = record.2.isV4 := by
  have hnamed : ∀ fuel stream, ∀ record ∈ (namedRecords fuel stream).1,
      record.1.isV4 = record.2.isV4 := by
    intro fuel
    induction fuel with
    | zero => intro stream record hrecord; cases hrecord
    | succ fuel ih =>
      intro stream record hrecord
      unfold namedRecords at hrecord
      split at hrecord
      · cases hrecord
      · split_ifs at hrecord
        · cases hrecord
        · rcases mem_cons.mp hrecord with rfl | hrecord
          · rfl
          · exact ih _ record hrecord
  have hindexed : ∀ n stream, ∀ record ∈ (indexedRecords n stream).1,
      record.1.isV4 = record.2.isV4 := by
    intro n
    induction n with
    | zero => intro stream record hrecord; cases hrecord
    | succ n ih =>
      intro stream record hrecord
      unfold indexedRecords at hrecord
      split_ifs at hrecord
      · cases hrecord
      · rcases mem_cons.mp hrecord with rfl | hrecord
        · rfl
        · exact ih _ record hrecord
  intro record hrecord
  unfold p2bRecords version3Records at hrecord
  split_ifs at hrecord
  · split at hrecord
    · cases hrecord
    · split_ifs at hrecord
      · exact hnamed _ _ record hrecord
      · cases hrecord
      · dsimp only at hrecord
        split_ifs at hrecord
        · cases hrecord
        · exact hindexed _ _ record hrecord
      · cases hrecord
  · cases hrecord

theorem parsesWell_p2b (file : Bytes) :
    ParsesWell makeAddress throws memory file .p2b ↔ IsSound makeAddress file .p2b := by
  constructor
  · intro h
    obtain ⟨s, hparse, hrules, _, hexact⟩ := h fun _ => false
    obtain ⟨s', hparse', taken, extra, hcalls, hextra, _, hall⟩ :=
      parseP2BFilterFile_follows throws (fun _ => false) memory file
    obtain rfl : s = s' := Option.some.inj (hparse.symm.trans hparse')
    rw [hall fun _ => rfl, nil_append, hexact fun _ => rfl] at hcalls
    refine ⟨fun record hrecord => (hrules record ?_).2, hextra.mp ?_⟩
    · rwa [hexact fun _ => rfl]
    · exact self_eq_append_right.mp hcalls
  · rintro ⟨horder, hwhole⟩ abort
    obtain ⟨s, hparse, taken, extra, hcalls, hextra, hprefix, hall⟩ :=
      parseP2BFilterFile_follows throws abort memory file
    rw [hextra.mpr hwhole, append_nil] at hprefix hall
    rw [nil_append] at hcalls
    refine ⟨s, hparse, fun rule hrule => ?_, hcalls ▸ hprefix,
      fun hnone => hcalls.trans (hall hnone)⟩
    have hrecord := hprefix.subset (hcalls ▸ hrule)
    exact ⟨isV4_p2bRecords file rule hrecord, horder rule hrecord⟩

theorem parsesWell_iff (file : Bytes) (format : Format) :
    ParsesWell makeAddress throws memory file format ↔ IsSound makeAddress file format := by
  cases format with
  | dat => exact iff_of_true (parsesWell_dat makeAddress throws memory file) trivial
  | p2p => exact parsesWell_p2p makeAddress throws memory file
  | p2b => exact parsesWell_p2b makeAddress throws memory file

end

/-- The P2P line "a:2.0.0.0-1.0.0.0" adds a rule whose first address is greater than its last. -/
theorem p2p_inverted :
    ¬ ∀ (makeAddress : Bytes → Option Address) (throws : List Rule → Option String)
      (memory : Memory) (file : Bytes) (format : Format),
      ParsesWell makeAddress throws memory file format := by
  intro h
  have hsound := (parsesWell_p2p (fun _ => none) (fun _ => none)
    ⟨⟨List.replicate 7 0, rfl⟩, ⟨[0], rfl⟩, ⟨List.replicate 4 0, rfl⟩, ⟨List.replicate 4 0, rfl⟩,
      ⟨List.replicate 4 0, rfl⟩, ⟨List.replicate 4 0, rfl⟩, ⟨List.replicate 4 0, rfl⟩⟩
    [97, 58, 50, 46, 48, 46, 48, 46, 48, 45, 49, 46, 48, 46, 48, 46, 48]).mp (h _ _ _ _ _)
  have hline := hsound [97, 58, 50, 46, 48, 46, 48, 46, 48, 45, 49, 46, 48, 46, 48, 46, 48]
    (by decide +kernel) (by decide +kernel) (.v4 0x02000000) (.v4 0x01000000) (by decide +kernel)
  exact absurd hline (by decide)

end Qbutt.Filter
