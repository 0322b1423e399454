import Qbutt.Filter.Equiv.Lines

/-!
# Text filters do not depend on the buffer

Between two reads the buffer starts with the unfinished line.  A read appends to it, the complete
lines are read one after the other, and what is left over is moved to the front (`readLines_eq`).
So the parsers read the lines of the file, cut where the buffer has no more room (`readChunks_eq`),
whatever the sizes of the reads are.  `parse_lines` says this of the two parsers for lines that fit.
-/

namespace Qbutt.Filter

open List Option

variable {parseLine : LineParser} {verdict : Bytes → Verdict}
  {throws : List Rule → Option String} {bufferSize fuel : ℕ}

/-! ### One line -/

def addLine (throws : List Rule → Option String) (verdict : Bytes → Verdict) (s : Progress)
    (line : Bytes) : Progress :=
  { s with nbLine := s.nbLine + 1 }.add throws (if IsComment line then .ignored else verdict line)

theorem isComment_eq (front line back : Bytes) {dataSize : ℕ}
    (hsize : front.length + line.length ≤ dataSize) :
    isComment (front ++ (line ++ 0 :: back)) front.length dataSize =
      some (decide (IsComment line)) := by
  unfold isComment
  cases line with
  | nil =>
    rw [nil_append, getElem?_at]
    simp [IsComment]
  | cons first line =>
    have hnext : (front ++ (first :: line ++ 0 :: back))[front.length + 1]? =
        (line ++ 0 :: back).head? := by
      rw [List.getElem?_append_right (by omega), Nat.add_sub_cancel_left, cons_append,
        List.getElem?_cons_succ, List.head?_eq_getElem?]
    rw [hnext, cons_append, getElem?_at]
    cases line with
    | nil =>
      simp only [bind_eq_bind, bind_some, nil_append, List.head?_cons, IsComment]
      by_cases hhash : first = 35 <;> by_cases hslash : first = 47 <;> simp_all
    | cons second line =>
      rw [length_cons, length_cons] at hsize
      have hroom : front.length + 1 < dataSize := by omega
      simp only [bind_eq_bind, bind_some, cons_append, List.head?_cons, IsComment]
      by_cases hhash : first = 35 <;> by_cases hslash : first = 47 <;>
        simp [hhash, hslash, hroom]

theorem readLine_eq (throws : List Rule → Option String) (hlocal : IsLocal parseLine verdict)
    (front line back : Bytes) (dataSize : ℕ)
    (hsize : front.length + line.length ≤ dataSize) (s : Progress) :
    ∃ line', line'.length = line.length + 1 ∧
      readLine parseLine throws (front ++ (line ++ 0 :: back)) front.length
          (front.length + line.length) dataSize s =
        some (front ++ (line' ++ back), addLine throws verdict s line) := by
  unfold readLine addLine
  rw [isComment_eq front line back hsize]
  by_cases hcomment : IsComment line
  · refine ⟨line ++ [0], by rw [length_append, length_singleton], ?_⟩
    simp [hcomment, Progress.add]
  · obtain ⟨line', hlength, hparse⟩ := hlocal front line back
    refine ⟨line', hlength, ?_⟩
    simp [hcomment, hparse]

/-! ### The lines of a chunk -/

/-- Of what is in the buffer the complete lines are read, and the rest is moved to the front. -/
theorem readLines_eq (throws : List Rule → Option String) (hlocal : IsLocal parseLine verdict)
    {lines : List Bytes} {rest : Bytes}
    (hlines : ∀ line ∈ lines, (10 : UInt8) ∉ line) (hrest : (10 : UInt8) ∉ rest)
    (done stale : Bytes) (dataSize fuel : ℕ) (hfuel : lines.length < fuel)
    (hsize : dataSize = done.length + (unlines 10 lines ++ rest).length) (s : Progress) :
    ∃ stale', (rest ++ stale').length = (done ++ (unlines 10 lines ++ rest ++ stale)).length ∧
      readLines parseLine throws dataSize false fuel (done ++ (unlines 10 lines ++ rest ++ stale))
          done.length s =
        some (rest ++ stale', rest.length, lines.foldl (addLine throws verdict) s) := by
  induction lines generalizing done fuel s with
  | nil =>
    obtain ⟨fuel, rfl⟩ : ∃ n, fuel = n + 1 := ⟨fuel - 1, by omega⟩
    rw [unlines, flatMap_nil, nil_append] at hsize ⊢
    rw [readLines]
    by_cases hempty : rest = []
    · rw [if_pos (by rw [hsize, hempty, length_nil]; omega)]
      refine ⟨done ++ stale, by simp [hempty], ?_⟩
      simp [hempty]
    · have hlength : 0 < rest.length := length_pos_iff.mpr hempty
      have hfind := findAndNullDelimiter_none done stale _ false hrest hsize
      have hdrop : ((done ++ (rest ++ stale)).drop done.length).take rest.length = rest := by
        rw [drop_left, take_left]
      rw [if_neg (by omega), findEndOfLine, if_neg (by simp), hfind]
      simp only [bind_eq_bind, bind_some]
      rw [if_pos (by rw [length_append, length_append]; omega),
        show dataSize - done.length = rest.length by omega, hdrop]
      refine ⟨(done ++ (rest ++ stale)).drop rest.length, ?_, rfl⟩
      rw [length_append, length_drop, length_append, length_append]
      omega
  | cons line lines ih =>
    obtain ⟨fuel, rfl⟩ : ∃ n, fuel = n + 1 := ⟨fuel - 1, by omega⟩
    have hline := hlines line mem_cons_self
    have hjoin : unlines 10 (line :: lines) ++ rest ++ stale =
        line ++ 10 :: (unlines 10 lines ++ rest ++ stale) := by
      rw [unlines_cons]
      simp only [append_assoc, cons_append]
    have hlength : (unlines 10 (line :: lines) ++ rest).length =
        line.length + 1 + (unlines 10 lines ++ rest).length := by
      rw [unlines_cons, append_assoc, length_append, cons_append, length_cons]
      omega
    rw [hlength] at hsize
    rw [length_cons] at hfuel
    have hfind := findAndNullDelimiter_first done (unlines 10 lines ++ rest ++ stale)
      (dataSize) hline (by omega)
    obtain ⟨line', hline', hread⟩ := readLine_eq throws hlocal done line
      (unlines 10 lines ++ rest ++ stale) (dataSize) (by omega) s
    have hdone : (done ++ line').length = done.length + line.length + 1 := by
      rw [length_append, hline', Nat.add_assoc]
    obtain ⟨stale', hstale, hnext⟩ := ih (fun l hl => hlines l (mem_cons_of_mem _ hl))
      (done ++ line') (fuel) (by omega) (by rw [hdone]; omega)
      (addLine throws verdict s line)
    rw [hdone, append_assoc] at hnext
    refine ⟨stale', ?_, ?_⟩
    · rw [hstale, hjoin]
      simp only [length_append, length_cons, hline']
      omega
    · rw [hjoin, readLines, if_neg (by omega), findEndOfLine, if_neg (by simp), hfind]
      simp only [bind_eq_bind, bind_some, hread, hnext, foldl_cons]

/-- What is left over when nothing more is read is a line. -/
theorem readLines_ended (throws : List Rule → Option String) (hlocal : IsLocal parseLine verdict)
    {rest stale : Bytes} (hrest : rest ≠ []) (hstale : stale ≠ []) (s : Progress) :
    ∃ data, data.length = (rest ++ stale).length ∧
      readLines parseLine throws rest.length true (rest.length + 1) (rest ++ stale) 0 s =
        some (data, 0, addLine throws verdict s rest) := by
  obtain ⟨b, stale, rfl⟩ := exists_cons_of_ne_nil hstale
  have hlength : 0 < rest.length := length_pos_iff.mpr hrest
  obtain ⟨n, hn⟩ : ∃ n, rest.length = n + 1 := ⟨rest.length - 1, by omega⟩
  obtain ⟨line', hline', hread⟩ := readLine_eq throws hlocal [] rest stale
    (rest.length) (by simp) s
  rw [length_nil, Nat.zero_add, nil_append, nil_append] at hread
  refine ⟨line' ++ stale, ?_, ?_⟩
  · rw [length_append, length_append, length_cons, hline']
    omega
  · rw [readLines, if_neg (by omega), findEndOfLine, if_pos rfl, setNull_at]
    simp only [map_some, bind_eq_bind, bind_some, hread]
    rw [hn, readLines, if_pos (by omega)]

/-! ### The chunks of a file -/

theorem readFile_append (size maxSize : ℕ) (file : Bytes) :
    (readFile size maxSize file).1 ++ (readFile size maxSize file).2 = file := by
  rw [readFile, splitAt_eq]
  exact take_append_drop _ _

theorem length_readFile_le (size maxSize : ℕ) (file : Bytes) :
    (readFile size maxSize file).1.length ≤ maxSize := by
  rw [readFile, splitAt_eq, length_take]
  omega

/-- Nothing is read only if nothing is left or nothing was asked for. -/
theorem readFile_eq_nil {size maxSize : ℕ} {file : Bytes}
    (h : (readFile size maxSize file).1 = []) : file = [] ∨ maxSize = 0 := by
  rw [readFile, splitAt_eq, take_eq_nil_iff] at h
  exact h.symm.imp_right fun hmin => by omega

/-- How many chunks are left: of every two reads one gives something. -/
def chunksLeft (rest file : Bytes) : ℕ := 2 * file.length + if rest = [] then 0 else 1

theorem readChunks_eq (throws : List Rule → Option String) (hlocal : IsLocal parseLine verdict)
    (hbuffer : 2 ≤ bufferSize) (sizes : ℕ → ℕ) {rest : Bytes} (hrest : (10 : UInt8) ∉ rest)
    (stale : Bytes) (hlength : (rest ++ stale).length = bufferSize)
    (hroom : rest.length < bufferSize) (fuel : ℕ) (file : Bytes)
    (hfuel : chunksLeft rest file < fuel) (s : Progress) :
    readChunks parseLine throws fuel (fun k => some (sizes k)) (rest ++ stale) rest.length file s =
      some ((cutLines 10 (bufferSize - 1) rest file).foldl (addLine throws verdict) s) := by
  induction fuel generalizing sizes rest stale file s with
  | zero => exact absurd hfuel (Nat.not_lt_zero _)
  | succ fuel ih =>
    unfold readChunks
    simp only
    set read := readFile (sizes 0) ((rest ++ stale).length - rest.length - 1) file with hread
    have hfile : read.1 ++ read.2 = file := readFile_append _ _ _
    have hle : read.1.length ≤ (rest ++ stale).length - rest.length - 1 := length_readFile_le _ _ _
    rw [hlength] at hle
    have hstale : stale.length = bufferSize - rest.length := by
      rw [length_append] at hlength
      omega
    have hdrop : (rest ++ stale).drop (read.1.length + rest.length) = stale.drop read.1.length := by
      rw [Nat.add_comm, ← drop_drop, drop_left]
    rw [if_neg (show ¬ (rest ++ stale).length < read.1.length + rest.length by omega),
      take_left, hdrop]
    by_cases hchunk : read.1 = []
    · -- nothing was read: the file ended, or the line fills the buffer
      have hend := readFile_eq_nil hchunk
      rw [hlength] at hend
      rw [hchunk, nil_append] at hfile
      rw [hchunk, hfile]
      by_cases hempty : rest = []
      · rw [if_pos (by rw [hempty]; exact ⟨rfl, rfl⟩)]
        rw [hempty, length_nil] at hend
        rw [hend.resolve_right (by omega), hempty]
        rfl
      · have hpos : 0 < rest.length := length_pos_iff.mpr hempty
        have hne : stale ≠ [] := by
          rintro rfl
          rw [length_nil] at hstale
          omega
        obtain ⟨data, hdata, hlast⟩ := readLines_ended throws hlocal hempty hne s
        rw [if_neg (by rw [length_nil]; omega)]
        simp only [append_nil, length_nil, Nat.zero_add, drop_zero, decide_true,
          hlast, bind_eq_bind, bind_some]
        have hcut : cutLines 10 (bufferSize - 1) rest file =
            rest :: cutLines 10 (bufferSize - 1) [] file := by
          by_cases hdone : file = []
          · rw [hdone, cutLines, if_neg hempty, cutLines, if_pos rfl]
          · exact cutLines_full (by omega) (by have := hend.resolve_left hdone; omega) hdone
        have hnext := ih (fun k => sizes (k + 1)) not_mem_nil data
          (by rw [nil_append, hdata, hlength]) (by rw [length_nil]; omega) file
          (by rw [chunksLeft, if_neg hempty] at hfuel; rw [chunksLeft, if_pos rfl]; omega)
          (addLine throws verdict s rest)
        rw [nil_append, length_nil] at hnext
        rw [hnext, hcut, foldl_cons]
    · have hpos : 0 < read.1.length := length_pos_iff.mpr hchunk
      obtain ⟨lines, rest', hsplit, hlines, hrest'⟩ := exists_unlines 10 (rest ++ read.1)
      have hsum : rest.length + read.1.length = (unlines 10 lines ++ rest').length := by
        rw [← hsplit, length_append]
      have hshort : (unlines 10 lines).length + rest'.length ≤ bufferSize - 1 := by
        rw [length_append] at hsum
        omega
      have hcount : lines.length ≤ (unlines 10 lines).length := length_unlines lines
      obtain ⟨stale', hdata, hnow⟩ := readLines_eq throws hlocal hlines hrest' []
        (stale.drop read.1.length) (read.1.length + rest.length)
        (read.1.length + rest.length + 1) (by rw [length_append] at hsum; omega)
        (by rw [length_nil]; omega) s
      rw [nil_append, length_nil, ← hsplit] at hnow
      rw [nil_append, ← hsplit] at hdata
      rw [if_neg (fun h => hchunk h.1)]
      simp only [hchunk, decide_false, hnow, bind_eq_bind, bind_some]
      have hlength' : (rest' ++ stale').length = bufferSize := by
        rw [hdata, length_append, length_append, length_drop]
        omega
      have hfuel' : chunksLeft rest' read.2 < fuel := by
        have hfiles : read.1.length + read.2.length = file.length := by
          rw [← length_append, hfile]
        unfold chunksLeft at hfuel ⊢
        split_ifs at hfuel ⊢ <;> omega
      rw [ih (fun k => sizes (k + 1)) hrest' stale' hlength' (by omega) read.2 hfuel'
        (lines.foldl (addLine throws verdict) s), ← foldl_append]
      have hfeed := cutLines_feed (bufferSize - 1) read.2 hsplit hrest
        (fun l hl => ⟨hlines l hl, by have := length_le_unlines (a := (10 : UInt8)) hl; omega⟩)
        hrest' (by omega)
      rw [hfile] at hfeed
      rw [hfeed]

theorem parseTextFile_eq (hlocal : IsLocal parseLine verdict) (hbuffer : 2 ≤ bufferSize)
    (sizes : ℕ → ℕ) (file : Bytes) (hfuel : 2 * file.length < fuel) :
    parseTextFile parseLine throws bufferSize fuel (fun k => some (sizes k)) file =
      some ((cutLines 10 (bufferSize - 1) [] file).foldl (addLine throws verdict) {}).finish := by
  have hchunks := readChunks_eq throws hlocal hbuffer sizes not_mem_nil
    (List.replicate bufferSize 0) (by rw [nil_append, length_replicate])
    (by rw [length_nil]; omega) fuel file
    (by rw [chunksLeft, if_pos rfl, Nat.add_zero]; exact hfuel) {}
  rw [nil_append, length_nil] at hchunks
  rw [parseTextFile, hchunks, map_some]

/-! ### Each line alone -/

def lineAlone (parseLine : LineParser) (throws : List Rule → Option String) (s : Progress)
    (line : Bytes) : Option Progress :=
  (readLine parseLine throws (line ++ [0]) 0 line.length line.length s).map fun result => result.2

theorem lineAlone_eq (hlocal : IsLocal parseLine verdict) (s : Progress) (line : Bytes) :
    lineAlone parseLine throws s line = some (addLine throws verdict s line) := by
  obtain ⟨line', _, hread⟩ := readLine_eq throws hlocal [] line []
    (line.length) (by simp) s
  rw [nil_append, length_nil, Nat.zero_add] at hread
  rw [lineAlone, hread, map_some]

theorem foldlM_lineAlone (hlocal : IsLocal parseLine verdict) (s : Progress) (lines : List Bytes) :
    lines.foldlM (lineAlone parseLine throws) s =
      some (lines.foldl (addLine throws verdict) s) := by
  induction lines generalizing s with
  | nil => rfl
  | cons line lines ih =>
    rw [foldlM_cons, lineAlone_eq hlocal, foldl_cons, ← ih]
    rfl

theorem parseTextFile_lines (hlocal : IsLocal parseLine verdict) (sizes : ℕ → ℕ) (file : Bytes)
    (hshort : ∀ line ∈ linesOf 10 file, line.length < BUFFER_SIZE - 2)
    (hfuel : 2 * file.length < fuel) :
    ∃ s, (linesOf 10 file).foldlM (lineAlone parseLine throws) {} = some s ∧
      parseTextFile parseLine throws BUFFER_SIZE fuel (fun k => some (sizes k)) file =
        some s.finish := by
  have hsize : BUFFER_SIZE = 2097152 := rfl
  refine ⟨_, foldlM_lineAlone hlocal {} _, ?_⟩
  rw [parseTextFile_eq hlocal (by omega) sizes file hfuel,
    cutLines_eq_linesOf fun line hline => by have := hshort line hline; omega]

/-- Whatever the sizes of the reads are, the parsers of text filters do what running the logic of a
line on each line of the file alone does. -/
theorem parse_lines (makeAddress : Bytes → Option Address) (throws : List Rule → Option String)
    (sizes : ℕ → ℕ) (file : Bytes)
    (hshort : ∀ line ∈ linesOf 10 file, line.length < BUFFER_SIZE - 2) (fuel : ℕ)
    (hfuel : 2 * file.length < fuel) :
    (∃ s, (linesOf 10 file).foldlM (lineAlone (parseDATLine makeAddress) throws) {} = some s ∧
      parseDATFilterFile makeAddress throws fuel (fun k => some (sizes k)) file = some s.finish) ∧
    (∃ s, (linesOf 10 file).foldlM (lineAlone (parseP2PLine makeAddress) throws) {} = some s ∧
      parseP2PFilterFile makeAddress throws fuel (fun k => some (sizes k)) file = some s.finish) :=
  ⟨parseTextFile_lines (parseDATLine_local makeAddress) sizes file hshort hfuel,
    parseTextFile_lines (parseP2PLine_local makeAddress) sizes file hshort hfuel⟩

/-- Two lines, the last one not terminated, read in pieces of one byte. -/
theorem parse_lines_pieces :
    (∃ s, (linesOf 10 [35, 10, 49, 58, 50]).foldlM
        (lineAlone (parseDATLine fun _ => none) fun _ => none) {} = some s ∧
      parseDATFilterFile (fun _ => none) (fun _ => none) 11 (fun _ => some 1) [35, 10, 49, 58, 50] =
        some s.finish) ∧
    (∃ s, (linesOf 10 [35, 10, 49, 58, 50]).foldlM
        (lineAlone (parseP2PLine fun _ => none) fun _ => none) {} = some s ∧
      parseP2PFilterFile (fun _ => none) (fun _ => none) 11 (fun _ => some 1) [35, 10, 49, 58, 50] =
        some s.finish) :=
  parse_lines (fun _ => none) (fun _ => none) (fun _ => 1) [35, 10, 49, 58, 50]
    (by decide +kernel) 11 (by decide)

end Qbutt.Filter
