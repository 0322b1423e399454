import Mathlib.Algebra.Order.BigOperators.Group.Finset
import Qbutt.Merkle.Equiv.AnalyzeV2
import Qbutt.Repair.Analysis

/-!
# The sums of the analysis

A piece is valid if it passes the scans of the kinds of hashes that the torrent has (`PassesV1`,
`PassesV2`), and the verified bytes of a file are those of its slices in valid pieces
(`files_countPieces`).  As the slices of a file tile it, it is verified as a whole if and only if all
pieces that overlap it are valid.
-/

namespace Qbutt.Repair

open Merkle List

variable {D H : Type} {slices : List Slice}
  {blocksPerPiece index : ℕ} {target : TorrentInfo D H} {files : List FileAnalysis} {piece n : ℕ}
  {result result' : RepairAnalysis} {found : List FoundFile}

/-! ### Tilings -/

def Consecutive : ℕ → List Slice → ℕ → Prop
  | start, [], stop => start = stop
  | start, slice :: slices, stop =>
    slice.offset = start ∧ Consecutive (start + slice.size) slices stop

def slicesOf (index : ℕ) (slices : List Slice) : List Slice :=
  slices.filter fun slice => slice.fileIndex = index

def bytesOf (slices : List Slice) (index : ℕ) : ℕ := ((slicesOf index slices).map Slice.size).sum

/-- The slices of the pieces tile the files of the torrent, and a piece has a block at least. -/
structure Tiled (target : TorrentInfo D H) : Prop where
  blocks : 0 < target.blocksPerPiece
  indexed : ∀ piece < target.numPieces, ∀ slice ∈ target.mapBlock piece,
    slice.fileIndex < target.files.length
  consecutive : ∀ index file, target.files[index]? = some file →
    Consecutive 0 (slicesOf index ((List.range target.numPieces).flatMap target.mapBlock)) file.size

theorem Consecutive.stop_eq {start stop : ℕ} (h : Consecutive start slices stop) :
    stop = start + (slices.map Slice.size).sum := by
  induction slices generalizing start with
  | nil => exact h.symm
  | cons slice slices ih =>
    rw [ih h.2, map_cons, sum_cons, Nat.add_assoc]

theorem bytesOf_append (slices slices' : List Slice) (index : ℕ) :
    bytesOf (slices ++ slices') index = bytesOf slices index + bytesOf slices' index := by
  simp [bytesOf, slicesOf]

theorem bytesOf_range (mapBlock : ℕ → List Slice) (n index : ℕ) :
    bytesOf ((List.range n).flatMap mapBlock) index =
      ∑ piece ∈ Finset.range n, bytesOf (mapBlock piece) index := by
  induction n with
  | zero => rfl
  | succ n ih =>
    rw [range_succ, flatMap_append, bytesOf_append, ih, Finset.sum_range_succ]
    simp

/-- A file has the bytes of its slices. -/
theorem Tiled.size_eq (h : Tiled target) {file : TorrentFile D}
    (hfile : target.files[index]? = some file) :
    file.size = ∑ piece ∈ Finset.range target.numPieces, bytesOf (target.mapBlock piece) index := by
  have hstop := (h.consecutive index file hfile).stop_eq
  rw [Nat.zero_add] at hstop
  rw [hstop, ← bytesOf_range]
  rfl

/-! ### Reports -/

/-- Add bytes to the reports, by native index. -/
def credit (amount : ℕ → ℕ) (files : List FileAnalysis) : List FileAnalysis :=
  files.map fun file => { file with verifiedBytes := file.verifiedBytes + amount file.nativeIndex }

theorem credit_zero (files : List FileAnalysis) : credit (fun _ => 0) files = files := by
  simp [credit]

theorem credit_credit (amount amount' : ℕ → ℕ) (files : List FileAnalysis) :
    credit amount (credit amount' files) = credit (fun index => amount' index + amount index) files := by
  simp [credit, Nat.add_assoc]

theorem credit_congr {amount amount' : ℕ → ℕ}
    (h : ∀ file ∈ files, amount file.nativeIndex = amount' file.nativeIndex) :
    credit amount files = credit amount' files :=
  map_congr_left fun file hfile => by rw [h file hfile]

theorem modifyReport_add (files : List FileAnalysis) (index size : ℕ) :
    modifyReport files index (fun file => { file with verifiedBytes := file.verifiedBytes + size }) =
      credit (fun i => if i = index then size else 0) files := by
  refine map_congr_left fun file _ => ?_
  dsimp only
  split_ifs with heq
  · rfl
  · rfl

/-- What the scans do not change of a report. -/
def core (file : FileAnalysis) : ℕ × ℕ × ℕ :=
  (file.nativeIndex, file.expectedSize, file.verifiedBytes)

theorem core_recordProblems (file : FileAnalysis) (problems : List String) :
    core (problems.foldl FileAnalysis.recordProblem file) = core file := by
  induction problems generalizing file with
  | nil => rfl
  | cons problem problems ih =>
    rw [foldl_cons, ih]
    unfold FileAnalysis.recordProblem
    split_ifs <;> rfl

/-- The scans record problems, and nothing else of the result but the flag. -/
structure Scanned (result result' : RepairAnalysis) : Prop where
  files : result'.files.map core = result.files.map core
  verifiedBytes : result'.verifiedBytes = result.verifiedBytes
  validPieces : result'.validPieces = result.validPieces
  unverifiedPieces : result'.unverifiedPieces = result.unverifiedPieces
  error : result'.error = result.error

theorem Scanned.refl (result : RepairAnalysis) : Scanned result result := ⟨rfl, rfl, rfl, rfl, rfl⟩

theorem Scanned.trans {r₁ r₂ r₃ : RepairAnalysis} (h : Scanned r₁ r₂) (h' : Scanned r₂ r₃) :
    Scanned r₁ r₃ :=
  ⟨h'.files.trans h.files, h'.verifiedBytes.trans h.verifiedBytes, h'.validPieces.trans h.validPieces,
    h'.unverifiedPieces.trans h.unverifiedPieces, h'.error.trans h.error⟩

theorem scanned_record (result : RepairAnalysis) (index : ℕ) (problems : List String) :
    Scanned result (result.record index problems) := by
  refine ⟨?_, rfl, rfl, rfl, rfl⟩
  simp only [RepairAnalysis.record, modifyReport, map_map]
  refine map_congr_left fun file _ => ?_
  simp only [Function.comp]
  split_ifs
  · exact core_recordProblems file problems
  · rfl

/-! ### The v1 scan -/

/-- The bytes of a slice, if they can be read. -/
def sliceData (target : TorrentInfo D H) (found : List FoundFile) (slice : Slice) :
    Option (List UInt8) :=
  if target.isPad slice.fileIndex then some (List.replicate slice.size 0)
  else
    (found[slice.fileIndex]?).bind fun file =>
      file.content.bind fun content =>
        if file.opened = true ∧ slice.size ≤ content.length - slice.offset then
          some ((content.drop slice.offset).take slice.size)
        else none

/-- The bytes of slices, if they all can be read. -/
def piecesData (target : TorrentInfo D H) (found : List FoundFile) :
    List Slice → Option (List UInt8)
  | [] => some []
  | slice :: slices =>
    (sliceData target found slice).bind fun data =>
      (piecesData target found slices).map fun rest => data ++ rest

def PassesV1 (sha1 : List UInt8 → H) (target : TorrentInfo D H) (found : List FoundFile)
    (piece : ℕ) : Prop :=
  ∃ data, piecesData target found (target.mapBlock piece) = some data ∧
    sha1 data = target.hashForPiece piece

theorem hashSlice_eq (n : ℕ) (input hashed : List UInt8) :
    hashSlice n input hashed = if n ≤ input.length then some (hashed ++ input.take n) else none := by
  induction n using Nat.strong_induction_on generalizing input hashed with
  | _ n ih =>
  have hpos := blockSize_pos
  rw [hashSlice]
  by_cases hn : 0 < n
  · rw [if_pos hn]
    dsimp only
    by_cases hshort : input.length < min n blockSize
    · rw [if_pos hshort, if_neg (by omega)]
    · rw [if_neg hshort, ih _ (by omega), length_drop]
      by_cases hle : n ≤ input.length
      · have hsplit : n = min n blockSize + (n - min n blockSize) := by omega
        rw [if_pos (by omega), if_pos hle, append_assoc]
        conv_rhs => rw [hsplit, take_add]
      · rw [if_neg (by omega), if_neg hle]
  · obtain rfl : n = 0 := by omega
    simp

/-- The loop over the slices reads their data, or ends with an error. -/
theorem hashPiece_ok (target : TorrentInfo D H) (found : List FoundFile)
    {hashed result : List UInt8} : target.hashPiece found slices hashed = .ok result ↔
      ∃ data, piecesData target found slices = some data ∧ result = hashed ++ data := by
  induction slices generalizing hashed with
  | nil =>
    rw [TorrentInfo.hashPiece, piecesData]
    constructor
    · rintro h
      cases h
      exact ⟨[], rfl, (append_nil _).symm⟩
    · rintro ⟨_, hdata, rfl⟩
      cases hdata
      rw [append_nil]
  | cons slice slices ih =>
    have hread : ∀ input : List UInt8, target.openSlice found slice = .ok input →
        sliceData target found slice =
          if slice.size ≤ input.length then some (input.take slice.size) else none := by
      intro input hinput
      unfold TorrentInfo.openSlice at hinput
      unfold sliceData
      by_cases hpad : target.isPad slice.fileIndex = true
      · rw [if_pos hpad] at hinput ⊢
        cases hinput
        simp
      · rw [if_neg hpad] at hinput ⊢
        cases hfile : found[slice.fileIndex]? with
        | none =>
          rw [hfile] at hinput
          cases hinput
        | some file =>
          rw [hfile] at hinput
          cases hcontent : file.content with
          | none =>
            simp only [hcontent] at hinput
            cases hinput
          | some content =>
            simp only [hcontent] at hinput
            split_ifs at hinput with hopened
            cases hinput
            simp only [Option.bind_some, hcontent, hopened, true_and, length_drop]
    have hclosed : ∀ file, target.openSlice found slice = .error file →
        sliceData target found slice = none := by
      intro error herror
      unfold TorrentInfo.openSlice at herror
      unfold sliceData
      by_cases hpad : target.isPad slice.fileIndex = true
      · rw [if_pos hpad] at herror
        cases herror
      · rw [if_neg hpad] at herror ⊢
        cases hfile : found[slice.fileIndex]? with
        | none => rfl
        | some file =>
          rw [hfile] at herror
          cases hcontent : file.content with
          | none => simp [hcontent]
          | some content =>
            simp only [hcontent] at herror
            split_ifs at herror with hopened
            simp [hcontent, hopened]
    rw [TorrentInfo.hashPiece, piecesData]
    cases hopen : target.openSlice found slice with
    | error file =>
      rw [hclosed file hopen]
      exact ⟨fun h => (by cases h), fun ⟨_, h, _⟩ => (by cases h)⟩
    | ok input =>
      simp only [hread input hopen, hashSlice_eq]
      by_cases hle : slice.size ≤ input.length
      · rw [if_pos hle, if_pos hle]
        simp only [ih, Option.bind_some, Option.map_eq_some_iff]
        constructor
        · rintro ⟨data, hdata, rfl⟩
          exact ⟨_, ⟨data, hdata, rfl⟩, append_assoc _ _ _⟩
        · rintro ⟨_, ⟨data, hdata, rfl⟩, rfl⟩
          exact ⟨data, hdata, (append_assoc _ _ _).symm⟩
      · rw [if_neg hle, if_neg hle]
        exact ⟨fun h => (by cases h), fun ⟨_, h, _⟩ => (by cases h)⟩

section Scans

variable [DecidableEq H]

theorem analyzeV1Piece_spec (sha1 : List UInt8 → H) (target : TorrentInfo D H)
    (found : List FoundFile) (state : RepairAnalysis × (ℕ → Bool)) (piece : ℕ) :
    Scanned state.1 (analyzeV1Piece sha1 target found state piece).1 ∧
      ∀ p, (analyzeV1Piece sha1 target found state piece).2 p = true ↔
        state.2 p = true ∨ (p = piece ∧ PassesV1 sha1 target found p) := by
  obtain ⟨result, verified⟩ := state
  have hfold : ∀ (slices : List Slice) (r : RepairAnalysis), Scanned r
      (slices.foldl (fun result slice => if target.isPad slice.fileIndex then result
        else result.record slice.fileIndex [mismatchV1]) r) := by
    intro slices
    induction slices with
    | nil => exact Scanned.refl
    | cons slice slices ih =>
      intro r
      rw [foldl_cons]
      refine Scanned.trans ?_ (ih _)
      split_ifs
      · exact Scanned.refl r
      · exact scanned_record r _ _
  have hpasses : PassesV1 sha1 target found piece ↔ ∃ data,
      target.hashPiece found (target.mapBlock piece) [] = .ok data ∧
        sha1 data = target.hashForPiece piece := by
    simp only [PassesV1, hashPiece_ok, nil_append]
    exact ⟨fun ⟨data, h, heq⟩ => ⟨data, ⟨data, h, rfl⟩, heq⟩,
      fun ⟨_, ⟨data, h, rfl⟩, heq⟩ => ⟨data, h, heq⟩⟩
  have hnot : ∀ v : ℕ → Bool, ¬ PassesV1 sha1 target found piece →
      ∀ p, v p = true ↔ v p = true ∨ (p = piece ∧ PassesV1 sha1 target found p) := by
    intro v hpiece p
    refine ⟨Or.inl, fun h => h.resolve_right ?_⟩
    rintro ⟨rfl, hp⟩
    exact hpiece hp
  unfold analyzeV1Piece
  dsimp only
  cases hhash : target.hashPiece found (target.mapBlock piece) [] with
  | ok hashed =>
    dsimp only
    by_cases hmatch : sha1 hashed = target.hashForPiece piece
    · have hpiece := hpasses.mpr ⟨hashed, hhash, hmatch⟩
      rw [if_pos hmatch]
      refine ⟨Scanned.refl result, fun p => ?_⟩
      by_cases hp : p = piece
      · subst hp
        simp [hpiece]
      · show Function.update verified piece true p = true ↔ _
        rw [Function.update_of_ne hp]
        exact ⟨Or.inl, fun h => h.resolve_right fun h' => hp h'.1⟩
    · rw [if_neg hmatch]
      refine ⟨hfold _ result, hnot verified fun hpiece => ?_⟩
      obtain ⟨data, hdata, heq⟩ := hpasses.mp hpiece
      rw [hhash] at hdata
      cases hdata
      exact hmatch heq
  | error file =>
    have hpiece : ¬ PassesV1 sha1 target found piece := by
      intro hpiece
      obtain ⟨data, hdata, -⟩ := hpasses.mp hpiece
      rw [hhash] at hdata
      cases hdata
    cases file with
    | none => exact ⟨Scanned.refl result, hnot verified hpiece⟩
    | some file => exact ⟨scanned_record result file _, hnot verified hpiece⟩

/-- The v1 scan sets the bits of the pieces that pass it. -/
theorem analyzeV1_spec (sha1 : List UInt8 → H) (target : TorrentInfo D H) (found : List FoundFile)
    (result : RepairAnalysis) :
    Scanned result (analyzeV1 sha1 target found (result, fun _ => false)).1 ∧
      ∀ p < target.numPieces, (analyzeV1 sha1 target found (result, fun _ => false)).2 p = true ↔
        PassesV1 sha1 target found p := by
  have hrange : ∀ n, Scanned result ((List.range n).foldl (analyzeV1Piece sha1 target found)
      (result, fun _ => false)).1 ∧
      ∀ p, ((List.range n).foldl (analyzeV1Piece sha1 target found) (result, fun _ => false)).2 p =
        true ↔ p < n ∧ PassesV1 sha1 target found p := by
    intro n
    induction n with
    | zero => exact ⟨Scanned.refl result, fun p => by simp⟩
    | succ n ih =>
      rw [range_succ, foldl_append]
      obtain ⟨hscanned, hbits⟩ := analyzeV1Piece_spec sha1 target found
        ((List.range n).foldl (analyzeV1Piece sha1 target found) (result, fun _ => false)) n
      refine ⟨ih.1.trans hscanned, fun p => (hbits p).trans ?_⟩
      rw [ih.2 p]
      constructor
      · rintro (⟨hlt, hp⟩ | ⟨rfl, hp⟩)
        · exact ⟨by omega, hp⟩
        · exact ⟨by omega, hp⟩
      · rintro ⟨hlt, hp⟩
        by_cases hpn : p = n
        · exact .inr ⟨hpn, hp⟩
        · exact .inl ⟨by omega, hp⟩
  refine ⟨(hrange target.numPieces).1, fun p hp => ((hrange target.numPieces).2 p).trans ?_⟩
  exact ⟨fun h => h.2, fun h => ⟨hp, h⟩⟩

end Scans

/-! ### The v2 scan -/

section FileScan

variable [DecidableEq D] (h : D → D → D) (sha : List UInt8 → D) (zero : D)
  {f : V2File D} {content : List UInt8}

/-- A piece of a file is verified: by the file's root if the file has one piece or no piece layer, else
by its hash in an authentic piece layer. -/
def PieceVerified (blocksPerPiece : ℕ) (f : V2File D) (piece : ℕ) : Prop :=
  piece < f.numPieces blocksPerPiece ∧ f.pad = false ∧ f.opened = true ∧
    ∃ content, f.content = some content ∧
      if f.numPieces blocksPerPiece = 1 ∨ f.pieceLayer = [] then
        f.expectedSize ≤ content.length ∧
          (MerkleAccumulator.accumulate h zero
            (blockHashes sha (content.take f.expectedSize))).root h 1 zero = f.root
      else
        f.pieceLayer.length = f.numPieces blocksPerPiece ∧
          layerRoot h zero blocksPerPiece f.pieceLayer = f.root ∧
          min ((piece + 1) * pieceLength blocksPerPiece) f.expectedSize ≤ content.length ∧
          pieceHash h zero blocksPerPiece (blockHashes sha (content.take f.expectedSize)) piece =
            f.pieceLayer.getD piece zero

theorem le_of_mem_scanPieces {left : ℕ} {input : List UInt8} {s : FileScan}
    (hs : ∀ p ∈ s.verified, f.firstPiece ≤ p) :
    ∀ p ∈ (scanPieces h sha zero blocksPerPiece f left piece input s).verified, f.firstPiece ≤ p := by
  have hround : ∀ (c : Prop) [Decidable c] (s : FileScan) (first count : ℕ) (problem : Problem),
      (∀ p ∈ s.verified, f.firstPiece ≤ p) →
      ∀ p ∈ (if c then s.setBits (f.firstPiece + first) count
        else s.recordProblem problem).verified, f.firstPiece ≤ p := by
    intro c _ s first count problem hs
    split
    · intro p hp
      rw [FileScan.setBits_verified, mem_append] at hp
      rcases hp with hp | hp
      · exact hs p hp
      · obtain ⟨i, -, rfl⟩ := List.mem_map.mp hp
        omega
    · rwa [FileScan.recordProblem_verified]
  induction left generalizing piece input s with
  | zero => exact hs
  | succ left ih =>
    rw [scanPieces]
    dsimp only
    split
    · rwa [FileScan.recordProblem_verified]
    · exact ih (hround _ s _ _ _ hs)

variable {h sha zero} in
theorem scan_of_ready (hsize : f.expectedSize ≠ 0) (hready : f.pad = false ∧ f.opened = true)
    (hcontent : f.content = some content)
    (hlayer : f.wholeFile blocksPerPiece = true ∨ f.numPieces blocksPerPiece ≤ 1 ∨
      (f.pieceLayer.length = f.numPieces blocksPerPiece ∧
        layerRoot h zero blocksPerPiece f.pieceLayer = f.root)) :
    Merkle.analyzeV2 h sha zero blocksPerPiece f =
      scanPieces h sha zero blocksPerPiece f
        (if f.wholeFile blocksPerPiece then 1 else f.numPieces blocksPerPiece) 0 content
        ⟨[], [], f.wholeFile blocksPerPiece⟩ := by
  have hauthentic : ∀ problem : Prop, [Decidable problem] →
      (f.pieceLayer.length = f.numPieces blocksPerPiece ∧
        layerRoot h zero blocksPerPiece f.pieceLayer = f.root → ¬ problem) →
      (!f.wholeFile blocksPerPiece && decide (1 < f.numPieces blocksPerPiece) && decide problem) =
        false := by
    intro problem _ hnot
    rcases hlayer with hwhole | hone | hlayer
    · rw [hwhole]
      rfl
    · rw [decide_eq_false (by omega), Bool.and_false, Bool.false_and]
    · rw [decide_eq_false (hnot hlayer), Bool.and_false]
  simp only [Merkle.analyzeV2, hcontent, hready.1, hready.2, hsize,
    hauthentic _ fun hlayer => not_not.mpr hlayer.1, hauthentic _ fun hlayer => not_not.mpr hlayer.2]
  rfl

theorem mem_verified_root (hpos : 0 < blocksPerPiece) (hsize : f.expectedSize ≠ 0)
    (hready : f.pad = false ∧ f.opened = true) (hcontent : f.content = some content)
    (hmode : f.numPieces blocksPerPiece = 1 ∨ f.pieceLayer = []) (piece : ℕ) :
    f.firstPiece + piece ∈ (Merkle.analyzeV2 h sha zero blocksPerPiece f).verified ↔
      piece < f.numPieces blocksPerPiece ∧ f.expectedSize ≤ content.length ∧
        (MerkleAccumulator.accumulate h zero
          (blockHashes sha (content.take f.expectedSize))).root h 1 zero = f.root := by
  have hfirst : 0 < f.numPieces blocksPerPiece := by
    rw [lt_numPieces_iff hpos]
    omega
  have hlast := (lt_numPieces_iff (f := f) (p := 1) hpos).not
  -- A file of one piece is read as one piece, and a file without a layer as a whole.
  have hcount : (if f.wholeFile blocksPerPiece then 1 else f.numPieces blocksPerPiece) = 1 ∧
      (f.wholeFile blocksPerPiece || decide (f.numPieces blocksPerPiece = 1)) = true ∧
      (if f.wholeFile blocksPerPiece then f.expectedSize
        else min (pieceLength blocksPerPiece)
          (f.expectedSize - 0 * pieceLength blocksPerPiece)) = f.expectedSize ∧
      (if f.wholeFile blocksPerPiece then f.numPieces blocksPerPiece else 1) =
        f.numPieces blocksPerPiece ∧
      (f.wholeFile blocksPerPiece = true ∨ f.numPieces blocksPerPiece ≤ 1) := by
    by_cases hone : f.numPieces blocksPerPiece = 1
    · have hwhole : f.wholeFile blocksPerPiece = false := by
        simp [V2File.wholeFile, hone]
      rw [hone] at hlast
      simp only [hwhole, hone, Bool.false_eq_true, if_false, decide_true, Bool.false_or]
      refine ⟨trivial, trivial, ?_, trivial, .inr le_rfl⟩
      have hle := hlast.mp (lt_irrefl 1)
      omega
    · have hwhole : f.wholeFile blocksPerPiece = true := by
        simp [V2File.wholeFile, hmode.resolve_left hone]
        omega
      simp only [hwhole, if_true, Bool.true_or, true_or, and_self]
  obtain ⟨hcount, hroot, hread, hbits, hlayer⟩ := hcount
  rw [scan_of_ready hsize hready hcontent (by tauto), hcount, scanPieces]
  simp only [hroot, hread, hbits, hashBlocks_eq, if_true, scanPieces, Nat.add_zero]
  by_cases hle : f.expectedSize ≤ content.length
  · rw [if_pos hle]
    dsimp only
    show f.firstPiece + piece ∈ (if (MerkleAccumulator.accumulate h zero
      (blockHashes sha (content.take f.expectedSize))).root h 1 zero = f.root then _
        else _ : FileScan).verified ↔ _
    by_cases hmatch : (MerkleAccumulator.accumulate h zero
        (blockHashes sha (content.take f.expectedSize))).root h 1 zero = f.root
    · rw [if_pos hmatch, FileScan.setBits_verified, nil_append, List.mem_map]
      constructor
      · rintro ⟨i, hi, heq⟩
        obtain rfl : i = piece := by omega
        exact ⟨mem_range.mp hi, hle, hmatch⟩
      · exact fun h => ⟨piece, mem_range.mpr h.1, rfl⟩
    · rw [if_neg hmatch, FileScan.recordProblem_verified]
      exact iff_of_false not_mem_nil fun h => hmatch h.2.2
  · rw [if_neg hle]
    dsimp only
    rw [FileScan.recordProblem_verified]
    exact iff_of_false not_mem_nil fun h => hle h.2.1

theorem mem_verified_layer (hpos : 0 < blocksPerPiece) (hsize : f.expectedSize ≠ 0)
    (hready : f.pad = false ∧ f.opened = true) (hcontent : f.content = some content)
    (hmode : ¬ (f.numPieces blocksPerPiece = 1 ∨ f.pieceLayer = [])) (piece : ℕ) :
    f.firstPiece + piece ∈ (Merkle.analyzeV2 h sha zero blocksPerPiece f).verified ↔
      piece < f.numPieces blocksPerPiece ∧ f.pieceLayer.length = f.numPieces blocksPerPiece ∧
        layerRoot h zero blocksPerPiece f.pieceLayer = f.root ∧
        min ((piece + 1) * pieceLength blocksPerPiece) f.expectedSize ≤ content.length ∧
        pieceHash h zero blocksPerPiece (blockHashes sha (content.take f.expectedSize)) piece =
          f.pieceLayer.getD piece zero := by
  have hfirst : 0 < f.numPieces blocksPerPiece := by
    rw [lt_numPieces_iff hpos]
    omega
  obtain ⟨hone, hne⟩ := not_or.mp hmode
  have hmany : 1 < f.numPieces blocksPerPiece := by omega
  have hwhole := wholeFile_eq_false blocksPerPiece hne
  by_cases hlayer : f.pieceLayer.length = f.numPieces blocksPerPiece ∧
      layerRoot h zero blocksPerPiece f.pieceLayer = f.root
  · rw [scan_of_ready hsize hready hcontent (.inr (.inr hlayer)), hwhole]
    simp only [Bool.false_eq_true, if_false]
    rw [mem_verified_scanPieces h sha zero hpos hwhole hmany content piece _ 0 content _
      (Nat.zero_add _) (by simp)]
    constructor
    · rintro (hmem | ⟨-, hpiece, hle, hhash⟩)
      · exact absurd hmem not_mem_nil
      · exact ⟨hpiece, hlayer.1, hlayer.2, hle, hhash⟩
    · exact fun hall => .inr ⟨Nat.zero_le _, hall.1, hall.2.2.2⟩
  · have hnil : (Merkle.analyzeV2 h sha zero blocksPerPiece f).verified = [] := by
      simp only [Merkle.analyzeV2, hcontent, hready.1, hready.2, hsize, hwhole, hmany, decide_false,
        decide_true, Bool.or_false, Bool.false_eq_true, if_false, Bool.not_false, Bool.and_self,
        Bool.true_and, decide_eq_true_eq]
      by_cases hlength : f.pieceLayer.length = f.numPieces blocksPerPiece
      · rw [if_neg (not_not.mpr hlength), if_pos fun hroot => hlayer ⟨hlength, hroot⟩,
          FileScan.recordProblem_verified]
      · rw [if_pos hlength, FileScan.recordProblem_verified]
    rw [hnil]
    exact iff_of_false not_mem_nil fun hall => hlayer ⟨hall.2.1, hall.2.2.1⟩

/-- The bits that the scan of a file sets. -/
theorem mem_verified_analyzeV2 (hpos : 0 < blocksPerPiece) (piece : ℕ) :
    f.firstPiece + piece ∈ (Merkle.analyzeV2 h sha zero blocksPerPiece f).verified ↔
      PieceVerified h sha zero blocksPerPiece f piece := by
  unfold PieceVerified
  by_cases hsize : f.expectedSize = 0
  · have hnone : ¬ piece < f.numPieces blocksPerPiece := by
      rw [lt_numPieces_iff hpos, hsize]
      omega
    refine iff_of_false ?_ fun hall => hnone hall.1
    unfold Merkle.analyzeV2
    cases f.content <;> simp [hsize]
  cases hcontent : f.content with
  | none =>
    refine iff_of_false ?_ (by rintro ⟨-, -, -, _, hsome, -⟩; cases hsome)
    simp [Merkle.analyzeV2, hcontent]
  | some content =>
    by_cases hpad : f.pad = true
    · refine iff_of_false ?_ fun hall => (by rw [hpad] at hall; cases hall.2.1)
      simp [Merkle.analyzeV2, hcontent, hpad]
    by_cases hopened : f.opened = true
    case neg =>
      refine iff_of_false ?_ fun hall => hopened hall.2.2.1
      have hnil : (Merkle.analyzeV2 h sha zero blocksPerPiece f).verified = [] := by
        simp only [Merkle.analyzeV2, hcontent, Bool.eq_false_iff.mpr hpad, hsize,
          Bool.eq_false_iff.mpr hopened, decide_false, Bool.or_false, Bool.false_eq_true, if_false,
          Bool.not_false, if_true]
        split_ifs <;> rw [FileScan.recordProblem_verified]
      rw [hnil]
      exact not_mem_nil
    have hlast : f.expectedSize ≤ f.numPieces blocksPerPiece * pieceLength blocksPerPiece := by
      have hnot := (lt_numPieces_iff (f := f) (p := f.numPieces blocksPerPiece) hpos).not.mp
        (lt_irrefl _)
      omega
    have hready : f.pad = false ∧ f.opened = true := ⟨Bool.eq_false_iff.mpr hpad, hopened⟩
    by_cases hmode : f.numPieces blocksPerPiece = 1 ∨ f.pieceLayer = []
    · rw [mem_verified_root h sha zero hpos hsize hready hcontent hmode piece]
      constructor
      · rintro ⟨hpiece, hle, hroot⟩
        exact ⟨hpiece, hready.1, hready.2, content, rfl, by rw [if_pos hmode]; exact ⟨hle, hroot⟩⟩
      · rintro ⟨hpiece, -, -, c, hc, hverified⟩
        cases hc
        rw [if_pos hmode] at hverified
        exact ⟨hpiece, hverified⟩
    · rw [mem_verified_layer h sha zero hpos hsize hready hcontent hmode piece]
      constructor
      · rintro ⟨hpiece, hverified⟩
        exact ⟨hpiece, hready.1, hready.2, content, rfl, by rw [if_neg hmode]; exact hverified⟩
      · rintro ⟨hpiece, -, -, c, hc, hverified⟩
        cases hc
        rw [if_neg hmode] at hverified
        exact ⟨hpiece, hverified⟩

theorem le_of_mem_analyzeV2 {p : ℕ}
    (hp : p ∈ (Merkle.analyzeV2 h sha zero blocksPerPiece f).verified) : f.firstPiece ≤ p := by
  have hnone : ∀ q ∈ (⟨[], [], f.wholeFile blocksPerPiece⟩ : FileScan).verified, f.firstPiece ≤ q :=
    fun q hq => (not_mem_nil hq).elim
  unfold Merkle.analyzeV2 at hp
  dsimp only at hp
  split at hp
  · exact (not_mem_nil hp).elim
  · split at hp
    · exact (not_mem_nil hp).elim
    · split at hp
      · rw [FileScan.recordProblem_verified] at hp
        exact hnone p hp
      · split at hp
        · rw [FileScan.recordProblem_verified] at hp
          exact hnone p hp
        · split at hp
          · rw [FileScan.recordProblem_verified] at hp
            exact hnone p hp
          · exact le_of_mem_scanPieces h sha zero hnone p hp

/-- The piece is one of a file, and its hash in the file's tree is right. -/
def PassesV2 (target : TorrentInfo D H) (found : List FoundFile) (p : ℕ) : Prop :=
  ∃ entry ∈ target.files.zip found, ∃ piece, p = entry.1.firstPiece + piece ∧
    PieceVerified h sha zero target.blocksPerPiece (v2File entry.1 entry.2) piece

theorem analyzeV2_spec (hblocks : 0 < target.blocksPerPiece) (found : List FoundFile)
    (result : RepairAnalysis) :
    Scanned result (analyzeV2 h sha zero target found (result, fun _ => false)).1 ∧
      ∀ p, (analyzeV2 h sha zero target found (result, fun _ => false)).2 p = true ↔
        PassesV2 h sha zero target found p := by
  have hfold : ∀ (entries : List ((TorrentFile D × FoundFile) × ℕ))
      (state : RepairAnalysis × (ℕ → Bool)),
      Scanned state.1 (entries.foldl (analyzeV2File h sha zero target) state).1 ∧
        ∀ p, (entries.foldl (analyzeV2File h sha zero target) state).2 p = true ↔
          state.2 p = true ∨ ∃ entry ∈ entries.map Prod.fst,
            p ∈ (Merkle.analyzeV2 h sha zero target.blocksPerPiece
              (v2File entry.1 entry.2)).verified := by
    intro entries
    induction entries with
    | nil => exact fun state => ⟨Scanned.refl _, fun p => by simp⟩
    | cons entry entries ih =>
      intro state
      obtain ⟨hscanned, hbits⟩ := ih (analyzeV2File h sha zero target state entry)
      obtain ⟨hfiles, hbytes, hvalid, hunverified, herror⟩ := scanned_record state.1 entry.2
        ((Merkle.analyzeV2 h sha zero target.blocksPerPiece
          (v2File entry.1.1 entry.1.2)).problems.map Problem.text)
      have hfirst : Scanned state.1 (analyzeV2File h sha zero target state entry).1 :=
        ⟨hfiles, hbytes, hvalid, hunverified, herror⟩
      rw [foldl_cons]
      refine ⟨hfirst.trans hscanned, fun p => ?_⟩
      rw [hbits p, map_cons, exists_mem_cons_iff, ← or_assoc]
      simp only [analyzeV2File, Bool.or_eq_true, decide_eq_true_eq]
  obtain ⟨hscanned, hbits⟩ := hfold (target.files.zip found).zipIdx (result, fun _ => false)
  refine ⟨hscanned, fun p => (hbits p).trans ?_⟩
  rw [zipIdx_map_fst]
  constructor
  · rintro (hfalse | ⟨entry, hentry, hp⟩)
    · cases hfalse
    · have hle : entry.1.firstPiece ≤ p := le_of_mem_analyzeV2 h sha zero hp
      refine ⟨entry, hentry, p - entry.1.firstPiece, by omega, ?_⟩
      refine (mem_verified_analyzeV2 h sha zero hblocks _).mp ?_
      have hsum : (v2File entry.1 entry.2).firstPiece + (p - entry.1.firstPiece) = p := by
        show entry.1.firstPiece + _ = p
        omega
      rwa [hsum]
  · rintro ⟨entry, hentry, piece, rfl, hverified⟩
    exact .inr ⟨entry, hentry, (mem_verified_analyzeV2 h sha zero hblocks piece).mpr hverified⟩

end FileScan

/-! ### Sums -/

/-- The reports are those of the files that are not padding, and their bytes are counted. -/
structure Counted (target : TorrentInfo D H) (result : RepairAnalysis) : Prop where
  notPad : ∀ file ∈ result.files, target.isPad file.nativeIndex = false
  nodup : (result.files.map FileAnalysis.nativeIndex).Nodup
  cover : ∀ index < target.files.length, target.isPad index = false →
    index ∈ result.files.map FileAnalysis.nativeIndex
  total : result.verifiedBytes = (result.files.map FileAnalysis.verifiedBytes).sum

theorem nativeIndex_credit (amount : ℕ → ℕ) (files : List FileAnalysis) :
    (credit amount files).map FileAnalysis.nativeIndex = files.map FileAnalysis.nativeIndex := by
  simp [credit]

/-- Bytes of one file are added once. -/
theorem sum_credit_single (size : ℕ) (hnodup : (files.map FileAnalysis.nativeIndex).Nodup)
    (hmem : index ∈ files.map FileAnalysis.nativeIndex) :
    ((credit (fun i => if i = index then size else 0) files).map FileAnalysis.verifiedBytes).sum =
      (files.map FileAnalysis.verifiedBytes).sum + size := by
  induction files with
  | nil => cases hmem
  | cons file files ih =>
    rw [map_cons, nodup_cons] at hnodup
    simp only [credit, map_cons, sum_cons] at ih ⊢
    by_cases heq : file.nativeIndex = index
    · have hrest : credit (fun i => if i = index then size else 0) files = files := by
        refine (credit_congr fun file' hfile' => ?_).trans (credit_zero files)
        refine if_neg fun heq' => hnodup.1 ?_
        exact List.mem_map.mpr ⟨file', hfile', heq'.trans heq.symm⟩
      have hmap := congrArg (fun l => (List.map FileAnalysis.verifiedBytes l).sum) hrest
      simp only [credit] at hmap
      rw [if_pos heq, hmap]
      omega
    · rw [map_cons, mem_cons] at hmem
      rw [if_neg heq, ih hnodup.2 (hmem.resolve_left fun h => heq h.symm)]
      omega

theorem Counted.credited (h : Counted target result) (amount : ℕ → ℕ)
    (hfiles : result'.files = credit amount result.files)
    (htotal : result'.verifiedBytes = (result'.files.map FileAnalysis.verifiedBytes).sum) :
    Counted target result' := by
  constructor
  case notPad =>
    rw [hfiles]
    intro file hfile
    obtain ⟨file', hfile', rfl⟩ := List.mem_map.mp hfile
    exact h.notPad file' hfile'
  case nodup =>
    rw [hfiles, nativeIndex_credit]
    exact h.nodup
  case cover =>
    rw [hfiles, nativeIndex_credit]
    exact h.cover
  case total => exact htotal

theorem Counted.addSlice (h : Counted target result) {slice : Slice}
    (hslice : slice.fileIndex < target.files.length) :
    Counted target (addSlice target result slice) ∧
      (Repair.addSlice target result slice).files = credit (bytesOf [slice]) result.files := by
  have hbytes : ∀ index, bytesOf [slice] index = if index = slice.fileIndex then slice.size else 0 := by
    intro index
    by_cases heq : index = slice.fileIndex
    · simp [bytesOf, slicesOf, heq]
    · have hne : ¬ slice.fileIndex = index := fun h' => heq h'.symm
      simp [bytesOf, slicesOf, heq, hne]
  have hcredit : (Repair.addSlice target result slice).files = credit (bytesOf [slice]) result.files := by
    by_cases hpad : target.isPad slice.fileIndex = true
    · rw [Repair.addSlice, if_pos hpad]
      refine ((credit_congr fun file hfile => ?_).trans (credit_zero _)).symm
      rw [hbytes, if_neg]
      intro heq
      have hfalse := h.notPad file hfile
      rw [heq, hpad] at hfalse
      cases hfalse
    · rw [Repair.addSlice, if_neg hpad]
      dsimp only
      rw [modifyReport_add]
      exact credit_congr fun file _ => (hbytes _).symm
  refine ⟨h.credited _ hcredit ?_, hcredit⟩
  by_cases hpad : target.isPad slice.fileIndex = true
  · rw [Repair.addSlice, if_pos hpad]
    exact h.total
  · rw [Repair.addSlice, if_neg hpad]
    dsimp only
    rw [modifyReport_add, sum_credit_single slice.size h.nodup
      (h.cover _ hslice (Bool.eq_false_iff.mpr hpad)), h.total]

theorem Counted.addSlices (h : Counted target result)
    (hslices : ∀ slice ∈ slices, slice.fileIndex < target.files.length) :
    Counted target (slices.foldl (Repair.addSlice target) result) ∧
      (slices.foldl (Repair.addSlice target) result).files = credit (bytesOf slices) result.files ∧
      (slices.foldl (Repair.addSlice target) result).validPieces = result.validPieces ∧
      (slices.foldl (Repair.addSlice target) result).unverifiedPieces = result.unverifiedPieces := by
  induction slices generalizing result with
  | nil => exact ⟨h, (credit_zero _).symm, rfl, rfl⟩
  | cons slice slices ih =>
    obtain ⟨hcounted, hfiles⟩ := h.addSlice (hslices slice mem_cons_self)
    obtain ⟨hrest, hfiles', hvalid, hunverified⟩ := ih hcounted fun slice' hmem =>
      hslices slice' (mem_cons_of_mem slice hmem)
    have hpieces : (Repair.addSlice target result slice).validPieces = result.validPieces ∧
        (Repair.addSlice target result slice).unverifiedPieces = result.unverifiedPieces := by
      unfold Repair.addSlice
      split_ifs <;> exact ⟨rfl, rfl⟩
    rw [foldl_cons]
    refine ⟨hrest, ?_, hvalid.trans hpieces.1, hunverified.trans hpieces.2⟩
    rw [hfiles', hfiles, credit_credit]
    refine credit_congr fun file _ => ?_
    rw [← bytesOf_append]
    rfl

/-- The last loop, over the first pieces. -/
theorem Counted.countPieces (h : Counted target result) (ht : Tiled target) (verified : ℕ → Bool)
    (hn : n ≤ target.numPieces) :
    Counted target ((List.range n).foldl (countPiece target verified) result) ∧
      ((List.range n).foldl (countPiece target verified) result).files =
        credit (fun index => ∑ piece ∈ Finset.range n,
          if verified piece = true then bytesOf (target.mapBlock piece) index else 0) result.files ∧
      ((List.range n).foldl (countPiece target verified) result).validPieces +
          ((List.range n).foldl (countPiece target verified) result).unverifiedPieces =
        result.validPieces + result.unverifiedPieces + n := by
  induction n with
  | zero => exact ⟨h, (credit_zero _).symm, rfl⟩
  | succ n ih =>
    obtain ⟨hcounted, hfiles, hpieces⟩ := ih (by omega)
    rw [range_succ, foldl_append, foldl_cons, foldl_nil]
    set state := (List.range n).foldl (countPiece target verified) result
    by_cases hverified : verified n = true
    · have hsame : Counted target { state with validPieces := state.validPieces + 1 } :=
        { hcounted with }
      obtain ⟨hnext, hfiles', hvalid, hunverified⟩ := hsame.addSlices (ht.indexed n (by omega))
      rw [countPiece, if_pos hverified]
      refine ⟨hnext, ?_, ?_⟩
      · rw [hfiles']
        dsimp only
        rw [hfiles, credit_credit]
        refine credit_congr fun file _ => ?_
        rw [Finset.sum_range_succ, if_pos hverified]
      · rw [hvalid, hunverified]
        dsimp only
        omega
    · rw [countPiece, if_neg hverified]
      refine ⟨{ hcounted with }, ?_, ?_⟩
      · dsimp only
        rw [hfiles]
        refine credit_congr fun file _ => ?_
        rw [Finset.sum_range_succ, if_neg hverified, Nat.add_zero]
      · dsimp only
        omega

/-- The files that a report may be about. -/
theorem mem_entries {entry : (TorrentFile D × FoundFile) × ℕ}
    (h : entry ∈ (target.files.zip found).zipIdx) : target.files[entry.2]? = some entry.1.1 := by
  have hget := mk_mem_zipIdx_iff_getElem?.mp h
  exact (List.getElem?_zip_eq_some.mp hget).1

theorem initialAnalysis_counted (target : TorrentInfo D H)
    (hlength : target.files.length = found.length) :
    Counted target (initialAnalysis target found) ∧
      ∀ report ∈ (initialAnalysis target found).files, report.verifiedBytes = 0 ∧
        ∃ file, target.files[report.nativeIndex]? = some file ∧ file.pad = false ∧
          report.expectedSize = file.size := by
  have hreports : ∀ report ∈ (initialAnalysis target found).files, report.verifiedBytes = 0 ∧
      ∃ file, target.files[report.nativeIndex]? = some file ∧ file.pad = false ∧
        report.expectedSize = file.size := by
    intro report hreport
    obtain ⟨entry, hentry, rfl⟩ := List.mem_map.mp hreport
    obtain ⟨hmem, hpad⟩ := List.mem_filter.mp hentry
    exact ⟨rfl, entry.1.1, mem_entries hmem, (Bool.not_eq_true' _).mp hpad, rfl⟩
  refine ⟨⟨fun report hreport => ?_, ?_, fun index hindex hpad => ?_, ?_⟩, hreports⟩
  · obtain ⟨-, file, hfile, hpad, -⟩ := hreports report hreport
    rw [TorrentInfo.isPad, hfile, Option.any_some, hpad]
  · have hindexes : (initialAnalysis target found).files.map FileAnalysis.nativeIndex =
        ((target.files.zip found).zipIdx.filter fun entry => !entry.1.1.pad).map Prod.snd := by
      simp only [initialAnalysis, map_map]
      rfl
    rw [hindexes]
    refine List.Nodup.sublist (filter_sublist.map Prod.snd) ?_
    rw [zipIdx_map_snd]
    exact nodup_range'
  · have hfound : index < found.length := hlength ▸ hindex
    have hmem : ((target.files[index], found[index]), index) ∈ (target.files.zip found).zipIdx := by
      rw [mk_mem_zipIdx_iff_getElem?, List.getElem?_zip_eq_some]
      exact ⟨List.getElem?_eq_getElem hindex, List.getElem?_eq_getElem hfound⟩
    rw [TorrentInfo.isPad, List.getElem?_eq_getElem hindex, Option.any_some] at hpad
    refine List.mem_map.mpr ⟨fileReport ((target.files[index], found[index]), index), ?_, rfl⟩
    exact mem_map_of_mem (List.mem_filter.mpr ⟨hmem, by rw [hpad]; rfl⟩)
  · refine (sum_eq_zero fun bytes hbytes => ?_).symm
    obtain ⟨report, hreport, rfl⟩ := List.mem_map.mp hbytes
    exact (hreports report hreport).1

theorem Scanned.mem (h : Scanned result result') {report : FileAnalysis}
    (hreport : report ∈ result'.files) : ∃ report' ∈ result.files, core report' = core report := by
  have hmem : core report ∈ result.files.map core := h.files ▸ mem_map_of_mem hreport
  exact List.mem_map.mp hmem

theorem Scanned.counted (h : Scanned result result') (hcounted : Counted target result) :
    Counted target result' := by
  have hindexes : result'.files.map FileAnalysis.nativeIndex =
      result.files.map FileAnalysis.nativeIndex := by
    have hmap := congrArg (List.map fun c : ℕ × ℕ × ℕ => c.1) h.files
    rw [map_map, map_map] at hmap
    exact hmap
  have hbytes : result'.files.map FileAnalysis.verifiedBytes =
      result.files.map FileAnalysis.verifiedBytes := by
    have hmap := congrArg (List.map fun c : ℕ × ℕ × ℕ => c.2.2) h.files
    rw [map_map, map_map] at hmap
    exact hmap
  constructor
  case notPad =>
    intro report hreport
    obtain ⟨report', hreport', hcore⟩ := h.mem hreport
    have hindex : report'.nativeIndex = report.nativeIndex := congrArg Prod.fst hcore
    rw [← hindex]
    exact hcounted.notPad report' hreport'
  case nodup => exact hindexes ▸ hcounted.nodup
  case cover => exact hindexes ▸ hcounted.cover
  case total => rw [h.verifiedBytes, hbytes, hcounted.total]

/-! ### The analysis -/

/-- A file has bytes in a piece. -/
def OverlapsPiece (target : TorrentInfo D H) (index piece : ℕ) : Prop :=
  ∃ slice ∈ target.mapBlock piece, slice.fileIndex = index ∧ 0 < slice.size

theorem bytesOf_eq_zero_iff :
    bytesOf (target.mapBlock piece) index = 0 ↔ ¬ OverlapsPiece target index piece := by
  simp only [bytesOf, slicesOf, List.sum_eq_zero_iff_forall_eq_nat, List.mem_map, List.mem_filter,
    decide_eq_true_eq, OverlapsPiece, not_exists, not_and, not_lt, Nat.le_zero]
  constructor
  · exact fun h slice hmem hindex => h _ ⟨slice, ⟨hmem, hindex⟩, rfl⟩
  · rintro h _ ⟨slice, ⟨hmem, hindex⟩, rfl⟩
    exact h slice hmem hindex

/-- Some of the parts of a file are all of it if and only if the parts left out are empty. -/
theorem sum_valid_eq_iff {bytes : ℕ → ℕ} {valid : ℕ → Prop} [DecidablePred valid] :
    (∑ p ∈ Finset.range n, if valid p then bytes p else 0) = ∑ p ∈ Finset.range n, bytes p ↔
      ∀ p < n, bytes p ≠ 0 → valid p := by
  have hle : ∀ p ∈ Finset.range n, (if valid p then bytes p else 0) ≤ bytes p := by
    intro p _
    split_ifs
    · exact le_rfl
    · exact Nat.zero_le _
  rw [Finset.sum_eq_sum_iff_of_le hle]
  simp only [Finset.mem_range]
  refine forall₂_congr fun p _ => ?_
  by_cases hp : valid p
  · simp [hp]
  · simp only [hp, imp_false, not_not]
    exact eq_comm

section Analysis

variable [DecidableEq H] [DecidableEq D] (h : D → D → D) (sha : List UInt8 → D) (zero : D)
  (sha1 : List UInt8 → H)

/-- A piece passes the scan of every kind of hashes that the torrent has. -/
def ValidPiece (target : TorrentInfo D H) (found : List FoundFile) (piece : ℕ) : Prop :=
  (target.v1 = true → PassesV1 sha1 target found piece) ∧
    (target.v2 = true → PassesV2 h sha zero target found piece)

/-- The analysis is the last loop over reports that the scans have left counted. -/
theorem analyzeRepairData_eq (ht : Tiled target)
    (hcompleted : (analyzeRepairData h sha zero sha1 target found).error = "") :
    ∃ (result : RepairAnalysis) (verified : ℕ → Bool),
      target.files.length = found.length ∧ Scanned (initialAnalysis target found) result ∧
      (∀ p < target.numPieces, verified p = true ↔ ValidPiece h sha zero sha1 target found p) ∧
      analyzeRepairData h sha zero sha1 target found =
        (List.range target.numPieces).foldl (countPiece target verified) result := by
  by_cases hinvalid : (!target.isValid || decide (target.files.length ≠ found.length)) = true
  · rw [analyzeRepairData, if_pos hinvalid] at hcompleted
    exact absurd hcompleted (by decide)
  have hlength : target.files.length = found.length := by
    simp only [Bool.or_eq_true, decide_eq_true_eq, not_or, not_not] at hinvalid
    exact hinvalid.2
  have hv1 : ∀ result, ∃ state : RepairAnalysis × (ℕ → Bool),
      (if target.v1 then analyzeV1 sha1 target found (result, fun _ => false)
        else (result, fun _ => true)) = state ∧ Scanned result state.1 ∧
      ∀ p < target.numPieces, state.2 p = true ↔
        (target.v1 = true → PassesV1 sha1 target found p) := by
    intro result
    by_cases hv : target.v1 = true
    · obtain ⟨hscanned, hbits⟩ := analyzeV1_spec sha1 target found result
      refine ⟨_, if_pos hv, hscanned, fun p hp => (hbits p hp).trans ?_⟩
      exact ⟨fun hpasses _ => hpasses, fun hpasses => hpasses hv⟩
    · exact ⟨_, if_neg hv, Scanned.refl result, fun p _ => ⟨fun _ hv' => absurd hv' hv, fun _ => rfl⟩⟩
  have hv2 : ∀ result, ∃ state : RepairAnalysis × (ℕ → Bool),
      (if target.v2 then analyzeV2 h sha zero target found (result, fun _ => false)
        else (result, fun _ => true)) = state ∧ Scanned result state.1 ∧
      ∀ p, state.2 p = true ↔ (target.v2 = true → PassesV2 h sha zero target found p) := by
    intro result
    by_cases hv : target.v2 = true
    · obtain ⟨hscanned, hbits⟩ := analyzeV2_spec h sha zero ht.blocks found result
      refine ⟨_, if_pos hv, hscanned, fun p => (hbits p).trans ?_⟩
      exact ⟨fun hpasses _ => hpasses, fun hpasses => hpasses hv⟩
    · exact ⟨_, if_neg hv, Scanned.refl result, fun p => ⟨fun _ hv' => absurd hv' hv, fun _ => rfl⟩⟩
  obtain ⟨state1, hstate1, hscanned1, hbits1⟩ := hv1 (initialAnalysis target found)
  obtain ⟨state2, hstate2, hscanned2, hbits2⟩ := hv2 state1.1
  refine ⟨state2.1, fun piece => state1.2 piece && state2.2 piece, hlength,
    hscanned1.trans hscanned2, fun p hp => ?_, ?_⟩
  · rw [Bool.and_eq_true, hbits1 p hp, hbits2 p]
    rfl
  · rw [analyzeRepairData, if_neg hinvalid]
    dsimp only
    rw [hstate1, hstate2]

open Classical in
/-- A completed analysis counts every piece once and every byte of a valid piece once.  The bytes of a
file are those of its slices in valid pieces, at most all of them, and all of them if and only if every
piece that overlaps the file is valid. -/
theorem analysis_accounts {target : TorrentInfo D H} (ht : Tiled target) {found : List FoundFile}
    (hcompleted : (analyzeRepairData h sha zero sha1 target found).error = "") :
    let result := analyzeRepairData h sha zero sha1 target found
    result.validPieces + result.unverifiedPieces = target.numPieces ∧
    result.verifiedBytes = (result.files.map FileAnalysis.verifiedBytes).sum ∧
    (result.files.map FileAnalysis.nativeIndex).Nodup ∧
    (∀ index file, target.files[index]? = some file → file.pad = false →
      index ∈ result.files.map FileAnalysis.nativeIndex) ∧
    ∀ report ∈ result.files, ∃ file, target.files[report.nativeIndex]? = some file ∧
      file.pad = false ∧ report.expectedSize = file.size ∧
      report.verifiedBytes ≤ report.expectedSize ∧
      report.verifiedBytes = (∑ piece ∈ Finset.range target.numPieces,
        if ValidPiece h sha zero sha1 target found piece then
          bytesOf (target.mapBlock piece) report.nativeIndex else 0) ∧
      (report.verifiedBytes = report.expectedSize ↔ ∀ piece < target.numPieces,
        OverlapsPiece target report.nativeIndex piece →
          ValidPiece h sha zero sha1 target found piece) := by
  obtain ⟨result, verified, hlength, hscanned, hverified, heq⟩ :=
    analyzeRepairData_eq h sha zero sha1 ht hcompleted
  obtain ⟨hinitial, hreports⟩ := initialAnalysis_counted target hlength
  obtain ⟨hcounted, hfiles, hpieces⟩ :=
    (hscanned.counted hinitial).countPieces ht verified (le_refl target.numPieces)
  rw [heq]
  refine ⟨?_, hcounted.total, hcounted.nodup, fun index file hfile hpad => ?_, fun report hreport => ?_⟩
  · rw [hpieces, hscanned.validPieces, hscanned.unverifiedPieces]
    exact Nat.zero_add _
  · obtain ⟨hindex, -⟩ := List.getElem?_eq_some_iff.mp hfile
    refine hcounted.cover index hindex ?_
    rw [TorrentInfo.isPad, hfile, Option.any_some, hpad]
  · rw [hfiles] at hreport
    obtain ⟨scanned, hmem, rfl⟩ := List.mem_map.mp hreport
    obtain ⟨original, horiginal, hcore⟩ := hscanned.mem hmem
    obtain ⟨hzero, file, hfile, hpad, hsize⟩ := hreports original horiginal
    simp only [core, Prod.mk.injEq] at hcore
    obtain ⟨hindex, hexpected, hbytes⟩ := hcore
    rw [hindex] at hfile
    have hsum : (∑ piece ∈ Finset.range target.numPieces, if verified piece = true then
          bytesOf (target.mapBlock piece) scanned.nativeIndex else 0) =
        ∑ piece ∈ Finset.range target.numPieces,
          if ValidPiece h sha zero sha1 target found piece then
            bytesOf (target.mapBlock piece) scanned.nativeIndex else 0 := by
      refine Finset.sum_congr rfl fun piece hpiece => ?_
      exact if_congr (hverified piece (Finset.mem_range.mp hpiece)) rfl rfl
    have htile := ht.size_eq hfile
    have hall := @sum_valid_eq_iff target.numPieces
      (fun piece => bytesOf (target.mapBlock piece) scanned.nativeIndex)
      (ValidPiece h sha zero sha1 target found) _
    have hexpected' : scanned.expectedSize = file.size := by rw [← hexpected, hsize]
    have hverifiedBytes : scanned.verifiedBytes = 0 := by rw [← hbytes, hzero]
    refine ⟨file, hfile, hpad, hexpected', ?_, ?_, ?_⟩
    · dsimp only
      rw [hverifiedBytes, Nat.zero_add, hexpected', htile]
      refine Finset.sum_le_sum fun piece _ => ?_
      split_ifs
      · exact le_rfl
      · exact Nat.zero_le _
    · dsimp only
      rw [hverifiedBytes, Nat.zero_add, hsum]
    · dsimp only
      rw [hverifiedBytes, Nat.zero_add, hexpected', htile, hsum, hall]
      refine forall₂_congr fun piece _ => ?_
      rw [ne_eq, bytesOf_eq_zero_iff, not_not]

end Analysis

/-! ### A torrent with two files and padding -/

/-- Pieces of four bytes; the first has a file and padding, the second a file. -/
def sampleTarget : TorrentInfo ℕ ℕ where
  isValid := true
  files :=
    [{ pad := false, size := 3, root := 0, pieceLayer := [], firstPiece := 0 },
      { pad := true, size := 1, root := 0, pieceLayer := [], firstPiece := 0 },
      { pad := false, size := 4, root := 0, pieceLayer := [], firstPiece := 1 }]
  numPieces := 2
  blocksPerPiece := 1
  mapBlock
    | 0 => [⟨0, 0, 3⟩, ⟨1, 0, 1⟩]
    | _ => [⟨2, 0, 4⟩]
  v1 := true
  v2 := false
  hashForPiece _ := 4

/-- The first file is complete, and the last one is missing. -/
def sampleFound : List FoundFile :=
  [{ path := "a", content := some [1, 2, 3], opened := true },
    { path := "", content := none, opened := false },
    { path := "b", content := none, opened := false }]

theorem tiled_sampleTarget : Tiled sampleTarget := by
  constructor
  case blocks => exact Nat.one_pos
  case indexed => decide
  case consecutive =>
    intro index file hfile
    match index, hfile with
    | 0, rfl => exact ⟨rfl, rfl⟩
    | 1, rfl => exact ⟨rfl, rfl⟩
    | 2, rfl => exact ⟨rfl, rfl⟩
    | _ + 3, hfile => cases hfile

theorem analysis_accounts_sample :
    (analyzeRepairData (fun a b => a + b) List.length 0 List.length sampleTarget sampleFound).validPieces +
      (analyzeRepairData (fun a b => a + b) List.length 0 List.length sampleTarget
        sampleFound).unverifiedPieces = 2 := by
  have hcompleted : (analyzeRepairData (fun a b => a + b) List.length 0 List.length sampleTarget
      sampleFound).error = "" := by
    decide +kernel
  exact (analysis_accounts _ _ _ _ tiled_sampleTarget hcompleted).1

end Qbutt.Repair
