import Qbutt.Merkle.AnalyzeV2

/-!
# The analysis of repair data

`analyzeRepairData`: a scan by v1 pieces, a scan by the v2 hashes of each file, and the sums over the
pieces that pass both.  `sha` is the SHA-256 of a block, `sha1` the hash of a v1 piece.  Cancellation
is left out: a cancelled analysis has an error and no sums.  A report is found by the native index of
its file, as `fileReports` finds it.
-/

namespace Qbutt.Repair

open Merkle

variable {D H : Type}

/-- `lt::file_slice`. -/
structure Slice where
  fileIndex : ℕ
  offset : ℕ
  size : ℕ

structure TorrentFile (D : Type) where
  pad : Bool
  size : ℕ
  root : D
  pieceLayer : List D
  firstPiece : ℕ

/-- What is used of `lt::torrent_info`; `mapBlock` is `map_block` of a whole piece. -/
structure TorrentInfo (D H : Type) where
  isValid : Bool
  files : List (TorrentFile D)
  numPieces : ℕ
  blocksPerPiece : ℕ
  mapBlock : ℕ → List Slice
  v1 : Bool
  v2 : Bool
  hashForPiece : ℕ → H

/-- What is found at the mapped path of a file: no content if there is no readable file, and whether it
can be opened. -/
structure FoundFile where
  path : String
  content : Option (List UInt8)
  opened : Bool

structure FileAnalysis where
  nativeIndex : ℕ
  path : String
  expectedSize : ℕ
  actualSize : Option ℕ
  verifiedBytes : ℕ
  problems : List String

structure RepairAnalysis where
  files : List FileAnalysis := []
  expectedBytes : ℕ := 0
  verifiedBytes : ℕ := 0
  validPieces : ℕ := 0
  unverifiedPieces : ℕ := 0
  wholeFileV2Verification : Bool := false
  error : String := ""

def FileAnalysis.recordProblem (file : FileAnalysis) (problem : String) : FileAnalysis :=
  if problem ∈ file.problems then file else { file with problems := file.problems ++ [problem] }

def modifyReport (files : List FileAnalysis) (index : ℕ) (change : FileAnalysis → FileAnalysis) :
    List FileAnalysis :=
  files.map fun file => if file.nativeIndex = index then change file else file

def RepairAnalysis.record (result : RepairAnalysis) (index : ℕ) (problems : List String) :
    RepairAnalysis :=
  { result with
    files := modifyReport result.files index fun file => problems.foldl FileAnalysis.recordProblem file }

/-! ### v1 pieces -/

def cannotRead : String := "Cannot read the required file data."

def mismatchV1 : String := "A v1 piece covering this file does not match its expected hash."

/-- The loop over the blocks of a slice: the bytes that were hashed, unless a read comes back short. -/
def hashSlice (remaining : ℕ) (input hashed : List UInt8) : Option (List UInt8) :=
  if 0 < remaining then
    let size := min remaining blockSize
    if input.length < size then none
    else hashSlice (remaining - size) (input.drop size) (hashed ++ input.take size)
  else some hashed
  termination_by remaining
  decreasing_by
    have := blockSize_pos
    omega

/-- Whether a file is padding. -/
def TorrentInfo.isPad (target : TorrentInfo D H) (index : ℕ) : Bool :=
  (target.files[index]?).any TorrentFile.pad

/-- What a slice is read from: zeros for padding, nothing for a missing file, and an error if the file
cannot be opened. -/
def TorrentInfo.openSlice (target : TorrentInfo D H) (found : List FoundFile) (slice : Slice) :
    Except (Option ℕ) (List UInt8) :=
  if target.isPad slice.fileIndex then .ok (List.replicate slice.size 0)
  else
    match found[slice.fileIndex]? with
    | none => .error none
    | some file =>
      match file.content with
      | none => .error none
      | some content =>
        if file.opened then .ok (content.drop slice.offset) else .error (some slice.fileIndex)

/-- The loop over the slices of a piece: what was hashed, or the file whose data cannot be read
(`none` for one that is missing). -/
def TorrentInfo.hashPiece (target : TorrentInfo D H) (found : List FoundFile) :
    List Slice → List UInt8 → Except (Option ℕ) (List UInt8)
  | [], hashed => .ok hashed
  | slice :: slices, hashed =>
    match target.openSlice found slice with
    | .error file => .error file
    | .ok input =>
      match hashSlice slice.size input hashed with
      | none => .error (some slice.fileIndex)
      | some hashed => target.hashPiece found slices hashed

variable [DecidableEq H] [DecidableEq D]

/-- One round of `analyzeV1`, with the bits that are set. -/
def analyzeV1Piece (sha1 : List UInt8 → H) (target : TorrentInfo D H) (found : List FoundFile)
    (state : RepairAnalysis × (ℕ → Bool)) (piece : ℕ) : RepairAnalysis × (ℕ → Bool) :=
  let (result, verified) := state
  match target.hashPiece found (target.mapBlock piece) [] with
  | .ok hashed =>
    if sha1 hashed = target.hashForPiece piece then (result, Function.update verified piece true)
    else
      ((target.mapBlock piece).foldl (fun result slice =>
        if target.isPad slice.fileIndex then result else result.record slice.fileIndex [mismatchV1])
        result, verified)
  | .error none => (result, verified)
  | .error (some file) => (result.record file [cannotRead], verified)

def analyzeV1 (sha1 : List UInt8 → H) (target : TorrentInfo D H) (found : List FoundFile)
    (state : RepairAnalysis × (ℕ → Bool)) : RepairAnalysis × (ℕ → Bool) :=
  (List.range target.numPieces).foldl (analyzeV1Piece sha1 target found) state

/-! ### v2 files -/

/-- A file as the v2 scan reads it. -/
def v2File (file : TorrentFile D) (found : FoundFile) : V2File D where
  pad := file.pad
  expectedSize := file.size
  root := file.root
  pieceLayer := file.pieceLayer
  firstPiece := file.firstPiece
  content := found.content
  opened := found.opened

section Scan

variable (h : D → D → D) (sha : List UInt8 → D) (zero : D)

/-- One round of `analyzeV2`. -/
def analyzeV2File (target : TorrentInfo D H) (state : RepairAnalysis × (ℕ → Bool))
    (entry : (TorrentFile D × FoundFile) × ℕ) : RepairAnalysis × (ℕ → Bool) :=
  let (result, verified) := state
  let scan := Merkle.analyzeV2 h sha zero target.blocksPerPiece (v2File entry.1.1 entry.1.2)
  ({ result.record entry.2 (scan.problems.map Problem.text) with
      wholeFileV2Verification := result.wholeFileV2Verification || scan.wholeFileV2Verification },
    fun piece => verified piece || decide (piece ∈ scan.verified))

def analyzeV2 (target : TorrentInfo D H) (found : List FoundFile)
    (state : RepairAnalysis × (ℕ → Bool)) : RepairAnalysis × (ℕ → Bool) :=
  (target.files.zip found).zipIdx.foldl (analyzeV2File h sha zero target) state

/-! ### Sums -/

def fileReport (entry : (TorrentFile D × FoundFile) × ℕ) : FileAnalysis where
  nativeIndex := entry.2
  path := entry.1.2.path
  expectedSize := entry.1.1.size
  actualSize := entry.1.2.content.map List.length
  verifiedBytes := 0
  problems :=
    match entry.1.2.content with
    | none => ["File is missing."]
    | some content =>
      if content.length = entry.1.1.size then []
      else
        ["File size is " ++ toString content.length ++ " bytes; expected exactly " ++
          toString entry.1.1.size ++ " bytes."]

/-- The loop over the files: reports for those that are not padding. -/
def initialAnalysis (target : TorrentInfo D H) (found : List FoundFile) : RepairAnalysis :=
  let files := ((target.files.zip found).zipIdx.filter fun entry => !entry.1.1.pad).map fileReport
  { files := files, expectedBytes := (files.map FileAnalysis.expectedSize).sum }

def addSlice (target : TorrentInfo D H) (result : RepairAnalysis) (slice : Slice) : RepairAnalysis :=
  if target.isPad slice.fileIndex then result
  else
    { result with
      files := modifyReport result.files slice.fileIndex fun file =>
        { file with verifiedBytes := file.verifiedBytes + slice.size }
      verifiedBytes := result.verifiedBytes + slice.size }

/-- One round of the last loop. -/
def countPiece (target : TorrentInfo D H) (verified : ℕ → Bool) (result : RepairAnalysis)
    (piece : ℕ) : RepairAnalysis :=
  if verified piece then
    (target.mapBlock piece).foldl (addSlice target) { result with validPieces := result.validPieces + 1 }
  else { result with unverifiedPieces := result.unverifiedPieces + 1 }

def analyzeRepairData (sha1 : List UInt8 → H) (target : TorrentInfo D H) (found : List FoundFile) :
    RepairAnalysis :=
  if !target.isValid || target.files.length ≠ found.length then
    { error := "The torrent metadata or file mapping is invalid." }
  else
    let result := initialAnalysis target found
    let (result, v1Verified) :=
      if target.v1 then analyzeV1 sha1 target found (result, fun _ => false)
      else (result, fun _ => true)
    let (result, v2Verified) :=
      if target.v2 then analyzeV2 h sha zero target found (result, fun _ => false)
      else (result, fun _ => true)
    (List.range target.numPieces).foldl
      (countPiece target fun piece => v1Verified piece && v2Verified piece) result

end Scan

end Qbutt.Repair
